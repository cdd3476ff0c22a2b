import Agents.Json.Decode
import Agents.Text.Blank

/-! # Points in time

A timestamp is a second of the proleptic Gregorian calendar in UTC and a fraction of it in
nanoseconds. It is read from RFC 3339 text with any offset and written in UTC with the fewest of
0, 3, 6 or 9 digits of the fraction. A leap second keeps its own text: its fraction counts from
one second up.
-/

namespace Agents

structure Timestamp where
  /-- Seconds since 1970-01-01T00:00:00Z. -/
  seconds : Int
  nanoseconds : Nat := 0
deriving DecidableEq, Repr, Inhabited

namespace Timestamp

def isBefore (a b : Timestamp) : Bool :=
  a.seconds < b.seconds || (a.seconds = b.seconds && a.nanoseconds < b.nanoseconds)

/-! ## The calendar -/

def isLeapYear (year : Int) : Bool := year % 4 = 0 && (year % 100 ≠ 0 || year % 400 = 0)

def daysInMonth (year : Int) (month : Nat) : Nat :=
  if month = 2 then if isLeapYear year then 29 else 28
  else if month = 4 ∨ month = 6 ∨ month = 9 ∨ month = 11 then 30
  else 31

/-- Days from 1970-01-01 to a date. Years are counted from March, so that a leap day comes last. -/
def daysFromDate (year : Int) (month day : Nat) : Int :=
  let y := if month ≤ 2 then year - 1 else year
  let era := y / 400
  let yearOfEra := y % 400
  let monthFromMarch : Int := ((month + 9) % 12 : Nat)
  let dayOfYear := (153 * monthFromMarch + 2) / 5 + day - 1
  let dayOfEra := yearOfEra * 365 + yearOfEra / 4 - yearOfEra / 100 + dayOfYear
  era * 146097 + dayOfEra - 719468

/-- The date that many days after 1970-01-01, as year, month and day. -/
def dateFromDays (days : Int) : Int × Nat × Nat :=
  let shifted := days + 719468
  let era := shifted / 146097
  let dayOfEra := shifted % 146097
  let yearOfEra := (dayOfEra - dayOfEra / 1460 + dayOfEra / 36524 - dayOfEra / 146096) / 365
  let dayOfYear := dayOfEra - (365 * yearOfEra + yearOfEra / 4 - yearOfEra / 100)
  let monthFromMarch := (5 * dayOfYear + 2) / 153
  let day := dayOfYear - (153 * monthFromMarch + 2) / 5 + 1
  let month := if monthFromMarch < 10 then monthFromMarch + 3 else monthFromMarch - 9
  let year := yearOfEra + era * 400 + (if month ≤ 2 then 1 else 0)
  (year, month.toNat, day.toNat)

/-! ## Writing -/

def padded (width n : Nat) : String :=
  let digits := toString n
  String.ofList (List.replicate (width - digits.length) '0') ++ digits

def yearText (year : Int) : String :=
  if 0 ≤ year ∧ year ≤ 9999 then padded 4 year.toNat
  else if 0 ≤ year then "+" ++ padded 4 year.toNat
  else "-" ++ padded 4 (-year).toNat

/-- The fraction after its point, without needless groups of zeros. -/
def fractionText (nanoseconds : Nat) : String :=
  if nanoseconds = 0 then ""
  else if nanoseconds % 1000000 = 0 then "." ++ padded 3 (nanoseconds / 1000000)
  else if nanoseconds % 1000 = 0 then "." ++ padded 6 (nanoseconds / 1000)
  else "." ++ padded 9 nanoseconds

def text (t : Timestamp) : String :=
  let (year, month, day) := dateFromDays (t.seconds / 86400)
  let second := (t.seconds % 86400).toNat
  let leap := 1000000000 ≤ t.nanoseconds
  yearText year ++ "-" ++ padded 2 month ++ "-" ++ padded 2 day ++ "T"
    ++ padded 2 (second / 3600) ++ ":" ++ padded 2 (second / 60 % 60) ++ ":"
    ++ padded 2 (second % 60 + (if leap then 1 else 0))
    ++ fractionText (if leap then t.nanoseconds - 1000000000 else t.nanoseconds) ++ "Z"

/-! ## Reading -/

def isDigit (c : Char) : Bool := '0' ≤ c && c ≤ '9'

def numberOf (digits : List Char) : Nat :=
  digits.foldl (fun n c => 10 * n + (c.toNat - '0'.toNat)) 0

/-- At least one and at most `width` digits, after white space. -/
def number? (width : Nat) (s : List Char) : Option (Nat × List Char) :=
  let s := Text.trimStart s
  let digits := (s.take width).takeWhile isDigit
  if digits = [] then none else some (numberOf digits, s.drop digits.length)

/-- A year: up to four digits, or any number of them after a sign. -/
def year? (s : List Char) : Option (Int × List Char) :=
  match Text.trimStart s with
  | '-' :: rest => do
    let (n, rest) ← if (rest.head?.map isDigit) = some true then number? rest.length rest else none
    return (-(n : Int), rest)
  | '+' :: rest => do
    let (n, rest) ← if (rest.head?.map isDigit) = some true then number? rest.length rest else none
    return ((n : Int), rest)
  | s => do
    let (n, rest) ← number? 4 s
    return ((n : Int), rest)

/-- One character, after white space. -/
def mark? (c : Char) (s : List Char) : Option (List Char) :=
  match Text.trimStart s with
  | d :: rest => if c = d then some rest else none
  | [] => none

/-- A fraction of a second, if there is one; digits beyond the ninth are dropped. -/
def fraction? : List Char → Option (Nat × List Char)
  | '.' :: rest =>
    let digits := rest.takeWhile isDigit
    if digits = [] then none
    else
      let kept := digits.take 9
      some (numberOf kept * Nat.pow 10 (9 - kept.length), rest.dropWhile isDigit)
  | s => some (0, s)

def offset? (s : List Char) : Option (Int × List Char) :=
  match s with
  | 'Z' :: rest | 'z' :: rest => some (0, rest)
  | c :: h1 :: h2 :: rest =>
    let sign? : Option Int :=
      if c = '+' then some 1 else if c = '-' ∨ c = '−' then some (-1) else none
    match sign? with
    | none =>
      if [c, h1, h2].map Char.toLower = ['u', 't', 'c'] then some (0, rest) else none
    | some sign =>
      if !(isDigit h1 && isDigit h2) then none
      else
        match rest.dropWhile fun c => c = ':' || Text.isBlank c with
        | m1 :: m2 :: rest =>
          if isDigit m1 && isDigit m2 && m1 ≤ '5' then
            some (sign * (numberOf [h1, h2] * 3600 + numberOf [m1, m2] * 60 : Nat), rest)
          else none
        | _ => none
  | _ => none

/-- Reads an RFC 3339 text; blanks may stand between its parts. -/
def parse? (text : String) : Option Timestamp := do
  let (year, s) ← year? text.toList
  let (month, s) ← number? 2 (← mark? '-' s)
  let (day, s) ← number? 2 (← mark? '-' s)
  let s ← match s with
    | 't' :: rest | 'T' :: rest | ' ' :: rest => some rest
    | _ => none
  let (hour, s) ← number? 2 s
  let (minute, s) ← number? 2 (← mark? ':' s)
  let (second, s) ← number? 2 (← mark? ':' s)
  let (nanoseconds, s) ← fraction? s
  let (offset, s) ← offset? (Text.trimStart s)
  if Text.trimStart s ≠ [] then none
  if !(1 ≤ month && month ≤ 12 && 1 ≤ day && day ≤ daysInMonth year month) then none
  if !(hour < 24 && minute < 60 && second ≤ 60 && offset.natAbs < 86400) then none
  if !(-262143 ≤ year && year ≤ 262142) then none
  let leap := second = 60
  let ofDay : Int := (hour * 3600 + minute * 60 + (if leap then 59 else second) : Nat)
  return {
    seconds := daysFromDate year month day * 86400 + ofDay - offset
    nanoseconds := if leap then nanoseconds + 1000000000 else nanoseconds }

def toJson (t : Timestamp) : Json := .str t.text

def ofJson? : Json.Decoder Timestamp := fun json => json.str?.bind parse?

end Timestamp

end Agents
