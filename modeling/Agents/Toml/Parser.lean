import Agents.Timestamp
import Agents.Toml.Document
import Agents.Word

/-! # Reading TOML

A document is a sequence of lines: headers, assignments, blank lines and comments. Reading gives
the document's tables as one JSON object, or refuses the text. Dates and times become objects that
hold their text, so that they are taken for neither strings nor numbers.
-/

namespace Agents.Toml

/-! ## Blanks, comments and line ends -/

def isBlank (c : Char) : Bool := c = ' ' || c = '\t'

/-- A character that may stand in a comment or in a string on one line. -/
def isPrintable (c : Char) : Bool := c = '\t' || (32 ≤ c.toNat && c.toNat ≠ 127)

def skipBlanks (s : List Char) : List Char := s.dropWhile isBlank

def skipComment : List Char → List Char
  | '#' :: rest => rest.dropWhile isPrintable
  | s => s

def newline? : List Char → Option (List Char)
  | '\n' :: rest => some rest
  | '\r' :: '\n' :: rest => some rest
  | _ => none

/-- The next line, if nothing but a comment is left on this one. -/
def nextLine? (s : List Char) : Option (List Char) :=
  match skipComment (skipBlanks s) with
  | [] => some []
  | s => newline? s

def skipLines : (fuel : Nat) → List Char → List Char
  | 0, s => s
  | fuel + 1, s =>
    let s := skipComment (skipBlanks s)
    match newline? s with
    | some rest => skipLines fuel rest
    | none => s

/-! ## Strings -/

def hexValue? (digits : List Char) : Option Nat :=
  digits.foldlM (fun n c =>
    if c.isDigit then some (16 * n + (c.toNat - '0'.toNat))
    else if 'a' ≤ c ∧ c ≤ 'f' then some (16 * n + (c.toNat - 'a'.toNat + 10))
    else if 'A' ≤ c ∧ c ≤ 'F' then some (16 * n + (c.toNat - 'A'.toNat + 10))
    else none) 0

/-- A character written as `count` hexadecimal digits. -/
def codePoint? (count : Nat) (s : List Char) : Option (Char × List Char) := do
  if s.length < count then none
  let n ← hexValue? (s.take count)
  if h : n.isValidChar then return (Char.ofNatAux n h, s.drop count) else none

def escape? : List Char → Option (Char × List Char)
  | 'b' :: rest => some ('\x08', rest)
  | 't' :: rest => some ('\t', rest)
  | 'n' :: rest => some ('\n', rest)
  | 'f' :: rest => some ('\x0c', rest)
  | 'r' :: rest => some ('\r', rest)
  | '"' :: rest => some ('"', rest)
  | '\\' :: rest => some ('\\', rest)
  | 'u' :: rest => codePoint? 4 rest
  | 'U' :: rest => codePoint? 8 rest
  | _ => none

/-- The rest of a string on one line; escapes are read between double quotes only. -/
def lineString? (quote : Char) : (fuel : Nat) → List Char → Option (List Char × List Char)
  | 0, _ => none
  | fuel + 1, s =>
    match s with
    | [] => none
    | c :: rest =>
      if c = quote then some ([], rest)
      else if c = '\\' ∧ quote = '"' then do
        let (c, rest) ← escape? rest
        let (cs, rest) ← lineString? quote fuel rest
        return (c :: cs, rest)
      else if isPrintable c then do
        let (cs, rest) ← lineString? quote fuel rest
        return (c :: cs, rest)
      else none

/-- The rest of a string over several lines. The closing quotes may be preceded by two more; a
backslash at the end of a line swallows the white space that follows. -/
def blockString? (quote : Char) : (fuel : Nat) → List Char → Option (List Char × List Char)
  | 0, _ => none
  | fuel + 1, s =>
    let quotes := s.takeWhile (· = quote)
    if 3 ≤ quotes.length then
      if quotes.length ≤ 5 then some (quotes.drop 3, s.drop quotes.length) else none
    else
      match s with
      | [] => none
      | c :: rest =>
        if c = '\\' ∧ quote = '"' then
          match newline? (skipBlanks rest) with
          | some rest =>
            blockString? quote fuel
              (rest.dropWhile fun c => isBlank c || c = '\n' || c = '\r')
          | none => do
            let (c, rest) ← escape? rest
            let (cs, rest) ← blockString? quote fuel rest
            return (c :: cs, rest)
        else match newline? s with
          | some rest => do
            let (cs, rest) ← blockString? quote fuel rest
            return ('\n' :: cs, rest)
          | none =>
            if isPrintable c then do
              let (cs, rest) ← blockString? quote fuel rest
              return (c :: cs, rest)
            else none

/-- A string of one of the four kinds, if one starts here; an opening line end is dropped. -/
def string? : List Char → Option (List Char × List Char)
  | a :: b :: c :: rest =>
    if (a = '"' ∨ a = '\x27') ∧ b = a ∧ c = a then
      blockString? a (rest.length + 1) ((newline? rest).getD rest)
    else if a = '"' ∨ a = '\x27' then lineString? a (rest.length + 3) (b :: c :: rest)
    else none
  | [a, b] => if (a = '"' ∨ a = '\x27') ∧ b = a then some ([], []) else none
  | _ => none

/-! ## Keys -/

def isBareKey (c : Char) : Bool := c.isAlphanum || c = '_' || c = '-'

def simpleKey? (s : List Char) : Option (String × List Char) :=
  match s with
  | [] => none
  | c :: rest =>
    if c = '"' ∨ c = '\x27' then
      (lineString? c (rest.length + 1) rest).map fun (cs, rest) => (String.ofList cs, rest)
    else
      let key := s.takeWhile isBareKey
      if key.isEmpty then none else some (String.ofList key, s.dropWhile isBareKey)

/-- How deeply values may be nested, and how many keys a dotted key may have. -/
def maxDepth : Nat := 79

/-- A dotted key of at most `limit` keys, as the keys before the last one and the last one. -/
def dottedKeyWithin? : (limit : Nat) → List Char → Option (List String × String × List Char)
  | 0, _ => none
  | limit + 1, s => do
    let (key, rest) ← simpleKey? (skipBlanks s)
    match skipBlanks rest with
    | '.' :: rest =>
      let (path, last, rest) ← dottedKeyWithin? limit rest
      return (key :: path, last, rest)
    | rest => return ([], key, rest)

def dottedKey? : List Char → Option (List String × String × List Char) :=
  dottedKeyWithin? maxDepth

/-! ## Numbers, dates and times -/

/-- The digits of a number, where single underscores may stand between two digits. -/
def digits? (isDigit : Char → Bool) : List Char → Option (List Char)
  | [] => none
  | [c] => if isDigit c then some [c] else none
  | c :: '_' :: rest => if isDigit c then (digits? isDigit rest).map (c :: ·) else none
  | c :: rest => if isDigit c then (digits? isDigit rest).map (c :: ·) else none

def appendDigits (n : Nat) (digits : List Char) : Nat :=
  digits.foldl (fun n c => 10 * n + (c.toNat - '0'.toNat)) n

def decimalValue (digits : List Char) : Nat := appendDigits 0 digits

/-- Digits of a number in decimal notation, without a leading zero. -/
def decimal? (s : List Char) : Option Nat := do
  let digits ← digits? Char.isDigit s
  if digits.length > 1 ∧ digits.head? = some '0' then none else some (decimalValue digits)

def integer? (s : List Char) : Option Int := do
  let n : Int ← match s with
    | '+' :: rest => (decimal? rest).map Int.ofNat
    | '-' :: rest => (decimal? rest).map fun n => -Int.ofNat n
    | '0' :: 'x' :: rest => radix? 16 (fun c => (hexValue? [c]).isSome) rest
    | '0' :: 'o' :: rest => radix? 8 (fun c => '0' ≤ c && c ≤ '7') rest
    | '0' :: 'b' :: rest => radix? 2 (fun c => c = '0' || c = '1') rest
    | s => (decimal? s).map Int.ofNat
  if -(Word.size 63 : Int) ≤ n ∧ n < Word.size 63 then some n else none
where
  /-- A natural number to one of the bases 2, 8 and 16. -/
  radix? (base : Nat) (isDigit : Char → Bool) (s : List Char) : Option Int := do
    let digits ← digits? isDigit s
    return digits.foldl (fun n c => base * n + ((hexValue? [c]).getD 0 : Nat)) (0 : Int)

/-- Splits before the first character that meets the test. -/
def splitBefore (test : Char → Bool) (s : List Char) : List Char × List Char :=
  (s.takeWhile (!test ·), s.dropWhile (!test ·))

/-- A number with a fraction or an exponent, or one of the special numbers. Digits must not spell a
number that is too large, but may spell one that is too small. -/
def float? (s : List Char) : Option Float := do
  let (negative, s) := match s with
    | '+' :: rest => (false, rest)
    | '-' :: rest => (true, rest)
    | s => (false, s)
  let magnitude ← match String.ofList s with
    | "inf" => some (1.0 / 0.0)
    | "nan" => some (0.0 / 0.0)
    | _ => do
      let (mantissa, exponent) := splitBefore (fun c => c = 'e' || c = 'E') s
      let (whole, fraction) := splitBefore (· = '.') mantissa
      if exponent.isEmpty ∧ fraction.isEmpty then none
      let whole ← decimal? whole
      let fraction ← match fraction with
        | [] => some []
        | _ :: digits => digits? Char.isDigit digits
      let exponent : Int ← match exponent with
        | [] => some 0
        | _ :: '-' :: digits => (value digits).map fun n => -Int.ofNat n
        | _ :: '+' :: digits => (value digits).map Int.ofNat
        | _ :: digits => (value digits).map Int.ofNat
      let mantissa := appendDigits whole fraction
      let exponent := max (-5000) (min 5000 (exponent - fraction.length))
      let x := match exponent with
        | .ofNat e => Float.ofScientific mantissa false e
        | .negSucc e => Float.ofScientific mantissa true (e + 1)
      if x.isInf ∧ !negative then none
      return x
  return if negative then -magnitude else magnitude
where
  /-- The value of digits that may begin with zeros. -/
  value (s : List Char) : Option Nat := do
    return decimalValue (← digits? Char.isDigit s)

/-- A number of exactly `count` digits, at least `low` and at most `high`. -/
def field? (count low high : Nat) (s : List Char) : Option (List Char) :=
  let digits := s.take count
  if digits.length = count ∧ digits.all Char.isDigit then
    let n := decimalValue digits
    if low ≤ n ∧ n ≤ high then some (s.drop count) else none
  else none

def expect? (c : Char) : List Char → Option (List Char)
  | d :: rest => if c = d then some rest else none
  | [] => none

/-- What follows a date of the calendar. -/
def date? (s : List Char) : Option (List Char) := do
  let rest ← field? 4 0 9999 s >>= expect? '-' >>= field? 2 1 12 >>= expect? '-'
  let (year, month) := (decimalValue (s.take 4), decimalValue ((s.drop 5).take 2))
  field? 2 1 (Timestamp.daysInMonth year month) rest

/-- What follows a time. -/
def time? (s : List Char) : Option (List Char) := do
  let rest ← field? 2 0 23 s >>= expect? ':' >>= field? 2 0 59 >>= expect? ':' >>= field? 2 0 60
  match rest with
  | '.' :: digits =>
    if (digits.takeWhile Char.isDigit).isEmpty then none else some (digits.dropWhile Char.isDigit)
  | rest => some rest

/-- What follows the offset of a time. -/
def offset? : List Char → Option (List Char)
  | 'Z' :: rest | 'z' :: rest => some rest
  | '+' :: rest | '-' :: rest => field? 2 0 23 rest >>= expect? ':' >>= field? 2 0 59
  | s => some s

/-- Whether a text is a date, a time, or both with or without an offset. -/
def isMoment (s : List Char) : Bool :=
  let left? : Option (List Char) := match date? s with
    | some [] => some []
    | some (c :: rest) =>
      if c = 'T' ∨ c = 't' ∨ c = ' ' then time? rest >>= offset? else none
    | none => time? s
  left? = some []

def isScalarChar (c : Char) : Bool :=
  c.isAlphanum || c = '_' || c = '+' || c = '-' || c = '.' || c = ':'

/-- The text of a number, date, time or boolean, and what follows it. A blank may stand between a
date and a time. -/
def scalarText (s : List Char) : List Char × List Char :=
  let text := s.takeWhile isScalarChar
  let rest := s.dropWhile isScalarChar
  match rest with
  | ' ' :: after =>
    if date? text = some [] ∧ ((field? 2 0 99 after).bind (expect? ':')).isSome then
      (text ++ ' ' :: after.takeWhile isScalarChar, after.dropWhile isScalarChar)
    else (text, rest)
  | _ => (text, rest)

def scalar? (s : List Char) : Option (Json × List Char) :=
  let (text, rest) := scalarText s
  if text = "true".toList then some (.bool true, rest)
  else if text = "false".toList then some (.bool false, rest)
  else match integer? text with
    | some n => some (.ofInt n, rest)
    | none =>
      match float? text with
      | some x => some (.ofFloat x, rest)
      | none =>
        if isMoment text then some (.obj [("moment", .str (String.ofList text))], rest) else none

/-! ## Values -/

def items? (value? : List Char → Option (Json × List Char)) :
    (fuel : Nat) → List Char → Option (List Json × List Char)
  | 0, _ => none
  | fuel + 1, s =>
    match skipLines s.length s with
    | ']' :: rest => some ([], rest)
    | s => do
      let (item, rest) ← value? s
      match skipLines rest.length rest with
      | ',' :: rest =>
        let (items, rest) ← items? value? fuel rest
        return (item :: items, rest)
      | ']' :: rest => return ([item], rest)
      | _ => none

/-- The members of an inline table after its brace; it is on one line and ends without a comma. -/
def members? (value? : List Char → Option (Json × List Char)) :
    (fuel : Nat) → Entries → List Char → Option (Entries × List Char)
  | 0, _, _ => none
  | fuel + 1, entries, s => do
    let (path, key, rest) ← dottedKey? s
    let rest ← expect? '=' rest
    let (value, rest) ← value? (skipBlanks rest)
    let entries ← assign path key value entries
    match skipBlanks rest with
    | ',' :: rest => members? value? fuel entries rest
    | '\x7d' :: rest => return (entries, rest)
    | _ => none

def simpleValue? (s : List Char) : Option (Json × List Char) :=
  match s with
  | '"' :: _ | '\x27' :: _ => (string? s).map fun (cs, rest) => (.str (String.ofList cs), rest)
  | s => scalar? s

/-- An array or inline table, whose items are read by `value?`. -/
def container? (value? : List Char → Option (Json × List Char)) :
    List Char → Option (Json × List Char)
  | '[' :: rest =>
    (items? value? (rest.length + 1) rest).map fun (items, rest) => (.arr items, rest)
  | '\x7b' :: rest =>
    match skipBlanks rest with
    | '\x7d' :: rest => some (.obj [], rest)
    | rest =>
      (members? value? (rest.length + 1) [] rest).map fun (entries, rest) =>
        (Json.ofMembers (membersOf entries), rest)
  | _ => none

/-- A value in which containers are nested at most `depth` deep. -/
def value? : (depth : Nat) → List Char → Option (Json × List Char)
  | 0, s => simpleValue? s
  | depth + 1, s =>
    match s with
    | '[' :: _ | '\x7b' :: _ => container? (value? depth) s
    | s => simpleValue? s

/-! ## Documents -/

/-- The lines of a document, under the header that was read last. -/
def lines? : (fuel : Nat) → (header : List String) → (root : Entries) → List Char → Option Entries
  | 0, _, _, _ => none
  | fuel + 1, header, root, s =>
    match skipLines (s.length + 1) s with
    | [] => some root
    | '[' :: '[' :: rest => do
      let (path, key, rest) ← dottedKey? rest
      let rest ← expect? ']' rest >>= expect? ']' >>= nextLine?
      lines? fuel (path ++ [key]) (← openElement path key root) rest
    | '[' :: rest => do
      let (path, key, rest) ← dottedKey? rest
      let rest ← expect? ']' rest >>= nextLine?
      lines? fuel (path ++ [key]) (← openTable path key root) rest
    | s => do
      let (path, key, rest) ← dottedKey? s
      let rest ← expect? '=' rest
      let (value, rest) ← value? maxDepth (skipBlanks rest)
      let rest ← nextLine? rest
      lines? fuel header (← assignIn header path key value root) rest

def parse? (text : String) : Option Json :=
  let s := match text.toList with
    | '\uFEFF' :: rest => rest
    | s => s
  (lines? (s.length + 1) [] [] s).map fun root => Json.ofMembers (membersOf root)

end Agents.Toml
