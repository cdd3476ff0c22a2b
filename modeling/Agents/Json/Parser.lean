import Agents.Json.Basic
import Agents.Word

/-! # Reading JSON text

`Json.parse` reads one value and nothing after it but blanks. What the reader accepts:

- at most 127 containers inside one another;
- the last of two members with one key;
- integers that fit 64 bits, signed or unsigned, as integers, and every other number as a double;
- no control character inside a string, and surrogate escapes only in pairs.

Every function takes the unread characters and returns the ones it left. A fault names its cause
and how many bytes stood unread at the place it points to, from which `parse` works out the line
and the column; columns count bytes.
-/

namespace Agents.Json

/-! ## Faults -/

inductive SyntaxCause where
  | eofInList
  | eofInObject
  | eofInString
  | eofInValue
  | expectedColon
  | expectedListEnd
  | expectedObjectEnd
  | expectedIdent
  | expectedValue
  | invalidEscape
  | invalidNumber
  | numberOutOfRange
  | controlCharacter
  | keyNotString
  | loneSurrogate
  | trailingComma
  | trailingCharacters
  | unexpectedEndOfEscape
  | tooDeep
deriving DecidableEq, Repr

def SyntaxCause.message : SyntaxCause → String
  | .eofInList => "EOF while parsing a list"
  | .eofInObject => "EOF while parsing an object"
  | .eofInString => "EOF while parsing a string"
  | .eofInValue => "EOF while parsing a value"
  | .expectedColon => "expected `:`"
  | .expectedListEnd => "expected `,` or `]`"
  | .expectedObjectEnd => "expected `,` or `\x7d`"
  | .expectedIdent => "expected ident"
  | .expectedValue => "expected value"
  | .invalidEscape => "invalid escape"
  | .invalidNumber => "invalid number"
  | .numberOutOfRange => "number out of range"
  | .controlCharacter => "control character (\\u0000-\\u001F) found while parsing a string"
  | .keyNotString => "key must be a string"
  | .loneSurrogate => "lone leading surrogate in hex escape"
  | .trailingComma => "trailing comma"
  | .trailingCharacters => "trailing characters"
  | .unexpectedEndOfEscape => "unexpected end of hex escape"
  | .tooDeep => "recursion limit exceeded"

/-- A cause, and the number of bytes after the place it points to. -/
structure Fault where
  cause : SyntaxCause
  unread : Nat

/-- A cause and its place; lines count from one, columns in bytes from the last line break. -/
structure SyntaxError where
  cause : SyntaxCause
  line : Nat
  column : Nat
deriving DecidableEq, Repr

def SyntaxError.message (e : SyntaxError) : String :=
  e.cause.message ++ " at line " ++ toString e.line ++ " column " ++ toString e.column

abbrev Read (α : Type) := Except Fault (α × List Char)

/-- Number of bytes of the characters in UTF-8. -/
def byteLength (s : List Char) : Nat := s.foldl (fun n c => n + c.utf8Size) 0

/-- A fault just before the unread characters. -/
def fault {α : Type} (cause : SyntaxCause) (rest : List Char) : Except Fault α :=
  .error ⟨cause, byteLength rest⟩

/-- A fault one byte into the unread characters. -/
def faultAtNext {α : Type} (cause : SyntaxCause) (rest : List Char) : Except Fault α :=
  .error ⟨cause, byteLength rest - 1⟩

/-! ## Blanks and literals -/

def isBlank (c : Char) : Bool := c = ' ' || c = '\n' || c = '\t' || c = '\r'

def skipBlanks (s : List Char) : List Char := s.dropWhile isBlank

/-- The remaining characters of a literal whose first one has been read. -/
def literal (value : Json) : List Char → List Char → Read Json
  | [], rest => .ok (value, rest)
  | _ :: _, [] => fault .eofInValue []
  | e :: expected, c :: rest =>
    if c = e then literal value expected rest else faultAtNext .expectedIdent (c :: rest)

/-! ## Strings -/

def hexValue? (c : Char) : Option Nat :=
  if '0' ≤ c ∧ c ≤ '9' then some (c.toNat - '0'.toNat)
  else if 'a' ≤ c ∧ c ≤ 'f' then some (c.toNat - 'a'.toNat + 10)
  else if 'A' ≤ c ∧ c ≤ 'F' then some (c.toNat - 'A'.toNat + 10)
  else none

def unescape? (c : Char) : Option Char :=
  if c = '"' ∨ c = '\\' ∨ c = '/' then some c
  else if c = 'b' then some '\x08'
  else if c = 'f' then some '\x0c'
  else if c = 'n' then some '\n'
  else if c = 'r' then some '\r'
  else if c = 't' then some '\t'
  else none

inductive StringState where
  | plain
  /-- After a backslash. -/
  | escape
  /-- After this many digits of a `\u` escape; the leading surrogate before it, if there was one. -/
  | hex (leading : Option Nat) (digits value : Nat)
  /-- After a leading surrogate, whose other half must follow. -/
  | pairBackslash (leading : Nat)
  | pairLetter (leading : Nat)
deriving DecidableEq, Repr

def isLeadingSurrogate (n : Nat) : Bool := 0xD800 ≤ n && n ≤ 0xDBFF

def isTrailingSurrogate (n : Nat) : Bool := 0xDC00 ≤ n && n ≤ 0xDFFF

def joinSurrogates (leading trailing : Nat) : Char :=
  Char.ofNat ((leading - 0xD800) * 0x400 + (trailing - 0xDC00) + 0x10000)

private def consRead (c : Char) : Read (List Char) → Read (List Char)
  | .ok (cs, rest) => .ok (c :: cs, rest)
  | .error e => .error e

def string : StringState → List Char → Read (List Char)
  | _, [] => fault .eofInString []
  | .plain, c :: rest =>
    if c = '"' then .ok ([], rest)
    else if c = '\\' then string .escape rest
    else if c.toNat < 32 then fault .controlCharacter rest
    else consRead c (string .plain rest)
  | .escape, c :: rest =>
    if c = 'u' then string (.hex none 0 0) rest
    else match unescape? c with
      | some d => consRead d (string .plain rest)
      | none => faultAtNext .invalidEscape (c :: rest)
  | .hex leading digits value, c :: rest =>
    match hexValue? c with
    | none =>
      -- the four bytes of the escape are taken together, whatever they are
      let missing := 4 - digits
      if byteLength (c :: rest) < missing then fault .eofInString []
      else .error ⟨.invalidEscape, byteLength (c :: rest) - missing⟩
    | some d =>
      let value := 16 * value + d
      if digits < 3 then string (.hex leading (digits + 1) value) rest
      else match leading with
        | some high =>
          if isTrailingSurrogate value then
            consRead (joinSurrogates high value) (string .plain rest)
          else fault .loneSurrogate rest
        | none =>
          if isTrailingSurrogate value then fault .loneSurrogate rest
          else if isLeadingSurrogate value then string (.pairBackslash value) rest
          else consRead (Char.ofNat value) (string .plain rest)
  | .pairBackslash high, c :: rest =>
    if c = '\\' then string (.pairLetter high) rest
    else faultAtNext .unexpectedEndOfEscape (c :: rest)
  | .pairLetter high, c :: rest =>
    if c = 'u' then string (.hex (some high) 0 0) rest
    else faultAtNext .unexpectedEndOfEscape (c :: rest)

/-! ## Numbers -/

def isDigit (c : Char) : Bool := '0' ≤ c && c ≤ '9'

def digitValue (c : Char) : Nat := c.toNat - '0'.toNat

/-- The largest significand that is kept exactly. -/
def maxSignificand : Nat := Word.size 64 - 1

/-- Appends digits to a significand while it fits; returns how many digits were taken and the
rest of them. -/
def takeDigits (significand : Nat) : List Char → Nat × Nat × List Char
  | [] => (significand, 0, [])
  | c :: rest =>
    let next := significand * 10 + digitValue c
    if next ≤ maxSignificand then
      let (total, count, left) := takeDigits next rest
      (total, count + 1, left)
    else (significand, 0, c :: rest)

/-- A significand and a power of ten as a double: one multiplication or division by the rounded
power. A result beyond the largest double is refused. -/
def scaleByPowerOfTen (significand : Nat) (exponent : Int) : Option Float :=
  go 3 (Float.ofNat significand) exponent
where
  go : Nat → Float → Int → Option Float
    | 0, x, _ => some x
    | fuel + 1, x, exponent =>
      if exponent.natAbs ≤ 308 then
        let power := Float.ofScientific 1 false exponent.natAbs
        if 0 ≤ exponent then
          let y := x * power
          if y.isFinite then some y else none
        else some (x / power)
      else if x == 0 then some x
      else if 0 ≤ exponent then none
      else go fuel (x / Float.ofScientific 1 false 308) (exponent + 308)

def signed (negative : Bool) (x : Float) : Float := if negative then -x else x

/-- The double with these parts, at the end of its text. -/
def finishFloat (negative : Bool) (significand : Nat) (exponent : Int) (rest : List Char) :
    Read Number :=
  match scaleByPowerOfTen significand exponent with
  | some x => .ok (.float (signed negative x), rest)
  | none => fault .numberOutOfRange rest

/-- The largest exponent that is read digit by digit. -/
def maxExponent : Nat := Word.size 31 - 1

/-- The digits of an exponent; `none` when it is beyond `maxExponent`, with the unread rest. -/
def exponentDigits (value : Nat) : List Char → Option Nat × List Char
  | [] => (some value, [])
  | c :: rest =>
    if isDigit c then
      let next := value * 10 + digitValue c
      if next ≤ maxExponent then exponentDigits next rest else (none, rest)
    else (some value, c :: rest)

def exponentPart (negative : Bool) (significand : Nat) (start : Int) (s : List Char) :
    Read Number :=
  let (down, s) := match s with
    | '+' :: rest => (false, rest)
    | '-' :: rest => (true, rest)
    | _ => (false, s)
  match s with
  | [] => fault .eofInValue []
  | c :: rest =>
    if isDigit c then
      match exponentDigits (digitValue c) rest with
      | (some e, rest) =>
        finishFloat negative significand (if down then start - e else start + e) rest
      | (none, rest) =>
        if significand ≠ 0 ∧ !down then fault .numberOutOfRange rest
        else .ok (.float (signed negative 0), rest.dropWhile isDigit)
    else faultAtNext .invalidNumber (c :: rest)

def fractionPart (negative : Bool) (significand : Nat) (before : Int) (s : List Char) :
    Read Number :=
  let (significand, count, dropped) := takeDigits significand (s.takeWhile isDigit)
  let rest := s.dropWhile isDigit
  if count = 0 ∧ dropped = [] then
    if rest = [] then fault .eofInValue [] else faultAtNext .invalidNumber rest
  else
    let exponent := before - count
    match rest with
    | 'e' :: rest | 'E' :: rest => exponentPart negative significand exponent rest
    | _ => finishFloat negative significand exponent rest

def unsignedNumber (negative : Bool) : List Char → Read Number
  | [] => fault .eofInValue []
  | c :: rest =>
    if !isDigit c then faultAtNext .invalidNumber (c :: rest)
    else if c = '0' ∧ (rest.head?.any isDigit) then faultAtNext .invalidNumber rest
    else
      let (significand, _, dropped) := takeDigits (digitValue c) (rest.takeWhile isDigit)
      let rest := rest.dropWhile isDigit
      match rest with
      | '.' :: rest => fractionPart negative significand dropped.length rest
      | 'e' :: rest | 'E' :: rest => exponentPart negative significand dropped.length rest
      | _ =>
        if dropped ≠ [] then finishFloat negative significand dropped.length rest
        else if !negative then .ok (.int significand, rest)
        else if significand = 0 ∨ Word.size 63 < significand then
          .ok (.float (-(Float.ofNat significand)), rest)
        else .ok (.int (-significand), rest)

def number : List Char → Read Number
  | '-' :: rest => unsignedNumber true rest
  | s => unsignedNumber false s

/-! ## Values -/

/-- The elements after a `[`. The fuel bounds their number; the length of the text is enough. -/
def elements (value : List Char → Read Json) : (fuel : Nat) → (first : Bool) → List Char →
    Except Fault (List Json × List Char)
  | 0, _, s => fault .eofInList s
  | fuel + 1, first, s => do
    let next (s : List Char) : Except Fault (List Json × List Char) := do
      let (item, rest) ← value s
      let (items, rest) ← elements value fuel false rest
      return (item :: items, rest)
    match skipBlanks s with
    | [] => fault .eofInList []
    | ']' :: rest => return ([], rest)
    | c :: rest =>
      if first then next (c :: rest)
      else if c = ',' then
        match skipBlanks rest with
        | [] => fault .eofInValue []
        | ']' :: rest => faultAtNext .trailingComma (']' :: rest)
        | rest => next rest
      else faultAtNext .expectedListEnd (c :: rest)

/-- The members after an opening brace, in the order of the text. -/
def members (value : List Char → Read Json) : (fuel : Nat) → (first : Bool) → List Char →
    Except Fault (List (String × Json) × List Char)
  | 0, _, s => fault .eofInObject s
  | fuel + 1, first, s => do
    let next (s : List Char) : Except Fault (List (String × Json) × List Char) := do
      let (key, rest) ← string .plain s
      match skipBlanks rest with
      | [] => fault .eofInObject []
      | ':' :: rest =>
        let (item, rest) ← value rest
        let (items, rest) ← members value fuel false rest
        return ((String.ofList key, item) :: items, rest)
      | rest => faultAtNext .expectedColon rest
    match skipBlanks s with
    | [] => fault .eofInObject []
    | '\x7d' :: rest => return ([], rest)
    | c :: rest =>
      if first then
        if c = '"' then next rest else faultAtNext .keyNotString (c :: rest)
      else if c = ',' then
        match skipBlanks rest with
        | [] => fault .eofInValue []
        | '"' :: rest => next rest
        | '\x7d' :: rest => faultAtNext .trailingComma ('\x7d' :: rest)
        | rest => faultAtNext .keyNotString rest
      else faultAtNext .expectedObjectEnd (c :: rest)

/-- One value, with at most `depth` containers inside one another. -/
def value (depth : Nat) (s : List Char) : Except Fault (Json × List Char) :=
  match skipBlanks s with
  | [] => fault .eofInValue []
  | c :: rest =>
    if c = 'n' then literal .null ['u', 'l', 'l'] rest
    else if c = 't' then literal (.bool true) ['r', 'u', 'e'] rest
    else if c = 'f' then literal (.bool false) ['a', 'l', 's', 'e'] rest
    else if c = '"' then do
      let (text, rest) ← string .plain rest
      return (.str (String.ofList text), rest)
    else if c = '[' then
      match depth with
      | 0 => faultAtNext .tooDeep (c :: rest)
      | depth + 1 => do
        let (items, rest) ← elements (value depth) (rest.length + 1) true rest
        return (.arr items, rest)
    else if c = '\x7b' then
      match depth with
      | 0 => faultAtNext .tooDeep (c :: rest)
      | depth + 1 => do
        let (items, rest) ← members (value depth) (rest.length + 1) true rest
        return (ofMembers items, rest)
    else if c = '-' ∨ isDigit c then do
      let (n, rest) ← number (c :: rest)
      return (.num n, rest)
    else faultAtNext .expectedValue (c :: rest)

/-- How many containers may stand inside one another. -/
def maxDepth : Nat := 127

/-- One value and nothing after it but blanks. -/
def document (s : List Char) : Except Fault Json := do
  let (json, rest) ← value maxDepth s
  match skipBlanks rest with
  | [] => return json
  | rest => faultAtNext .trailingCharacters rest

def place (bytes : List UInt8) (offset : Nat) : Nat × Nat :=
  let before := bytes.take offset
  (before.count 10 + 1, (before.reverse.takeWhile (· ≠ 10)).length)

/-- Reads a text that holds one JSON value. -/
def parse (text : String) : Except SyntaxError Json :=
  match document text.toList with
  | .ok json => .ok json
  | .error ⟨cause, unread⟩ =>
    let bytes := text.toUTF8.toList
    let (line, column) := place bytes (bytes.length - unread)
    .error ⟨cause, line, column⟩

def parse? (text : String) : Option Json := (parse text).toOption

end Agents.Json
