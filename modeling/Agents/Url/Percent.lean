/-! # Percent-encoding

A character that may not stand where it is, is written as the bytes of its UTF-8 encoding, each
after a percent sign in two hexadecimal digits. Which characters these are depends on the place.
Query strings of forms have an encoding of their own, in which a blank is a plus sign.
-/

namespace Agents.Url.Percent

def hexDigit (n : Nat) : Char := (Nat.digitChar n).toUpper

def encodeByte (b : UInt8) : List Char := ['%', hexDigit (b.toNat / 16), hexDigit (b.toNat % 16)]

/-- Encodes the characters that a set holds. -/
def encode (set : Char → Bool) (s : List Char) : List Char :=
  s.flatMap fun c => if set c then (String.utf8EncodeChar c).flatMap encodeByte else [c]

def hexValue? (c : Char) : Option Nat :=
  if '0' ≤ c ∧ c ≤ '9' then some (c.toNat - '0'.toNat)
  else if 'a' ≤ c ∧ c ≤ 'f' then some (c.toNat - 'a'.toNat + 10)
  else if 'A' ≤ c ∧ c ≤ 'F' then some (c.toNat - 'A'.toNat + 10)
  else none

/-- The bytes that a text encodes; a percent sign without two digits stands for itself. -/
def decode : List Char → List UInt8
  | '%' :: a :: b :: rest =>
    match hexValue? a, hexValue? b with
    | some x, some y => UInt8.ofNat (16 * x + y) :: decode rest
    | _, _ => String.utf8EncodeChar '%' ++ decode (a :: b :: rest)
  | c :: rest => String.utf8EncodeChar c ++ decode rest
  | [] => []

/-! ## Sets -/

/-- Control characters and everything that is not ASCII. -/
def isControl (c : Char) : Bool := c.toNat < 0x20 || 0x7E < c.toNat

def inFragment (c : Char) : Bool := isControl c || " \"<>\x60".toList.contains c

def inQuery (c : Char) : Bool := isControl c || " \"#<>".toList.contains c

/-- In the query of a scheme such as `http` the apostrophe is encoded too. -/
def inSpecialQuery (c : Char) : Bool := inQuery c || c = '\x27'

def inPath (c : Char) : Bool := inFragment c || "#?\x7b\x7d".toList.contains c

/-- Inside one segment a slash and a percent sign are encoded too. -/
def inSegment (c : Char) : Bool := inPath c || c = '/' || c = '%'

def inSpecialSegment (c : Char) : Bool := inSegment c || c = '\\'

def inUserInfo (c : Char) : Bool := inPath c || "/:;=@[\\]^|".toList.contains c

/-! ## Forms -/

/-- What stands for itself in the query string of a form. -/
def isPlainInForm (c : Char) : Bool := c.isAlphanum || "*-._".toList.contains c

def encodeForm (s : List Char) : List Char :=
  s.flatMap fun c =>
    if isPlainInForm c then [c] else if c = ' ' then ['+']
    else (String.utf8EncodeChar c).flatMap encodeByte

def encodePairs (pairs : List (String × String)) : String :=
  "&".intercalate (pairs.map fun (name, value) =>
    String.ofList (encodeForm name.toList ++ '=' :: encodeForm value.toList))

end Agents.Url.Percent
