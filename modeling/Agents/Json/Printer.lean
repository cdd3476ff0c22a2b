import Agents.Decimal.Shortest
import Agents.Json.Basic

/-! # JSON text

`Json.compact` writes a value without blanks and is the text that fingerprints, prompts and the
hash chain are made of. `Json.pretty` writes the same tokens on indented lines.

Only what must be escaped is: the quote, the backslash and the control characters below U+0020.
-/

namespace Agents.Json

/-- Doubles are positional from `1e-5` up to below `1e16`, whole ones end in `.0`, a positive
exponent carries its sign, and a zero keeps its own. -/
def floatLayout : Decimal.Layout where
  least := -5
  limit := 16
  plus := "+"
  pointZero := true
  zero := "0.0"
  signedZero := true

def Number.text : Number → String
  | .int n => toString n
  | .float x => floatLayout.text x

def hexDigit (n : Nat) : Char := Nat.digitChar (n % 16)

def escapeChar (c : Char) : List Char :=
  if c = '"' then ['\\', '"']
  else if c = '\\' then ['\\', '\\']
  else if c = '\x08' then ['\\', 'b']
  else if c = '\t' then ['\\', 't']
  else if c = '\n' then ['\\', 'n']
  else if c = '\x0c' then ['\\', 'f']
  else if c = '\r' then ['\\', 'r']
  else if c.toNat < 32 then ['\\', 'u', '0', '0', hexDigit (c.toNat / 16), hexDigit c.toNat]
  else [c]

def escape (text : List Char) : List Char := text.flatMap escapeChar

def quote (text : String) : String := String.ofList ('"' :: escape text.toList ++ ['"'])

mutual

/-- The value's text without blanks. -/
def compact : Json → String
  | .null => "null"
  | .bool true => "true"
  | .bool false => "false"
  | .num n => n.text
  | .str s => quote s
  | .arr [] => "[]"
  | .arr (item :: rest) => "[" ++ compact item ++ compactItems rest ++ "]"
  | .obj [] => "\x7b\x7d"
  | .obj ((k, v) :: rest) => "\x7b" ++ quote k ++ ":" ++ compact v ++ compactFields rest ++ "\x7d"

/-- The elements after the first, each after its comma. -/
def compactItems : List Json → String
  | [] => ""
  | item :: rest => "," ++ compact item ++ compactItems rest

/-- The members after the first, each after its comma. -/
def compactFields : List (String × Json) → String
  | [] => ""
  | (k, v) :: rest => "," ++ quote k ++ ":" ++ compact v ++ compactFields rest

end

/-- A line break and the indentation of a nesting level. -/
private def newline (level : Nat) : String := "\n" ++ String.ofList (List.replicate (2 * level) ' ')

mutual

/-- The value's text with every element and member on a line of its own, two blanks per level. -/
def prettyAt (level : Nat) : Json → String
  | .arr (item :: rest) =>
    "[" ++ newline (level + 1) ++ prettyAt (level + 1) item ++ prettyItems (level + 1) rest
      ++ newline level ++ "]"
  | .obj ((k, v) :: rest) =>
    "\x7b" ++ newline (level + 1) ++ quote k ++ ": " ++ prettyAt (level + 1) v
      ++ prettyFields (level + 1) rest ++ newline level ++ "\x7d"
  | json => compact json

def prettyItems (level : Nat) : List Json → String
  | [] => ""
  | item :: rest => "," ++ newline level ++ prettyAt level item ++ prettyItems level rest

def prettyFields (level : Nat) : List (String × Json) → String
  | [] => ""
  | (k, v) :: rest =>
    "," ++ newline level ++ quote k ++ ": " ++ prettyAt level v ++ prettyFields level rest

end

def pretty (json : Json) : String := prettyAt 0 json

end Agents.Json
