/-! # Base64 with padding

`encode` writes three bytes as four symbols and pads the last group. `decode` accepts exactly the
canonical texts: padding must complete the last group, and the bits it leaves unused must be zero.
A refusal says what is wrong and at which byte of the text.
-/

namespace Agents.Text.Base64

inductive DecodeError where
  | invalidSymbol (symbol : UInt8) (offset : Nat)
  | invalidLength (length : Nat)
  | invalidLastSymbol (symbol : UInt8) (offset : Nat)
  | invalidPadding
deriving DecidableEq, Repr

def DecodeError.message : DecodeError → String
  | .invalidSymbol symbol offset =>
    "Invalid symbol " ++ toString symbol.toNat ++ ", offset " ++ toString offset ++ "."
  | .invalidLength length => "Invalid input length: " ++ toString length
  | .invalidLastSymbol symbol offset =>
    "Invalid last symbol " ++ toString symbol.toNat ++ ", offset " ++ toString offset ++ "."
  | .invalidPadding => "Invalid padding"

/-! ## Symbols -/

def symbol (n : Nat) : Char :=
  if n < 26 then Char.ofNat (n + 65)
  else if n < 52 then Char.ofNat (n + 71)
  else if n < 62 then Char.ofNat (n - 4)
  else if n = 62 then '+'
  else '/'

def symbolValue? (b : UInt8) : Option Nat :=
  let n := b.toNat
  if 65 ≤ n ∧ n ≤ 90 then some (n - 65)
  else if 97 ≤ n ∧ n ≤ 122 then some (n - 71)
  else if 48 ≤ n ∧ n ≤ 57 then some (n + 4)
  else if n = 43 then some 62
  else if n = 47 then some 63
  else none

def pad : UInt8 := 61

/-! ## Encoding -/

def encodeBytes : List UInt8 → List Char
  | [] => []
  | [a] =>
    let a := a.toNat
    [symbol (a / 4), symbol (a % 4 * 16), '=', '=']
  | [a, b] =>
    let (a, b) := (a.toNat, b.toNat)
    [symbol (a / 4), symbol (a % 4 * 16 + b / 16), symbol (b % 16 * 4), '=']
  | a :: b :: c :: rest =>
    let (a, b, c) := (a.toNat, b.toNat, c.toNat)
    symbol (a / 4) :: symbol (a % 4 * 16 + b / 16) :: symbol (b % 16 * 4 + c / 64)
      :: symbol (c % 64) :: encodeBytes rest

def encode (bytes : List UInt8) : String := String.ofList (encodeBytes bytes)

/-! ## Decoding -/

/-- The number of the symbol at an offset. -/
def readSymbol (offset : Nat) (b : UInt8) : Except DecodeError Nat :=
  match symbolValue? b with
  | some n => .ok n
  | none => .error (.invalidSymbol b offset)

/-- The symbols before the padding of the last group and the number of padding symbols. -/
def lastGroup (start : Nat) : (index : Nat) → (firstPad : Option Nat) → List UInt8 →
    Except DecodeError (List (UInt8 × Nat) × Nat)
  | _, _, [] => .ok ([], 0)
  | index, firstPad, b :: rest =>
    if b = pad then
      if index < 2 then .error (.invalidSymbol b (start + index))
      else
        match lastGroup start (index + 1) (firstPad.or (some index)) rest with
        | .ok (symbols, pads) => .ok (symbols, pads + 1)
        | .error e => .error e
    else
      match firstPad with
      | some first => .error (.invalidSymbol pad (start + first))
      | none =>
        match readSymbol (start + index) b with
        | .error e => .error e
        | .ok n =>
          match lastGroup start (index + 1) none rest with
          | .ok (symbols, pads) => .ok ((b, n) :: symbols, pads)
          | .error e => .error e

def decodeLast (start : Nat) (input : List UInt8) : Except DecodeError (List UInt8) :=
  match lastGroup start 0 none input with
  | .error e => .error e
  | .ok (symbols, pads) =>
    if input ≠ [] ∧ symbols.length < 2 then .error (.invalidLength (start + symbols.length))
    else if (symbols.length + pads) % 4 ≠ 0 then .error .invalidPadding
    else match symbols with
      | [(_, a), (b, n)] =>
        if n % 16 ≠ 0 then .error (.invalidLastSymbol b (start + 1))
        else .ok [UInt8.ofNat (a * 4 + n / 16)]
      | [(_, a), (_, b), (c, n)] =>
        if n % 4 ≠ 0 then .error (.invalidLastSymbol c (start + 2))
        else .ok [UInt8.ofNat (a * 4 + b / 16), UInt8.ofNat (b % 16 * 16 + n / 4)]
      | [(_, a), (_, b), (_, c), (_, d)] =>
        .ok [UInt8.ofNat (a * 4 + b / 16), UInt8.ofNat (b % 16 * 16 + c / 4),
          UInt8.ofNat (c % 4 * 64 + d)]
      | _ => .ok []

/-- The groups of a text; only the last one may be padded. -/
def decodeGroups (start : Nat) : List UInt8 → Except DecodeError (List UInt8)
  | a :: b :: c :: d :: e :: rest => do
    let a ← readSymbol start a
    let b ← readSymbol (start + 1) b
    let c ← readSymbol (start + 2) c
    let d ← readSymbol (start + 3) d
    let bytes ← decodeGroups (start + 4) (e :: rest)
    return UInt8.ofNat (a * 4 + b / 16) :: UInt8.ofNat (b % 16 * 16 + c / 4)
      :: UInt8.ofNat (c % 4 * 64 + d) :: bytes
  | input => decodeLast start input

/-- The bytes that a text stands for. A lone symbol after the last full group is looked at first. -/
def decodeBytes (input : List UInt8) : Except DecodeError (List UInt8) :=
  match input.getLast? with
  | some b =>
    if input.length % 4 = 1 ∧ b ≠ pad ∧ symbolValue? b = none then
      .error (.invalidSymbol b (input.length - 1))
    else decodeGroups 0 input
  | none => .ok []

def decode (text : String) : Except DecodeError (List UInt8) := decodeBytes text.toUTF8.toList

def decode? (text : String) : Option (List UInt8) := (decode text).toOption

end Agents.Text.Base64
