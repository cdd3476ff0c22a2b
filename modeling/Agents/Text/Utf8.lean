/-! # Reading bytes as UTF-8

Bytes are read one at a time, with the character that they have begun kept between them. Where they
cannot be UTF-8, the replacement character stands for the longest beginning of a character, and for
every byte that begins none.
-/

namespace Agents.Text.Utf8

/-- A character of which some bytes are still owed. -/
structure Pending where
  /-- The bits read so far. -/
  value : Nat
  owed : Nat
  /-- The least and the greatest value of the next byte. -/
  least : Nat := 0x80
  greatest : Nat := 0xBF
deriving DecidableEq, Repr, Inhabited

def replacement : Char := '\uFFFD'

/-- The first byte of a character: what is read by it, and what it begins. -/
def first (b : UInt8) : List Char × Option Pending :=
  let n := b.toNat
  if n < 0x80 then ([Char.ofNat n], none)
  else if n < 0xC2 then ([replacement], none)
  else if n < 0xE0 then ([], some { value := n - 0xC0, owed := 1 })
  else if n = 0xE0 then ([], some { value := 0, owed := 2, least := 0xA0 })
  else if n = 0xED then ([], some { value := n - 0xE0, owed := 2, greatest := 0x9F })
  else if n < 0xF0 then ([], some { value := n - 0xE0, owed := 2 })
  else if n = 0xF0 then ([], some { value := 0, owed := 3, least := 0x90 })
  else if n < 0xF4 then ([], some { value := n - 0xF0, owed := 3 })
  else if n = 0xF4 then ([], some { value := n - 0xF0, owed := 3, greatest := 0x8F })
  else ([replacement], none)

/-- The next byte. One that does not continue the character begins another. -/
def step (begun : Option Pending) (b : UInt8) : List Char × Option Pending :=
  match begun with
  | none => first b
  | some p =>
    if p.least ≤ b.toNat ∧ b.toNat ≤ p.greatest then
      let value := p.value * 64 + b.toNat % 64
      if p.owed ≤ 1 then ([Char.ofNat value], none) else ([], some { value, owed := p.owed - 1 })
    else
      let (read, begun) := first b
      (replacement :: read, begun)

def decodeFrom (begun : Option Pending) : List UInt8 → List Char
  | [] => if begun.isSome then [replacement] else []
  | b :: rest =>
    let (read, begun) := step begun b
    read ++ decodeFrom begun rest

def decode (bytes : List UInt8) : String := String.ofList (decodeFrom none bytes)

end Agents.Text.Utf8
