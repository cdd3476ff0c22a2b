import Agents.Decimal.Shortest
import Agents.Json.Basic

/-! # Numbers by their value

Schemas compare numbers by value, whether they are integers or doubles. Comparisons are exact;
equality between an integer and a double is decided on doubles.
-/

namespace Agents.Json.Number

def toFloat : Number → Float
  | .int n => Float.ofInt n
  | .float x => x

/-- A finite double as an exact fraction of an integer and a power of two. -/
def fraction (x : Float) : Int × Nat :=
  let b := Decimal.magnitude x
  let sign : Int := if Decimal.isNegative x then -1 else 1
  match b.exponent with
  | .ofNat e => (sign * (b.mantissa <<< e : Nat), 1)
  | .negSucc e => (sign * b.mantissa, 1 <<< (e + 1))

/-- The exact value as a fraction with a positive denominator. -/
def exact : Number → Int × Nat
  | .int n => (n, 1)
  | .float x => fraction x

/-- Exact order. -/
def lt (a b : Number) : Bool :=
  let (p, q) := a.exact
  let (r, s) := b.exact
  p * s < r * q

/-- Equality by value. -/
def same : Number → Number → Bool
  | .int a, .int b => a == b
  | a, b => a.toFloat == b.toFloat

def isWhole : Number → Bool
  | .int _ => true
  | .float x => x.floor == x

/-- The natural number that this is, also for a whole double. -/
def toNat? (n : Number) : Option Nat :=
  let (p, q) := n.exact
  if 0 ≤ p ∧ p % q = 0 then some (p / q).toNat else none

/-- Whether a number is a whole multiple of a positive divisor. By a whole divisor the test is
exact; otherwise the fraction of the rounded quotient has to vanish, up to rounding, and only a
quotient beyond the range of doubles is decided exactly. -/
def isMultipleOf (n divisor : Number) : Bool :=
  let x := n.toFloat
  let d := divisor.toFloat
  let exactly : Bool :=
    let (p, q) := fraction x
    let (r, s) := fraction d
    (p * s) % (q * r) = 0
  if d.floor == d then x.floor == x && exactly
  else
    let quotient := x / d
    if quotient.isFinite then
      let whole := if quotient < 0 then quotient.ceil else quotient.floor
      quotient - whole < 2.220446049250313e-16
    else exactly

end Agents.Json.Number
