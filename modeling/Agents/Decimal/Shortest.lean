import Agents.Word

/-! # Shortest decimal text of a binary floating-point number

A finite double is `m · 2^q`. The reals that round to it form an interval; `shortest` finds the
decimal `d · 10^k` with the fewest digits inside that interval, and of two such decimals the one
nearer to the number. All arithmetic is exact, on natural numbers.

`Layout` records what differs between the texts that print such a decimal: which exponents are
written positionally, and how an exponent is spelled.
-/

namespace Agents.Decimal

/-- A positive decimal number `digits · 10^exponent`. -/
structure Scaled where
  digits : Nat
  exponent : Int
deriving Repr, DecidableEq, Inhabited

/-- A positive binary number `mantissa · 2^exponent`. -/
structure Binary where
  mantissa : Nat
  exponent : Int
deriving Repr, DecidableEq, Inhabited

/-- The magnitude of a finite double; zero and the subnormals share the least exponent. -/
def magnitude (x : Float) : Binary :=
  let bits := x.toBits.toNat % Word.size 63
  let fraction := bits % Word.size 52
  let biased : Nat := bits / Word.size 52
  if biased = 0 then ⟨fraction, -1074⟩ else ⟨fraction + Word.size 52, (biased : Int) - 1075⟩

/-- Whether the sign bit is set, also for a zero. -/
def isNegative (x : Float) : Bool := Word.size 63 ≤ x.toBits.toNat

/-- Number of decimal digits; one for zero. -/
def digitCount (n : Nat) : Nat := (Nat.toDigits 10 n).length

/-- The quotient `num / den` scaled by `10^k`, as a fraction of natural numbers. -/
def scale (num den : Nat) (k : Int) : Nat × Nat :=
  match k with
  | .ofNat k => (num * Nat.pow 10 k, den)
  | .negSucc k => (num, den * Nat.pow 10 (k + 1))

/-- The interval of reals that round to `m · 2^q`, in units of a quarter of `2^q`:
lower end, the number, upper end, and whether the ends belong to it. Below a power of two the
neighbour is only half as far away. -/
def interval (b : Binary) : Nat × Nat × Nat × Bool :=
  let low := if b.mantissa = Word.size 52 ∧ -1074 < b.exponent then 1 else 2
  (4 * b.mantissa - low, 4 * b.mantissa, 4 * b.mantissa + 2, b.mantissa % 2 = 0)

/-- `2^q / 4` as a fraction. -/
def unit (q : Int) : Nat × Nat :=
  match q - 2 with
  | .ofNat e => (Nat.pow 2 e, 1)
  | .negSucc e => (1, Nat.pow 2 (e + 1))

/-- The point of the grid of multiples of `10^(-k)` that lies in the interval and is nearest to the
number, if one of the number's two neighbours on that grid does. -/
def onGrid? (b : Binary) (k : Int) : Option Nat :=
  let (lo, mid, hi, closed) := interval b
  let (num, den) := unit b.exponent
  let (num, den) := scale num den k
  let inside (d : Nat) : Bool :=
    if closed then lo * num ≤ d * den ∧ d * den ≤ hi * num
    else lo * num < d * den ∧ d * den < hi * num
  let floor := mid * num / den
  let distance (d : Nat) : Nat := (d * den - mid * num) + (mid * num - d * den)
  match inside floor, inside (floor + 1) with
  | true, true =>
    let below := distance floor
    let above := distance (floor + 1)
    some (if below < above ∨ (below = above ∧ floor % 2 = 0) then floor else floor + 1)
  | true, false => some floor
  | false, true => some (floor + 1)
  | false, false => none

/-- Drops trailing zeros, at most `fuel` of them. -/
def strip : Nat → Scaled → Scaled
  | 0, s => s
  | fuel + 1, s =>
    if s.digits % 10 = 0 ∧ s.digits ≠ 0 then strip fuel ⟨s.digits / 10, s.exponent + 1⟩ else s

/-- Tries grids from coarse to fine, starting at `10^(-k)`. -/
def search (b : Binary) : Nat → Int → Scaled
  | 0, k => ⟨(onGrid? b k).getD 0, -k⟩
  | fuel + 1, k =>
    match onGrid? b k with
    | some d => if d = 0 then search b fuel (k + 1) else ⟨d, -k⟩
    | none => search b fuel (k + 1)

/-- The shortest decimal that reads back as the magnitude of `x`, without trailing zeros. -/
def shortest (x : Float) : Scaled :=
  let b := magnitude x
  if b.mantissa = 0 then ⟨0, 0⟩
  else
    -- the number has about `log10 (m · 2^q)` digits before its point; start one place above
    let bitLength : Int := (b.mantissa.log2 : Int) + b.exponent
    let top : Int := bitLength * 30103 / 100000 + 1
    strip 20 (search b 20 (-top))

structure Layout where
  /-- Positional notation is used while the exponent of the leading digit is at least this … -/
  least : Int
  /-- … and below this. -/
  limit : Int
  /-- Text written between a mantissa and a positive exponent. -/
  plus : String
  /-- A whole number in positional notation gets a `.0`. -/
  pointZero : Bool
  /-- Text of a zero without its sign. -/
  zero : String
  /-- Whether a zero keeps its sign. -/
  signedZero : Bool

/-- Positional notation at every size, without a point when the number is whole. -/
def Layout.plain : Layout where
  least := -400
  limit := 400
  plus := ""
  pointZero := false
  zero := "0"
  signedZero := true

/-- The digits of `n`, at least `width` of them. -/
def padded (width n : Nat) : List Char :=
  let digits := Nat.toDigits 10 n
  List.replicate (width - digits.length) '0' ++ digits

/-- Positional notation of `digits · 10^exponent`. -/
def positional (layout : Layout) (s : Scaled) : List Char :=
  match s.exponent with
  | .ofNat e =>
    Nat.toDigits 10 (s.digits * Nat.pow 10 e) ++ (if layout.pointZero then ['.', '0'] else [])
  | .negSucc e =>
    let digits := padded (e + 2) s.digits
    digits.take (digits.length - (e + 1)) ++ '.' :: digits.drop (digits.length - (e + 1))

/-- Scientific notation: one digit, the others after a point, and the exponent of the first. -/
def scientific (layout : Layout) (s : Scaled) : List Char :=
  let digits := Nat.toDigits 10 s.digits
  let exponent := s.exponent + (digits.length - 1 : Nat)
  let mantissa := match digits with
    | [] => []
    | [d] => [d]
    | d :: rest => d :: '.' :: rest
  let tail := match exponent with
    | .ofNat e => 'e' :: layout.plus.toList ++ Nat.toDigits 10 e
    | .negSucc e => 'e' :: '-' :: Nat.toDigits 10 (e + 1)
  mantissa ++ tail

def Layout.text (layout : Layout) (x : Float) : String :=
  let s := shortest x
  if s.digits = 0 then
    if layout.signedZero && isNegative x then "-" ++ layout.zero else layout.zero
  else
    let leading := s.exponent + (digitCount s.digits - 1 : Nat)
    let body :=
      if layout.least ≤ leading ∧ leading < layout.limit then positional layout s
      else scientific layout s
    String.ofList (if isNegative x then '-' :: body else body)

end Agents.Decimal
