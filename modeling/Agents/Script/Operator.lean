import Agents.Script.Fault
import Agents.Text.Utf8
import Agents.Word

/-! # Operators

Integers have 64 bits and overflow is a fault; an integer beside a double counts as a double.
Strings are joined with the text of anything; the text of a blob is what its bytes say. Values of
different types are neither equal nor ordered, except that integers and doubles, and strings and
characters, are compared.

`result?` gives nothing for operands that the operator is not defined on.
-/

namespace Agents.Script

def inRange (n : Int) : Bool := -(Word.size 63 : Int) ≤ n && n < Word.size 63

namespace Operator

/-! ## Integers -/

/-- The result of an operation that must not overflow. -/
def checked (what symbol : String) (a b n : Int) : Except Fault Value :=
  if inRange n then .ok (.int n)
  else
    .error (.arithmetic (what ++ " overflow: " ++ toString a ++ " " ++ symbol ++ " " ++ toString b))

def divideInt (a b : Int) : Except Fault Value :=
  if b = 0 then .error (.arithmetic ("Division by zero: " ++ toString a ++ " / " ++ toString b))
  else checked "Division" "/" a b (Int.tdiv a b)

def moduloInt (a b : Int) : Except Fault Value :=
  if b = 0 ∨ (b = -1 ∧ a = -(Word.size 63 : Int)) then
    .error (.arithmetic
      ("Modulo division by zero or overflow: " ++ toString a ++ " % " ++ toString b))
  else .ok (.int (Int.tmod a b))

/-- A power with an exponent so large that it could only overflow is not computed. -/
def powerInt (a b : Int) : Except Fault Value :=
  let overflow : Except Fault Value :=
    .error (.arithmetic ("Exponential overflow: " ++ toString a ++ " ** " ++ toString b))
  if b < 0 then
    .error (.arithmetic
      ("Integer raised to a negative power: " ++ toString a ++ " ** " ++ toString b))
  else if Word.size 32 ≤ b then overflow
  else if a.natAbs ≤ 1 then
    .ok (.int (if a = -1 ∧ b % 2 = 1 then -1 else if b = 0 then 1 else a * a))
  else if 64 ≤ b then overflow
  else
    let n := Int.pow a b.toNat
    if inRange n then .ok (.int n) else overflow

/-- The integer with the low 64 bits of a number. -/
def wrap (n : Int) : Int := (n + Word.size 63) % Word.size 64 - Word.size 63

/-- Shifts to the left, or to the right by a negative distance. -/
def shiftInt (a b : Int) : Int :=
  if 0 ≤ b then if 64 ≤ b then 0 else wrap (a * Nat.pow 2 b.toNat)
  else if b ≤ -64 then (if a < 0 then -1 else 0) else a / Nat.pow 2 (-b).toNat

def bits (n : Int) : Nat := (n % Word.size 64).toNat

def ofBits (n : Nat) : Int := wrap n

/-! ## Doubles -/

/-- The remainder of a division that truncates. -/
def remainder (x y : Float) : Float :=
  if x.isInf || x.isNaN || y.isNaN || y == 0 then 0.0 / 0.0
  else if y.isInf then x
  else
    -- both are multiples of one power of two, so the remainder is exact
    let a := Decimal.magnitude x
    let b := Decimal.magnitude y
    let e := min a.exponent b.exponent
    let m := (a.mantissa <<< (a.exponent - e).toNat) % (b.mantissa <<< (b.exponent - e).toNat)
    let r := Float.scaleB (Float.ofNat m) e
    if Decimal.isNegative x then -r else r

/-! ## All values -/

def asFloat? : Value → Option Float
  | .int n => some (Float.ofInt n)
  | .float x => some x
  | _ => none

def asText? : Value → Option String
  | .string s => some s
  | .char c => some (toString c)
  | _ => none

mutual

/-- Equality of values; nothing for two of one type that has none. -/
def same? : Value → Value → Option Bool
  | .unit, .unit => some true
  | .bool a, .bool b => some (a == b)
  | .int a, .int b => some (a == b)
  | .char a, .char b => some (a == b)
  | .string a, .string b => some (a == b)
  | .blob a, .blob b => some (a == b)
  | .range a b i, .range c d j => some (a == c && b == d && i == j)
  | .array as, .array bs => if as.length = bs.length then sameItems? as bs else some false
  | .object as, .object bs => if as.length = bs.length then sameMembers? as bs else some false
  | .function .., .function .. | .stream _, .stream _ => none
  | a, b =>
    match asFloat? a, asFloat? b with
    | some x, some y => some (x == y)
    | _, _ =>
      match asText? a, asText? b with
      | some s, some t => some (s == t)
      | _, _ => some false

def sameItems? : List Value → List Value → Option Bool
  | a :: as, b :: bs =>
    match same? a b with
    | some true => sameItems? as bs
    | other => other
  | _, _ => some true

def sameMembers? : List (String × Value) → List (String × Value) → Option Bool
  | (k, a) :: as, (l, b) :: bs =>
    if k ≠ l then some false
    else match same? a b with
      | some true => sameMembers? as bs
      | other => other
  | _, _ => some true

end

/-- The order of two values; nothing for two of one type that has none, and `some none` for two
that are not ordered. -/
def order? (a b : Value) : Option (Option Ordering) :=
  match a, b with
  | .int m, .int n => some (some (compare m n))
  | .bool p, .bool q => some (some (compare p.toNat q.toNat))
  | .unit, .unit => some (some .eq)
  | .array _, .array _ | .object _, .object _ | .blob _, .blob _ | .function .., .function ..
  | .stream _, .stream _ | .range .., .range .. => none
  | a, b =>
    match asFloat? a, asFloat? b with
    | some x, some y =>
      some (if x < y then some .lt
        else if y < x then some .gt
        else if x == y then some .eq
        else none)
    | _, _ =>
      match asText? a, asText? b with
      | some s, some t => some (some (compare s t))
      | _, _ => some none

def compare? (op : BinaryOp) (a b : Value) : Option Bool :=
  let ordered (test : Ordering → Bool) : Option Bool := (order? a b).map fun o => o.any test
  match op with
  | .equal => same? a b
  | .notEqual => (same? a b).map (!·)
  | .less => ordered (·.isLT)
  | .lessEqual => ordered (·.isLE)
  | .greater => ordered (·.isGT)
  | .greaterEqual => ordered (·.isGE)
  | _ => none

def onInts (op : BinaryOp) (a b : Int) : Option (Except Fault Value) :=
  match op with
  | .add => some (checked "Addition" "+" a b (a + b))
  | .subtract => some (checked "Subtraction" "-" a b (a - b))
  | .multiply => some (checked "Multiplication" "*" a b (a * b))
  | .divide => some (divideInt a b)
  | .modulo => some (moduloInt a b)
  | .power => some (powerInt a b)
  | .shiftLeft => some (.ok (.int (shiftInt a b)))
  | .shiftRight => some (.ok (.int (shiftInt a (-b))))
  | .bitAnd => some (.ok (.int (ofBits (bits a &&& bits b))))
  | .bitOr => some (.ok (.int (ofBits (bits a ||| bits b))))
  | .bitXor => some (.ok (.int (ofBits (bits a ^^^ bits b))))
  | .range => some (.ok (.range a b false))
  | .rangeInclusive => some (.ok (.range a b true))
  | _ => none

def onFloats (op : BinaryOp) (x y : Float) : Option Value :=
  match op with
  | .add => some (.float (x + y))
  | .subtract => some (.float (x - y))
  | .multiply => some (.float (x * y))
  | .divide => some (.float (x / y))
  | .modulo => some (.float (remainder x y))
  | .power => some (.float (x.pow y))
  | _ => none

def onBools (op : BinaryOp) (a b : Bool) : Option Value :=
  match op with
  | .bitAnd => some (.bool (a && b))
  | .bitOr => some (.bool (a || b))
  | .bitXor => some (.bool (a != b))
  | _ => none

/-- The text of a value that is joined to a string. -/
def joinedText : Value → String
  | .blob bytes => Text.Utf8.decode bytes
  | v => v.text

def join? (a b : Value) : Option Value :=
  match a, b with
  | .array as, .array bs => some (.array (as ++ bs))
  | .object as, .object bs =>
    some (.object (bs.foldl (fun ms (k, v) => Value.Members.insert k v ms) as))
  | .blob as, .blob bs => some (.blob (as ++ bs))
  | .string s, b => some (.string (s ++ joinedText b))
  | a, .string t => some (.string (joinedText a ++ t))
  | .char c, .char d => some (.string (String.ofList [c, d]))
  | _, _ => none

def result? (op : BinaryOp) (a b : Value) : Option (Except Fault Value) :=
  if op.isComparison then (compare? op a b).map fun result => .ok (.bool result)
  else match a, b with
    | .int m, .int n => onInts op m n
    | .bool p, .bool q => (onBools op p q).map .ok
    | a, b =>
      match asFloat? a, asFloat? b with
      | some x, some y => (onFloats op x y).map .ok
      | _, _ => if op = .add then (join? a b).map .ok else none

def unaryResult? (op : UnaryOp) (v : Value) : Option (Except Fault Value) :=
  match op, v with
  | .negate, .int n =>
    some (if inRange (-n) then .ok (.int (-n))
      else .error (.arithmetic ("Negation overflow: -" ++ toString n)))
  | .negate, .float x => some (.ok (.float (-x)))
  | .plus, .int n => some (.ok (.int n))
  | .plus, .float x => some (.ok (.float x))
  | .not, .bool b => some (.ok (.bool (!b)))
  | _, _ => none

/-- A binary operator on operands of any type. -/
def apply (op : BinaryOp) (a b : Value) : Except Fault Value :=
  (result? op a b).getD (.error (.functionNotFound (Value.signature op.symbol [a, b])))

def applyUnary (op : UnaryOp) (v : Value) : Except Fault Value :=
  (unaryResult? op v).getD (.error (.functionNotFound (Value.signature op.symbol [v])))

end Operator

end Agents.Script
