import Agents.Script.Operator

/-! # Parts of values

A property or an index names a part of a value. Negative positions count from the end. A missing
member of a map reads as `()` and is added when it is written.

A `Step` is a part that exists; a path of them leads from a variable to what a method works on.
-/

namespace Agents.Script

inductive Step where
  | member (key : String)
  | item (index : Nat)

namespace Value

/-- The position that an index names among `size` ones. -/
def position? (size : Nat) (index : Int) : Option Nat :=
  let i := if index < 0 then size + index else index
  if 0 ≤ i ∧ i < size then some i.toNat else none

/-- Writes a part that exists. -/
def setStep (v : Value) (step : Step) (part : Value) : Value :=
  match v, step with
  | .object members, .member key => .object (Members.insert key part members)
  | .array items, .item i => .array (items.set i part)
  | v, _ => v

def getStep? (v : Value) (step : Step) : Option Value :=
  match v, step with
  | .object members, .member key => Members.get? key members
  | .array items, .item i => items[i]?
  | _, _ => none

def setPath (v : Value) (path : List Step) (part : Value) : Value :=
  match path with
  | [] => part
  | step :: rest => v.setStep step (((v.getStep? step).getD .unit).setPath rest part)

/-! ## Reading -/

/-- The part that an index names, and where it is if it can be changed in place. -/
def getIndex (v index : Value) : Except Fault (Value × Option Step) :=
  match v, index with
  | .array items, .int i =>
    match (position? items.length i).bind fun p => items[p]?.map (·, p) with
    | some (item, p) => .ok (item, some (.item p))
    | none => .error (.arrayBounds items.length i)
  | .array _, i => .error (.mismatch "i64" i.typeName)
  | .blob bytes, .int i =>
    match (position? bytes.length i).bind (bytes[·]?) with
    | some b => .ok (.int b.toNat, none)
    | none => .error (.arrayBounds bytes.length i)
  | .blob _, i => .error (.mismatch "i64" i.typeName)
  | .object members, .string key =>
    match Members.get? key members with
    | some part => .ok (part, some (.member key))
    | none => .ok (.unit, none)
  | .object _, i => .error (.mismatch "string" i.typeName)
  | .string s, .int i =>
    match (position? s.length i).bind (s.toList[·]?) with
    | some c => .ok (.char c, none)
    | none => .error (.stringBounds s.length i)
  | .string s, .range first last inclusive =>
    let start := (max first 0).toNat
    let stop := (if inclusive then last + 1 else last).toNat
    .ok (.string (String.ofList ((s.toList.take stop).drop start)), none)
  | .string _, i => .error (.mismatch "i64" i.typeName)
  | .int n, .int i =>
    match position? 64 i with
    | some p => .ok (.bool ((Operator.bits n >>> p) % 2 == 1), none)
    | none => .error (.bitBounds i)
  | .int _, i => .error (.mismatch "i64" i.typeName)
  | v, i => .error (.notIndexable (v.typeName ++ " [" ++ i.typeName ++ "]"))

/-! ## Writing -/

def setIndex (v index part : Value) : Except Fault Value :=
  match v, index with
  | .object members, .string key => .ok (.object (Members.insert key part members))
  | .blob bytes, .int i =>
    match position? bytes.length i, part with
    | some p, .int n => .ok (.blob (bytes.set p (UInt8.ofNat (n % 256).toNat)))
    | some _, part => .error (.mismatch "i64" part.typeName)
    | none, _ => .error (.arrayBounds bytes.length i)
  | .string s, .int i =>
    match position? s.length i, part with
    | some p, .char c => .ok (.string (String.ofList (s.toList.set p c)))
    | some _, part => .error (.mismatch "char" part.typeName)
    | none, _ => .error (.stringBounds s.length i)
  | .int n, .int i =>
    match position? 64 i, part with
    | some p, .bool b =>
      let others := Operator.bits n - (if (Operator.bits n >>> p) % 2 = 1 then 1 <<< p else 0)
      .ok (.int (Operator.ofBits (if b then others + 1 <<< p else others)))
    | some _, part => .error (.mismatch "bool" part.typeName)
    | none, _ => .error (.bitBounds i)
  | v, index =>
    match getIndex v index with
    | .ok (_, some step) => .ok (v.setStep step part)
    | .ok (_, none) => .ok v
    | .error f => .error f

end Value

end Agents.Script
