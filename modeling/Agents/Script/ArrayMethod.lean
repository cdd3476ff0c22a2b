import Agents.Script.Builtin
import Agents.Script.State

/-! # Methods that call a function for every item

`visit` calls the function for an item and its position; it gives the result and what the item has
become. All methods go through the items from the first to the last. Some of them also take the name
of the function instead.
-/

namespace Agents.Script.ArrayMethod

variable {granted : CapabilitySet}

abbrev Visit (granted : CapabilitySet) := Value → Nat → Eval granted (Value × Value)

def isTrue : Value → Bool
  | .bool b => b
  | _ => false

def takingNames : List String :=
  ["map", "filter", "some", "all", "reduce", "reduce_rev", "retain", "drain", "sort", "dedup"]

/-- The receiver and the arguments of a method, with the function where its name may stand. -/
def withFunction (name : String) : List Value → List Value
  | .array items :: .string f :: rest =>
    .array items :: (if takingNames.contains name then .function f [] none else .string f) :: rest
  | values => values

/-- The results of a function, and what the items have become. -/
def visitAll (visit : Visit granted) (items : List Value) : Eval granted (List (Value × Value)) :=
  items.zipIdx.mapM fun (item, i) => visit item i

/-- The first item that gives a result the test accepts, with its position and that result. -/
def first? (visit : Visit granted) (test : Value → Bool) :
    List (Value × Nat) → Eval granted (Option (Value × Nat × Value))
  | [] => pure none
  | (item, i) :: rest => do
    let (result, _) ← visit item i
    if test result then return some (item, i, result) else first? visit test rest

def partition (visit : Visit granted) (items : List Value) :
    Eval granted (List Value × List Value) := do
  let results ← visitAll visit items
  let (yes, no) := (items.zip results).partition fun (_, result, _) => isTrue result
  return (yes.map (·.1), no.map (·.1))

/-- Puts an item among items in descending order, in front of those that are not greater. -/
def insertBy (order : Value → Value → Eval granted Ordering) (item : Value) :
    List Value → Eval granted (List Value)
  | [] => pure [item]
  | v :: rest => do
    match ← order item v with
    | .lt => return v :: (← insertBy order item rest)
    | _ => return item :: v :: rest

/-- Sorts by a function that gives a number, or anything else for items to leave as they are. -/
def sortBy (order : Value → Value → Eval granted Ordering) (items : List Value) :
    Eval granted (List Value) := do
  let sorted ← items.foldlM (fun sorted item => insertBy order item sorted) []
  return sorted.reverse

def orderOf : Value → Ordering
  | .int n => compare n 0
  | .bool true => .lt
  | .bool false => .gt
  | _ => .eq

/-- The items after one that is kept, and that item, without those that are the same as the last one
that is kept before them. -/
def dedupBy (same : Value → Value → Eval granted Bool) (kept : Value) :
    List Value → Eval granted (List Value)
  | [] => pure [kept]
  | v :: rest => do
    if ← same kept v then dedupBy same kept rest else return kept :: (← dedupBy same v rest)

/-- A method on an array and a function, if there is one. The function is called for an item
(`visit`), for a result and an item (`fold`), or for two items (`compare`), where it may fail to
give anything. -/
def run? (name : String) (items : List Value) (visit : Visit granted)
    (fold : Value → Value → Nat → Eval granted Value)
    (compare : Value → Value → Eval granted (Option Value)) (rest : List Value) :
    Option (Eval granted Effect) :=
  let give (v : Value) : Eval granted Effect := return ⟨v, none⟩
  let all := items.zipIdx
  match name, rest with
  | "map", [] => some do give (.array ((← visitAll visit items).map (·.1)))
  | "filter", [] => some do give (.array (← partition visit items).1)
  | "for_each", [] => some do
    return ⟨.unit, some (.array ((← visitAll visit items).map (·.2)))⟩
  | "some", [] => some do give (.bool (← first? visit isTrue all).isSome)
  | "all", [] => some do give (.bool (← first? visit (!isTrue ·) all).isNone)
  | "none", [] => some do give (.bool (← first? visit isTrue all).isNone)
  | "find", [] => some do give ((← first? visit isTrue all).elim .unit (·.1))
  | "find_index", [] | "index_of", [] => some do
    give (.int ((← first? visit isTrue all).elim (-1) fun (_, i, _) => i))
  | "find_map", [] => some do
    give ((← first? visit (fun v => v.typeName ≠ "()") all).elim .unit (·.2.2))
  | "retain", [] => some do
    let (yes, no) ← partition visit items
    return ⟨.array no, some (.array yes)⟩
  | "drain", [] => some do
    let (yes, no) ← partition visit items
    return ⟨.array yes, some (.array no)⟩
  | "reduce", [] => some do give (← all.foldlM (fun a (v, i) => fold a v i) .unit)
  | "reduce", [start] => some do give (← all.foldlM (fun a (v, i) => fold a v i) start)
  | "reduce_rev", [] => some do
    give (← all.reverse.foldlM (fun a (v, i) => fold a v i) .unit)
  | "reduce_rev", [start] => some do
    give (← all.reverse.foldlM (fun a (v, i) => fold a v i) start)
  | "sort", [] => some do
    let order (a b : Value) := (·.elim .eq orderOf) <$> compare a b
    return ⟨.unit, some (.array (← sortBy order items))⟩
  | "dedup", [] => some do
    let same (a b : Value) := (·.any isTrue) <$> compare a b
    match items with
    | [] => return ⟨.unit, some (.array [])⟩
    | first :: others => return ⟨.unit, some (.array (← dedupBy same first others))⟩
  | _, _ => none

end Agents.Script.ArrayMethod
