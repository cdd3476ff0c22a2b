import Agents.Binding
import Agents.Proofs.Json.Ordered

/-! # What bindings stand for

A path leads from a value to a value inside of it, through items of arrays and members of objects
(`Leads`). A literal stands for itself, and a variable for the value that its path leads to, or for
`null` where it leads to none (`Binding.StandsFor`). To resolve a binding is to find what it stands
for (`standsFor_iff`), and a step is given what its bindings stand for (`Bindings.feed_resolve`).
-/

namespace Agents

/-- The path leads from the first value to the second. -/
inductive Leads : Json → List PathStep → Json → Prop
  | here (value : Json) : Leads value [] value
  | item {items : List Json} {i : Nat} {value found : Json} {path : List PathStep} :
      items[i]? = some value → Leads value path found → Leads (.arr items) (.index i :: path) found
  | member {fields : Json.Fields} {key : String} {value found : Json} {path : List PathStep} :
      Json.Fields.get? key fields = some value → Leads value path found →
      Leads (.obj fields) (.key key :: path) found

namespace Binding

variable {vars : Json.Fields} {name : String} {path : List PathStep} {value found : Json}

theorem follow_eq_some_iff : follow path value = some found ↔ Leads value path found := by
  induction path generalizing value with
  | nil =>
    constructor
    · intro h
      cases h
      exact .here _
    · intro h
      cases h
      rfl
  | cons step path ih =>
    have hstep : follow (step :: path) value = (step.find? value).bind (follow path) := rfl
    rw [hstep, Option.bind_eq_some_iff]
    constructor
    · rintro ⟨next, hnext, hrest⟩
      -- a step finds something only in a value of its kind
      match step, value, hnext with
      | .index i, .arr items, hitem => exact .item hitem (ih.mp hrest)
      | .key key, .obj fields, hmember => exact .member hmember (ih.mp hrest)
    · intro h
      cases h with
      | item hitem hrest => exact ⟨_, hitem, ih.mpr hrest⟩
      | member hmember hrest => exact ⟨_, hmember, ih.mpr hrest⟩

/-- What a binding stands for among some variables. -/
inductive StandsFor (vars : Json.Fields) : Binding → Json → Prop
  | literal (value : Json) : StandsFor vars (.literal value) value
  | found {name : String} {path : List PathStep} {root value : Json} :
      Json.Fields.get? name vars = some root → Leads root path value →
      StandsFor vars (.variable name path) value
  | missing {name : String} {path : List PathStep} :
      (¬ ∃ root value, Json.Fields.get? name vars = some root ∧ Leads root path value) →
      StandsFor vars (.variable name path) .null

theorem bind_follow_eq_some_iff :
    (Json.Fields.get? name vars).bind (follow path) = some value ↔
      ∃ root, Json.Fields.get? name vars = some root ∧ Leads root path value := by
  simp only [Option.bind_eq_some_iff, follow_eq_some_iff]

theorem standsFor_iff {b : Binding} : b.StandsFor vars value ↔ value = b.resolve vars := by
  cases b with
  | literal own =>
    constructor
    · intro h
      cases h
      rfl
    · rintro rfl
      exact .literal value
  | «variable» name path =>
    change _ ↔ value = ((Json.Fields.get? name vars).bind (follow path)).getD .null
    cases hfound : (Json.Fields.get? name vars).bind (follow path) with
    | some found =>
      have hthere := bind_follow_eq_some_iff.mp hfound
      constructor
      · intro h
        cases h with
        | found hroot hleads =>
          exact Option.some.inj ((bind_follow_eq_some_iff.mpr ⟨_, hroot, hleads⟩).symm.trans hfound)
        | missing hnone =>
          obtain ⟨root, hroot, hleads⟩ := hthere
          exact absurd ⟨root, found, hroot, hleads⟩ hnone
      · rintro rfl
        obtain ⟨root, hroot, hleads⟩ := hthere
        exact .found hroot hleads
    | none =>
      have hnone :
          ¬ ∃ root value, Json.Fields.get? name vars = some root ∧ Leads root path value := by
        rintro ⟨root, value, hthere⟩
        rw [bind_follow_eq_some_iff.mpr ⟨root, hthere⟩] at hfound
        cases hfound
      constructor
      · intro h
        cases h with
        | found hroot hleads => exact absurd ⟨_, _, hroot, hleads⟩ hnone
        | missing _ => rfl
      · rintro rfl
        exact .missing hnone

end Binding

namespace Bindings

/-- The binding of an input: the last one of this name. -/
def last? (bindings : Bindings) (name : String) : Option Binding :=
  (bindings.filter fun (input, _) => input = name).getLast?.map (·.2)

/-- The bindings feed an object: under the name of each input is what its binding stands for. -/
structure Feed (vars : Json.Fields) (bindings : Bindings) (fields : Json.Fields) : Prop where
  ordered : fields.Ordered
  get?_iff : ∀ name value, Json.Fields.get? name fields = some value ↔
    ∃ b, bindings.last? name = some b ∧ b.StandsFor vars value

theorem feed_resolve (vars : Json.Fields) (bindings : Bindings) :
    bindings.Feed vars (bindings.resolve vars) where
  ordered := Json.Fields.ordered_ofList _
  get?_iff := by
    intro name value
    have hlast : Json.Fields.get? name (bindings.resolve vars) =
        (bindings.last? name).map (Binding.resolve vars) := by
      rw [resolve, Json.Fields.get?_ofList_eq_last?, Json.Fields.last?_eq_getLast?, last?,
        List.filter_map, List.getLast?_map, Option.map_map, Option.map_map]
      rfl
    rw [hlast, Option.map_eq_some_iff]
    refine exists_congr fun b => and_congr_right fun _ => ?_
    rw [Binding.standsFor_iff, eq_comm]

end Bindings

end Agents
