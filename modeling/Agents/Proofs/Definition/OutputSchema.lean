import Agents.Proofs.Json.Ordered
import Agents.Verify.Report

/-! # What the schemas of an output say

The declared outputs of a definition describe a set of objects: those that have the outputs that are
not optional, and whose outputs are of their declared types. The three schemas of the definition are
read by the same checker, and each accepts just such a set (`OutputSchema.schemas_describe`):

- The schema of some outputs can always be read if their names differ, and then consists of three
  demands (`OutputSchema.ofJson_object`).
- A value meets these demands if it is as the outputs are declared
  (`OutputSchema.structuralFailures_object`). Full, partial and structured schema differ only in
  which outputs they are about and which of these they demand, so what one of them accepts follows
  for the others from the declarations (`Declared.mono`).
-/

namespace Agents

open Json (Fields)

/-! ## Declarations -/

/-- The value is of the declared type. A whole double is an integer, and an image is its address or
an object that describes it. -/
def ValueType.Holds : ValueType → Json → Prop
  | .string, v => ∃ s, v = .str s
  | .number, v => ∃ n, v = .num n
  | .integer, v => (∃ i, v = .num (.int i)) ∨ ∃ x, v = .num (.float x) ∧ (x.floor == x) = true
  | .boolean, v => ∃ b, v = .bool b
  | .object, v => ∃ fields, v = .obj fields
  | .array, v => ∃ items, v = .arr items
  | .image, v => (∃ s, v = .str s) ∨ ∃ fields, v = .obj fields
  | .any, _ => True

/-- The members are as these outputs are declared: those that are needed are there, and those that
are there are of their types. -/
structure Declared (outputs : List OutputDecl) (isNeeded : OutputDecl → Bool) (fields : Fields) :
    Prop where
  present : ∀ o ∈ outputs, isNeeded o = true → ∃ x, Fields.get? o.name fields = some x
  typed : ∀ o ∈ outputs, ∀ x, Fields.get? o.name fields = some x → o.type.Holds x

/-- With fewer outputs, or fewer of them needed, more objects are as they are declared. -/
theorem Declared.mono {outputs outputs' : List OutputDecl} {isNeeded isNeeded' : OutputDecl → Bool}
    {fields : Fields} (h : Declared outputs isNeeded fields) (houtputs : outputs' ⊆ outputs)
    (hneeded : ∀ o ∈ outputs', isNeeded' o = true → isNeeded o = true) :
    Declared outputs' isNeeded' fields where
  present o ho hneed := h.present o (houtputs ho) (hneeded o ho hneed)
  typed o ho := h.typed o (houtputs ho)

namespace Schema

/-! ## Types -/

/-- The types that a schema has for a declared type; nothing if any value will do. -/
def primitives : ValueType → Option (List PrimitiveType)
  | .string => some [.string]
  | .number => some [.number]
  | .integer => some [.integer]
  | .boolean => some [.boolean]
  | .object => some [.object]
  | .array => some [.array]
  | .image => some [.string, .object]
  | .any => none

def ofType (type : ValueType) : Schema := .all ((primitives type).map Keyword.types).toList

theorem demand_eq_nil {met : Bool} {path : List PathStep} {v : Json} {d : Demand} :
    demand met path v d = [] ↔ met = true := by
  cases met <;> simp [demand]

theorem check_all {path : List PathStep} {v : Json} {keywords : List Keyword} :
    check path v (.all keywords) = [] ↔ ∀ k ∈ keywords, checkKeyword path v k = [] := by
  rw [check]
  induction keywords with
  | nil => simp [checkKeywords]
  | cons k rest ih => rw [checkKeywords, List.append_eq_nil_iff, ih, List.forall_mem_cons]

theorem check_types {path : List PathStep} {v : Json} {ts : List PrimitiveType} :
    checkKeyword path v (.types ts) = [] ↔ ∃ t ∈ ts, t.admits v = true := by
  rw [checkKeyword, demand_eq_nil, List.any_eq_true]

theorem check_ofType (path : List PathStep) (v : Json) (type : ValueType) :
    check path v (ofType type) = [] ↔ type.Holds v := by
  rw [ofType, check_all]
  cases type with
  | any => simp [primitives, ValueType.Holds]
  | integer =>
    rcases v with _ | _ | (_ | _) | _ | _ | _ <;>
      simp [primitives, check_types, ValueType.Holds, PrimitiveType.admits, Json.Number.isWhole]
  | _ =>
    cases v <;> simp [primitives, check_types, ValueType.Holds, PrimitiveType.admits]

/-! ## Members -/

/-- Members whose schemas can be read can be read together, and are checked one by one. -/
theorem exists_ofMembers {members : List (String × Json)}
    (h : ∀ m ∈ members, ∃ schema, ofJson m.2 = .ok schema) :
    ∃ known, ofMembers members = .ok known ∧ ∀ path fields,
      checkKnown path fields known = [] ↔
        ∀ m ∈ members, ∀ schema, ofJson m.2 = .ok schema →
          ∀ x, Fields.get? m.1 fields = some x → check (path ++ [.key m.1]) x schema = [] := by
  induction members with
  | nil => exact ⟨[], rfl, fun path fields => by simp [checkKnown]⟩
  | cons member rest ih =>
    obtain ⟨name, json⟩ := member
    obtain ⟨⟨schema, hschema⟩, hrest⟩ := List.forall_mem_cons.mp h
    obtain ⟨known, hknown, hcheck⟩ := ih hrest
    refine ⟨(name, schema) :: known, ?_, fun path fields => ?_⟩
    · simp only [ofMembers, hschema, hknown]
      rfl
    · rw [checkKnown, List.append_eq_nil_iff, hcheck, List.forall_mem_cons]
      refine and_congr_left' ?_
      simp only [hschema, Except.ok.injEq, forall_eq']
      cases Fields.get? name fields with
      | none => simp
      | some x => simp

theorem same_str (s s' : String) : same (.str s) (.str s') = (s == s') := rfl

theorem allDistinct_strings {names : List String} (h : names.Nodup) :
    allDistinct (names.map Json.str) = true := by
  induction names with
  | nil => rfl
  | cons name rest ih =>
    obtain ⟨hname, hrest⟩ := List.nodup_cons.mp h
    rw [List.map_cons, allDistinct, ih hrest, Bool.and_true, Bool.not_eq_true', List.any_eq_false]
    intro item hitem
    obtain ⟨other, hother, rfl⟩ := List.mem_map.mp hitem
    rw [same_str, beq_iff_eq]
    rintro rfl
    exact hname hother

theorem required_strings {names : List String} (h : names.Nodup) :
    Entry.required (.arr (names.map Json.str)) = .assertion (.required names) := by
  have hstrings : (names.map Json.str).find? (fun item => item.str?.isNone) = none := by
    simp [Json.str?]
  have hnames : (names.map Json.str).filterMap Json.str? = names := by
    simp [List.filterMap_map, Function.comp_def, Json.str?]
  rw [Entry.required]
  simp only [hstrings, allDistinct_strings h, if_true, hnames]

theorem check_required (path : List PathStep) (fields : Fields) (names : List String) :
    checkKeyword path (.obj fields) (.required names) = [] ↔
      ∀ name ∈ names, ∃ x, Fields.get? name fields = some x := by
  simp only [checkKeyword, List.flatMap_eq_nil_iff, demand_eq_nil, Option.isSome_iff_exists]

end Schema

/-! ## Schemas of outputs -/

namespace OutputSchema

open Schema

theorem ofJson_property (o : OutputDecl) : Schema.ofJson (property o) = .ok (ofType o.type) := by
  obtain ⟨name, type, isOptional, streamingText, description⟩ := o
  cases description <;> cases type <;> rfl

def demanded (outputs : List OutputDecl) (demanding : Bool) : List String :=
  if demanding then (outputs.filter (!·.isOptional)).map (·.name) else []

theorem object_eq (outputs : List OutputDecl) (demanding : Bool) : object outputs demanding =
    .obj (("properties", .ofMembers (outputs.map fun o => (o.name, property o))) ::
      (if demanded outputs demanding = [] then []
        else [("required", .arr ((demanded outputs demanding).map Json.str))]) ++
      [("type", .str "object")]) := by
  have hnames : (if demanding then
      (outputs.filter (!·.isOptional)).map fun o => Json.str o.name else []) =
      (demanded outputs demanding).map Json.str := by
    cases demanding <;> simp [demanded]
  unfold object
  simp only [hnames, List.isEmpty_map, List.isEmpty_iff]
  split_ifs <;> rfl

/-- The members of the schema: one for each output, if their names differ. -/
theorem mem_properties {outputs : List OutputDecl} (hnames : (outputs.map (·.name)).Nodup)
    {member : String × Json} :
    member ∈ Fields.ofList (outputs.map fun o => (o.name, property o)) ↔
      ∃ o ∈ outputs, (o.name, property o) = member := by
  constructor
  · intro h
    exact List.mem_map.mp (Fields.mem_of_mem_ofList h)
  · rintro ⟨o, ho, rfl⟩
    refine Fields.mem_of_get? (Fields.get?_ofList ?_ (List.mem_map_of_mem ho))
    rwa [List.map_map]

/-- The schema can be read if the names differ: its members are of their types, those that are
demanded are there, and the value is an object. -/
theorem ofJson_object {outputs : List OutputDecl} (hnames : (outputs.map (·.name)).Nodup)
    (demanding : Bool) : ∃ known,
    Schema.ofJson (object outputs demanding) = .ok (.all (.properties known ::
      (if demanded outputs demanding = [] then [] else [.required (demanded outputs demanding)]) ++
        [.types [.object]])) ∧
    ∀ path fields, checkKnown path fields known = [] ↔
      ∀ o ∈ outputs, ∀ x, Fields.get? o.name fields = some x → o.type.Holds x := by
  have hdistinct : (demanded outputs demanding).Nodup := by
    unfold demanded
    split_ifs
    · exact hnames.sublist (List.filter_sublist.map _)
    · exact List.nodup_nil
  have hread : ∀ m ∈ Fields.ofList (outputs.map fun o => (o.name, property o)),
      ∃ schema, Schema.ofJson m.2 = .ok schema := by
    intro m hm
    obtain ⟨o, -, rfl⟩ := (mem_properties hnames).mp hm
    exact ⟨_, ofJson_property o⟩
  obtain ⟨known, hknown, hcheck⟩ := exists_ofMembers hread
  refine ⟨known, ?_, fun path fields => (hcheck path fields).trans ?_⟩
  · rw [object_eq, Json.ofMembers]
    split_ifs
    · simp only [List.cons_append, List.nil_append, Schema.ofJson, entriesOf, hknown]
      rfl
    · simp only [List.cons_append, List.nil_append, Schema.ofJson, entriesOf, hknown,
        Entry.ofAssertion, required_strings hdistinct]
      rfl
  · simp only [mem_properties hnames, forall_exists_index, and_imp]
    constructor
    · intro h o ho x hx
      exact (check_ofType _ x o.type).mp (h _ o ho rfl _ (ofJson_property o) x hx)
    · rintro h _ o ho rfl schema hschema x hx
      cases (ofJson_property o).symm.trans hschema
      exact (check_ofType _ x o.type).mpr (h o ho x hx)

theorem mem_demanded {outputs : List OutputDecl} {demanding : Bool} {name : String} :
    name ∈ demanded outputs demanding ↔
      ∃ o ∈ outputs, (demanding && !o.isOptional) = true ∧ o.name = name := by
  cases demanding <;> simp [demanded, and_assoc]

theorem structuralFailures_eq_nil_iff {v document : Json} {schema : Schema}
    (hnull : document.isNull = false) (hread : Schema.ofJson document = .ok schema) :
    Verifier.structuralFailures v document = [] ↔ schema.violations v = [] := by
  simp [Verifier.structuralFailures, hnull, hread]

/-- Just the objects are accepted that are as the outputs are declared. -/
theorem structuralFailures_object {outputs : List OutputDecl}
    (hnames : (outputs.map (·.name)).Nodup) (demanding : Bool) (v : Json) :
    Verifier.structuralFailures v (object outputs demanding) = [] ↔
      ∃ fields, v = .obj fields ∧
        Declared outputs (fun o => demanding && !o.isOptional) fields := by
  obtain ⟨known, hread, hknown⟩ := ofJson_object hnames demanding
  rw [structuralFailures_eq_nil_iff rfl hread, violations, check_all]
  constructor
  · intro h
    obtain ⟨hmembers, hrest⟩ := List.forall_mem_cons.mp h
    obtain ⟨hrequired, hobject⟩ := List.forall_mem_append.mp hrest
    obtain ⟨t, ht, hadmits⟩ := check_types.mp (hobject _ List.mem_cons_self)
    obtain rfl := List.mem_singleton.mp ht
    cases v with
    | obj fields =>
      refine ⟨fields, rfl, fun o ho hneeded => ?_, (hknown [] fields).mp hmembers⟩
      have hname : o.name ∈ demanded outputs demanding := mem_demanded.mpr ⟨o, ho, hneeded, rfl⟩
      rw [if_neg (List.ne_nil_of_mem hname)] at hrequired
      exact (check_required [] fields _).mp (hrequired _ List.mem_cons_self) _ hname
    | _ => cases hadmits
  · rintro ⟨fields, rfl, hpresent, htyped⟩
    refine List.forall_mem_cons.mpr ⟨(hknown [] fields).mpr htyped,
      List.forall_mem_append.mpr ⟨fun k hk => ?_, fun k hk => ?_⟩⟩
    · split_ifs at hk
      · cases hk
      · obtain rfl := List.mem_singleton.mp hk
        refine (check_required [] fields _).mpr fun name hname => ?_
        obtain ⟨o, ho, hneeded, rfl⟩ := mem_demanded.mp hname
        exact hpresent o ho hneeded
    · obtain rfl := List.mem_singleton.mp hk
      exact check_types.mpr ⟨.object, List.mem_singleton.mpr rfl, rfl⟩

theorem ensure_eq_ok_of_structural {checks : List (String × Verifier.Check)} {schema : OutputSchema}
    {v : Json} (hrules : schema.rules = [])
    (h : Verifier.structuralFailures v schema.jsonSchema = []) :
    (Verifier.ofChecks checks).ensure schema v = .ok () := by
  rw [Verifier.ensure_eq_ok_iff]
  simp [Verifier.accepts, Verifier.ofChecks, Verifier.ruleFailures, Report.passed, h, hrules]

theorem structural_of_ensure {checks : List (String × Verifier.Check)} {schema : OutputSchema}
    {v : Json} (h : (Verifier.ofChecks checks).ensure schema v = .ok ()) :
    Verifier.structuralFailures v schema.jsonSchema = [] := by
  rw [Verifier.ensure_eq_ok_iff] at h
  simp only [Verifier.accepts, Verifier.ofChecks, Report.passed, List.isEmpty_iff,
    List.append_eq_nil_iff] at h
  exact h.1

/-- The schemas of a definition whose outputs have different names accept just the objects that are
as the outputs are declared: the full schema those that have all outputs that are not optional, the
partial schema also those that have not, and the structured schema looks at no output that is
streamed as text. So what passes under the full schema passes under the other two, and an object
that the structured schema accepts is accepted by the full one as soon as its streamed outputs are
as they are declared. -/
theorem schemas_describe (d : Definition) (hnames : (d.outputs.map (·.name)).Nodup) :
    (∀ v, Verifier.structuralFailures v (full d).jsonSchema = [] ↔
      ∃ fields, v = .obj fields ∧ Declared d.outputs (fun o => !o.isOptional) fields) ∧
    (∀ v, Verifier.structuralFailures v (partialOf d).jsonSchema = [] ↔
      ∃ fields, v = .obj fields ∧ Declared d.outputs (fun _ => false) fields) ∧
    (∀ v, Verifier.structuralFailures v (structured d).jsonSchema = [] ↔
      ∃ fields, v = .obj fields ∧
        Declared (d.outputs.filter (!·.streamingText)) (fun o => !o.isOptional) fields) ∧
    (∀ checks v, (Verifier.ofChecks checks).ensure (full d) v = .ok () →
      (Verifier.ofChecks checks).ensure (partialOf d) v = .ok () ∧
      (Verifier.ofChecks checks).ensure (structured d) v = .ok ()) ∧
    ∀ fields, Verifier.structuralFailures (.obj fields) (structured d).jsonSchema = [] →
      Declared (d.outputs.filter (·.streamingText)) (fun o => !o.isOptional) fields →
      Verifier.structuralFailures (.obj fields) (full d).jsonSchema = [] := by
  have hfull := structuralFailures_object hnames true
  have hpartial := structuralFailures_object hnames false
  have hstructured := structuralFailures_object
    (hnames.sublist (List.filter_sublist (p := (!·.streamingText)).map _)) true
  simp only [Bool.true_and, Bool.false_and] at hfull hpartial hstructured
  refine ⟨hfull, hpartial, hstructured, fun checks v h => ?_, fun fields h htexts => ?_⟩
  · obtain ⟨fields, rfl, hdeclared⟩ := (hfull v).mp (structural_of_ensure h)
    refine ⟨ensure_eq_ok_of_structural rfl ((hpartial _).mpr ⟨fields, rfl, ?_⟩),
      ensure_eq_ok_of_structural rfl ((hstructured _).mpr ⟨fields, rfl, ?_⟩)⟩
    · exact hdeclared.mono (List.Subset.refl _) nofun
    · exact hdeclared.mono List.filter_sublist.subset fun _ _ hneeded => hneeded
  · obtain ⟨_, hfields, hdeclared⟩ := (hstructured _).mp h
    cases hfields
    refine (hfull _).mpr ⟨fields, rfl, fun o ho hneeded => ?_, fun o ho => ?_⟩
    -- an output is streamed as text or not
    · cases htext : o.streamingText with
      | true => exact htexts.present o (List.mem_filter.mpr ⟨ho, htext⟩) hneeded
      | false => exact hdeclared.present o (List.mem_filter.mpr ⟨ho, by simp [htext]⟩) hneeded
    · cases htext : o.streamingText with
      | true => exact htexts.typed o (List.mem_filter.mpr ⟨ho, htext⟩)
      | false => exact hdeclared.typed o (List.mem_filter.mpr ⟨ho, by simp [htext]⟩)

/-- A review that is told while it is written, with a number of stars and perhaps a picture. -/
def review : Definition :=
  { id := "review", name := "Review"
    outputs := [{ name := "text", type := .string, streamingText := true },
      { name := "stars", type := .integer, description := some "from 1 to 5" },
      { name := "picture", type := .image, isOptional := true }]
    kind := .scriptedLogic { source := "" } }

/-- Stars alone are enough for the structured schema, and with a text for the full one; a number for
a picture is too much even for the partial one. -/
theorem schemas_describe_review : (review.outputs.map (·.name)).Nodup ∧
    Verifier.structuralFailures (.obj [("stars", .num (.int 4))])
      (structured review).jsonSchema = [] ∧
    Verifier.structuralFailures (.obj [("stars", .num (.int 4))]) (full review).jsonSchema ≠ [] ∧
    Verifier.structuralFailures (.obj [("stars", .num (.int 4)), ("text", .str "Good.")])
      (full review).jsonSchema = [] ∧
    Verifier.structuralFailures (.obj [("picture", .num (.int 1))]) (partialOf review).jsonSchema ≠
      [] := by
  have hnames : (review.outputs.map (·.name)).Nodup := by decide
  obtain ⟨hfull, hpartial, hstructured, -, hcompleted⟩ := schemas_describe review hnames
  have hstars (rest : Fields) (hrest : Fields.get? "picture" rest = none) :
      Declared (review.outputs.filter (!·.streamingText)) (fun o => !o.isOptional)
        (("stars", .num (.int 4)) :: rest) := by
    constructor
    · simp [review, Fields.get?]
    · simp [review, Fields.get?, hrest, ValueType.Holds]
  refine ⟨hnames, (hstructured _).mpr ⟨_, rfl, hstars [] rfl⟩, ?_, ?_, ?_⟩
  · rw [Ne, hfull]
    rintro ⟨fields, hfields, hdeclared⟩
    cases hfields
    obtain ⟨x, hx⟩ := hdeclared.present _ List.mem_cons_self rfl
    cases hx
  · refine hcompleted _ ((hstructured _).mpr ⟨_, rfl, hstars _ rfl⟩) ⟨?_, ?_⟩
    · simp [review, Fields.get?]
    · simp [review, Fields.get?, ValueType.Holds]
  · rw [Ne, hpartial]
    rintro ⟨fields, hfields, hdeclared⟩
    cases hfields
    have hpicture := hdeclared.typed { name := "picture", type := .image, isOptional := true }
      (by simp [review]) _ rfl
    simp [ValueType.Holds] at hpicture

end OutputSchema

end Agents
