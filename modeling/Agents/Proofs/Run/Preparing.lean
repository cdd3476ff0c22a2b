import Agents.Definition.Codec
import Agents.Proofs.Json.Ordered
import Agents.Proofs.Run.Course
import Agents.Proofs.Url.Address

/-! # Inputs that are completed

Before an agent is run its inputs are completed: the declarations are gone through in order, and
each of them finds its input given, or puts its default there, or is content without, or refuses the
inputs. Several declarations may be about one input, so that a later one finds what an earlier one
put there.

- What is put there is known from the declarations alone (`defaultOf`), and so is everything that is
  found in the end (`get?_of_complete`). With it, that nothing more is put there a second time, and
  that a default may as well be left out.
- The inputs are refused by the first declaration that is not met (`complete_eq_error_iff`).
- A run whose inputs are refused is over when its agent was found (`Engine.runs_of_refused`).
-/

namespace Agents

open Activity Json

/-! ## Defaults -/

/-- The value of an input that is given; `null` is as good as nothing. -/
def given? (name : String) (fields : Fields) : Option Json :=
  (Fields.get? name fields).filter (!·.isNull)

/-- The defaults that are declared for an input, in order. -/
def declaredDefaults (name : String) (declarations : List InputDecl) : List Json :=
  declarations.filterMap fun i => if i.name = name then i.default else none

/-- Of several defaults this one prevails: the first that is not `null`, or `null` if all of them
are. -/
inductive Prevails : List Json → Json → Prop
  | value {before after : List Json} {v : Json} :
      (∀ w ∈ before, w = .null) → v ≠ .null → Prevails (before ++ v :: after) v
  | null {defaults : List Json} :
      defaults ≠ [] → (∀ w ∈ defaults, w = .null) → Prevails defaults .null

def defaultOf (name : String) (declarations : List InputDecl) : Option Json :=
  ((declaredDefaults name declarations).find? (!·.isNull)).or
    (declaredDefaults name declarations).head?

/-- The declaration is not met by these inputs after the declarations before it: its input is
neither given nor optional, and neither it nor one before has a default for it. -/
structure Unmet (fields : Fields) (before : List InputDecl) (d : InputDecl) : Prop where
  isRequired : d.isOptional = false
  bare : d.default = none
  missing : given? d.name fields = none
  unaided : ∀ v ∈ declaredDefaults d.name before, v.isNull = true

def complete (declarations : List InputDecl) (fields : Fields) : Except Error Fields :=
  declarations.foldlM prepareInput fields

section Given

variable {name : String} {fields : Fields} {v : Json}

theorem eq_null_of_isNull (h : v.isNull = true) : v = .null := by
  cases v <;> first | rfl | cases h

theorem isNull_eq_false_iff : v.isNull = false ↔ v ≠ .null := by
  cases v <;> simp [isNull]

theorem given?_eq_some : given? name fields = some v ↔
    Fields.get? name fields = some v ∧ v.isNull = false := by
  rw [given?, Option.filter_eq_some_iff, Bool.not_eq_true']

theorem given?_eq_none : given? name fields = none ↔
    ∀ v, Fields.get? name fields = some v → v.isNull = true := by
  rw [given?, Option.filter_eq_none_iff]
  simp

theorem given?_or_get? (name : String) (fields : Fields) :
    (given? name fields).or (Fields.get? name fields) = Fields.get? name fields := by
  rw [given?]
  cases Fields.get? name fields with
  | none => rfl
  | some v => cases hnull : v.isNull <;> simp [Option.filter, hnull]

theorem given?_insert_self (name : String) (v : Json) (fields : Fields) :
    given? name (Fields.insert name v fields) = (some v).filter (!·.isNull) := by
  rw [given?, Fields.get?_insert_self]

theorem given?_insert_ne {other : String} (h : other ≠ name) (v : Json) (fields : Fields) :
    given? other (Fields.insert name v fields) = given? other fields := by
  rw [given?, Fields.get?_insert_ne h, given?]

end Given

section Declarations

variable {name : String} {d : InputDecl} {ds : List InputDecl} {v : Json}

theorem declaredDefaults_cons_self (name : String) (d : InputDecl) (ds : List InputDecl)
    (h : d.name = name) :
    declaredDefaults name (d :: ds) = d.default.toList ++ declaredDefaults name ds := by
  rw [declaredDefaults, List.filterMap_cons, if_pos h]
  cases d.default <;> rfl

theorem declaredDefaults_cons_ne (h : d.name ≠ name) (ds : List InputDecl) :
    declaredDefaults name (d :: ds) = declaredDefaults name ds := by
  rw [declaredDefaults, List.filterMap_cons, if_neg h]
  rfl

theorem prevails_of_defaultOf (h : defaultOf name ds = some v) :
    Prevails (declaredDefaults name ds) v := by
  rw [defaultOf] at h
  cases hfind : (declaredDefaults name ds).find? (!·.isNull) with
  | some w =>
    rw [hfind] at h
    cases h
    obtain ⟨hvalue, before, after, hsplit, hbefore⟩ := List.find?_eq_some_iff_append.mp hfind
    rw [hsplit]
    refine .value (fun w hw => eq_null_of_isNull ?_) (isNull_eq_false_iff.mp ?_)
    · simpa using hbefore w hw
    · simpa using hvalue
  | none =>
    rw [hfind] at h
    have hnull : ∀ w ∈ declaredDefaults name ds, w = .null := fun w hw =>
      eq_null_of_isNull (by simpa using List.find?_eq_none.mp hfind w hw)
    have hv : v ∈ declaredDefaults name ds := List.mem_of_mem_head? h
    obtain rfl := hnull v hv
    exact .null (List.ne_nil_of_mem hv) hnull

theorem defaultOf_eq_some_iff :
    defaultOf name ds = some v ↔ Prevails (declaredDefaults name ds) v := by
  refine ⟨prevails_of_defaultOf, fun h => ?_⟩
  rw [defaultOf]
  generalize declaredDefaults name ds = defaults at h
  cases h with
  | @value before after _ hbefore hv =>
    have hfind : (before ++ v :: after).find? (!·.isNull) = some v := by
      refine List.find?_eq_some_iff_append.mpr ⟨?_, before, after, rfl, fun w hw => ?_⟩
      · rw [isNull_eq_false_iff.mpr hv]
        rfl
      · rw [hbefore w hw]
        rfl
    rw [hfind, Option.some_or]
  | null hdefaults hnull =>
    obtain ⟨w, rest, rfl⟩ := List.exists_cons_of_ne_nil hdefaults
    have hfind : (w :: rest).find? (!·.isNull) = none := by
      refine List.find?_eq_none.mpr fun w hw => ?_
      rw [hnull w hw]
      exact Bool.false_ne_true
    rw [hfind, hnull w List.mem_cons_self]
    rfl

theorem defaultOf_eq_none_iff : defaultOf name ds = none ↔ declaredDefaults name ds = [] := by
  simp only [defaultOf, Option.or_eq_none_iff, List.head?_eq_none_iff, and_iff_right_iff_imp]
  intro h
  rw [h]
  rfl

theorem defaultOf_congr {ds ds' : List InputDecl}
    (h : declaredDefaults name ds = declaredDefaults name ds') :
    defaultOf name ds = defaultOf name ds' := by
  rw [defaultOf, defaultOf, h]

/-- A default that is put there counts before the later ones, unless it is `null`. -/
theorem defaultOf_cons_of_some (hname : d.name = name) (hdefault : d.default = some v) :
    defaultOf name (d :: ds) =
      ((some v).filter (!·.isNull)).or ((defaultOf name ds).or (some v)) := by
  have hdefaults : declaredDefaults name (d :: ds) = v :: declaredDefaults name ds := by
    rw [declaredDefaults_cons_self name d ds hname, hdefault]
    rfl
  rw [defaultOf, hdefaults, defaultOf, List.find?_cons, List.head?_cons]
  cases hnull : v.isNull with
  | false => simp [Option.filter, hnull]
  | true =>
    cases hfind : (declaredDefaults name ds).find? (!·.isNull) with
    | some w => simp [Option.filter, hnull]
    | none =>
      -- then the later ones are `null` as well
      have hlater : ∀ w ∈ declaredDefaults name ds, w = v := fun w hw => by
        have hw' : w.isNull = true := by simpa using List.find?_eq_none.mp hfind w hw
        rw [eq_null_of_isNull hw', eq_null_of_isNull hnull]
      cases hrest : declaredDefaults name ds with
      | nil => simp [Option.filter, hnull]
      | cons w rest =>
        obtain rfl := hlater w (by rw [hrest]; exact List.mem_cons_self)
        simp [Option.filter, hnull]

end Declarations

/-! ## One declaration -/

section Step

variable {fields fields' : Fields} {d : InputDecl} {e : Error}

theorem prepareInput_eq (fields : Fields) (d : InputDecl) : prepareInput fields d =
    match given? d.name fields, d.default with
    | some _, _ => .ok fields
    | none, some v => .ok (Fields.insert d.name v fields)
    | none, none => if d.isOptional then .ok fields
        else .error (.invalidInput d.name "required input is missing") := rfl

/-- A declaration that is met finds its input, puts its default there, or is content without. -/
theorem cases_of_prepareInput (h : prepareInput fields d = .ok fields') :
    (given? d.name fields ≠ none ∧ fields' = fields) ∨
    (given? d.name fields = none ∧ ∃ v, d.default = some v ∧
      fields' = Fields.insert d.name v fields) ∨
    (given? d.name fields = none ∧ d.default = none ∧ fields' = fields) := by
  rw [prepareInput_eq] at h
  cases hgiven : given? d.name fields with
  | some v =>
    rw [hgiven] at h
    cases h
    exact .inl ⟨nofun, rfl⟩
  | none =>
    cases hdefault : d.default with
    | some v =>
      rw [hgiven, hdefault] at h
      cases h
      exact .inr (.inl ⟨rfl, v, rfl, rfl⟩)
    | none =>
      rw [hgiven, hdefault] at h
      dsimp only at h
      split at h
      · cases h
        exact .inr (.inr ⟨rfl, rfl, rfl⟩)
      · cases h

theorem prepareInput_eq_error_iff : prepareInput fields d = .error e ↔
    Unmet fields [] d ∧ e = .invalidInput d.name "required input is missing" := by
  rw [prepareInput_eq]
  constructor
  · intro h
    split at h
    · cases h
    · cases h
    next hmissing hbare =>
      split at h
      · cases h
      next hrequired =>
        cases h
        exact ⟨⟨Bool.not_eq_true _ ▸ hrequired, hbare, hmissing, nofun⟩, rfl⟩
  · rintro ⟨⟨hrequired, hbare, hmissing, -⟩, rfl⟩
    rw [hmissing, hbare]
    simp [hrequired]

/-- What is found after all declarations if this one is the first of them. -/
theorem get?_of_prepareInput (h : prepareInput fields d = .ok fields') (name : String)
    (ds : List InputDecl) :
    (given? name fields').or ((defaultOf name ds).or (Fields.get? name fields')) =
      (given? name fields).or ((defaultOf name (d :: ds)).or (Fields.get? name fields)) := by
  by_cases hname : d.name = name
  · subst hname
    rcases cases_of_prepareInput h with ⟨hgiven, rfl⟩ | ⟨hgiven, v, hdefault, rfl⟩ |
      ⟨hgiven, hdefault, rfl⟩
    · obtain ⟨v, hv⟩ := Option.ne_none_iff_exists'.mp hgiven
      rw [hv, Option.some_or, Option.some_or]
    · rw [given?_insert_self, Fields.get?_insert_self, hgiven, Option.none_or,
        defaultOf_cons_of_some rfl hdefault, Option.or_assoc, Option.or_assoc, Option.some_or]
    · have hdefaults : defaultOf d.name (d :: ds) = defaultOf d.name ds := by
        refine defaultOf_congr ?_
        rw [declaredDefaults_cons_self d.name d ds rfl, hdefault]
        rfl
      rw [hdefaults]
  · have hdefaults : defaultOf name (d :: ds) = defaultOf name ds :=
      defaultOf_congr (declaredDefaults_cons_ne hname ds)
    rcases cases_of_prepareInput h with ⟨-, rfl⟩ | ⟨-, v, -, rfl⟩ | ⟨-, -, rfl⟩
    · rw [hdefaults]
    · rw [hdefaults, given?_insert_ne (Ne.symm hname), Fields.get?_insert_ne (Ne.symm hname)]
    · rw [hdefaults]

theorem unmet_iff {before : List InputDecl} {i : InputDecl} : Unmet fields before i ↔
    (i.isOptional = false ∧ i.default = none) ∧ given? i.name fields = none ∧
      ∀ v ∈ declaredDefaults i.name before, v.isNull = true :=
  ⟨fun h => ⟨⟨h.isRequired, h.bare⟩, h.missing, h.unaided⟩,
    fun ⟨⟨hrequired, hbare⟩, hmissing, hunaided⟩ => ⟨hrequired, hbare, hmissing, hunaided⟩⟩

/-- A later declaration is met or not as it would have been, the first one among those before. -/
theorem unmet_cons_iff (h : prepareInput fields d = .ok fields') {before : List InputDecl}
    {i : InputDecl} : Unmet fields (d :: before) i ↔ Unmet fields' before i := by
  rw [unmet_iff, unmet_iff]
  refine and_congr_right fun _ => ?_
  by_cases hname : d.name = i.name
  · rw [declaredDefaults_cons_self i.name d before hname, ← hname]
    rcases cases_of_prepareInput h with ⟨hgiven, rfl⟩ | ⟨hgiven, v, hdefault, rfl⟩ |
      ⟨hgiven, hdefault, rfl⟩
    · simp [hgiven]
    · rw [given?_insert_self, hdefault, Option.toList_some, List.singleton_append,
        List.forall_mem_cons, Option.filter_eq_none_iff]
      simp [hgiven]
    · simp [hdefault]
  · rw [declaredDefaults_cons_ne hname]
    rcases cases_of_prepareInput h with ⟨-, rfl⟩ | ⟨-, v, -, rfl⟩ | ⟨-, -, rfl⟩
    · rfl
    · rw [given?_insert_ne (Ne.symm hname)]
    · rfl

theorem ordered_of_prepareInput (hfields : fields.Ordered)
    (h : prepareInput fields d = .ok fields') : fields'.Ordered := by
  rcases cases_of_prepareInput h with ⟨-, rfl⟩ | ⟨-, v, -, rfl⟩ | ⟨-, -, rfl⟩
  · exact hfields
  · exact Fields.ordered_insert hfields _ _
  · exact hfields

end Step

/-! ## All declarations -/

section Complete

variable {fields fields' result : Fields} {ds : List InputDecl}

theorem complete_cons (d : InputDecl) (ds : List InputDecl) (fields : Fields) :
    complete (d :: ds) fields = (prepareInput fields d).bind (complete ds) := rfl

theorem complete_cons_eq_ok_iff {d : InputDecl} : complete (d :: ds) fields = .ok result ↔
    ∃ fields', prepareInput fields d = .ok fields' ∧ complete ds fields' = .ok result := by
  rw [complete_cons]
  cases prepareInput fields d <;> simp [Except.bind]

/-- What is found in the end: what was given, or else the default, or else what was there. -/
theorem get?_of_complete (h : complete ds fields = .ok result) (name : String) :
    Fields.get? name result =
      (given? name fields).or ((defaultOf name ds).or (Fields.get? name fields)) := by
  induction ds generalizing fields with
  | nil =>
    cases h
    exact (given?_or_get? name _).symm
  | cons d ds ih =>
    obtain ⟨fields', hfirst, hrest⟩ := complete_cons_eq_ok_iff.mp h
    rw [ih hrest, get?_of_prepareInput hfirst]

theorem ordered_of_complete (hfields : fields.Ordered) (h : complete ds fields = .ok result) :
    result.Ordered := by
  induction ds generalizing fields with
  | nil =>
    cases h
    exact hfields
  | cons d ds ih =>
    obtain ⟨fields', hfirst, hrest⟩ := complete_cons_eq_ok_iff.mp h
    exact ih (ordered_of_prepareInput hfields hfirst) hrest

/-- The first declaration that is not met, with those before it. -/
structure Refuses (fields : Fields) (ds before : List InputDecl) (d : InputDecl) : Prop where
  declared : ∃ after, ds = before ++ d :: after
  unmet : Unmet fields before d
  first : ∀ earlier i later, before = earlier ++ i :: later → ¬ Unmet fields earlier i

theorem complete_eq_error_iff {e : Error} : complete ds fields = .error e ↔
    ∃ before d, Refuses fields ds before d ∧
      e = .invalidInput d.name "required input is missing" := by
  induction ds generalizing fields with
  | nil =>
    constructor
    · exact nofun
    · rintro ⟨before, d, ⟨⟨after, hdeclared⟩, -, -⟩, -⟩
      simp at hdeclared
  | cons d ds ih =>
    rw [complete_cons]
    cases hfirst : prepareInput fields d with
    | error e' =>
      obtain ⟨hunmet, rfl⟩ := prepareInput_eq_error_iff.mp hfirst
      constructor
      · rintro ⟨⟩
        exact ⟨[], d, ⟨⟨ds, rfl⟩, hunmet, by simp⟩, rfl⟩
      · rintro ⟨before, i, ⟨⟨after, hdeclared⟩, -, hmet⟩, rfl⟩
        -- the first declaration is not met, so no later one is the first
        cases before with
        | nil =>
          cases hdeclared
          rfl
        | cons d' before =>
          cases hdeclared
          exact absurd hunmet (hmet [] d before rfl)
    | ok fields' =>
      show complete ds fields' = .error e ↔ _
      have hmet : ¬ Unmet fields [] d := fun hunmet => by
        rw [prepareInput_eq_error_iff.mpr ⟨hunmet, rfl⟩] at hfirst
        cases hfirst
      rw [ih]
      constructor
      · rintro ⟨before, i, ⟨⟨after, rfl⟩, hunmet, hearlier⟩, rfl⟩
        refine ⟨d :: before, i, ⟨⟨after, rfl⟩, (unmet_cons_iff hfirst).mpr hunmet, ?_⟩, rfl⟩
        intro earlier j later hsplit
        cases earlier with
        | nil =>
          cases hsplit
          exact hmet
        | cons d' earlier =>
          cases hsplit
          exact fun hj => hearlier earlier j later rfl ((unmet_cons_iff hfirst).mp hj)
      · rintro ⟨before, i, ⟨⟨after, hdeclared⟩, hunmet, hearlier⟩, rfl⟩
        cases before with
        | nil =>
          cases hdeclared
          exact absurd hunmet hmet
        | cons d' before =>
          cases hdeclared
          refine ⟨before, i, ⟨⟨after, rfl⟩, (unmet_cons_iff hfirst).mp hunmet, ?_⟩, rfl⟩
          rintro earlier j later rfl hj
          exact hearlier (d :: earlier) j later rfl ((unmet_cons_iff hfirst).mpr hj)

theorem exists_complete_iff : (∃ result, complete ds fields = .ok result) ↔
    ∀ before d after, ds = before ++ d :: after → ¬ Unmet fields before d := by
  constructor
  · rintro ⟨result, h⟩ before d after hdeclared
    induction before generalizing fields ds with
    | nil =>
      subst hdeclared
      obtain ⟨fields', hfirst, -⟩ := complete_cons_eq_ok_iff.mp h
      intro hunmet
      rw [prepareInput_eq_error_iff.mpr ⟨hunmet, rfl⟩] at hfirst
      cases hfirst
    | cons d' before ih =>
      subst hdeclared
      obtain ⟨fields', hfirst, hrest⟩ := complete_cons_eq_ok_iff.mp h
      rw [unmet_cons_iff hfirst]
      exact ih hrest rfl
  · intro h
    cases hcomplete : complete ds fields with
    | ok result => exact ⟨result, rfl⟩
    | error e =>
      obtain ⟨before, d, ⟨⟨after, hdeclared⟩, hunmet, -⟩, -⟩ := complete_eq_error_iff.mp hcomplete
      exact absurd hunmet (h before d after hdeclared)

theorem given?_of_complete {name : String} {v : Json} (h : complete ds fields = .ok result)
    (hgiven : given? name fields = some v) : given? name result = some v := by
  have hfound : Fields.get? name result = some v := by
    rw [get?_of_complete h, hgiven, Option.some_or]
  exact given?_eq_some.mpr ⟨hfound, (given?_eq_some.mp hgiven).2⟩

theorem complete_complete (hfields : fields.Ordered) (h : complete ds fields = .ok result) :
    complete ds result = .ok result := by
  have hmet : ∀ before d after, ds = before ++ d :: after → ¬ Unmet result before d := by
    rintro before d after hdeclared ⟨hrequired, hbare, hmissing, hunaided⟩
    have hmissing' : given? d.name fields = none := by
      by_contra hgiven
      obtain ⟨v, hv⟩ := Option.ne_none_iff_exists'.mp hgiven
      rw [given?_of_complete h hv] at hmissing
      cases hmissing
    exact exists_complete_iff.mp ⟨result, h⟩ before d after hdeclared
      ⟨hrequired, hbare, hmissing', hunaided⟩
  obtain ⟨result', h'⟩ := exists_complete_iff.mpr hmet
  have hresult := ordered_of_complete hfields h
  have hsame : result' = result := by
    refine Fields.ext_of_ordered (ordered_of_complete hresult h') hresult fun name => ?_
    rw [get?_of_complete h']
    cases hgiven : given? name fields with
    | some v =>
      rw [given?_of_complete h hgiven, Option.some_or, get?_of_complete h, hgiven, Option.some_or]
    | none =>
      -- the default that was put there would be put there again
      have hdefault : (defaultOf name ds).or (Fields.get? name result) =
          Fields.get? name result := by
        rw [get?_of_complete h, hgiven, Option.none_or]
        cases defaultOf name ds <;> rfl
      rw [hdefault, given?_or_get?]
  rw [h', hsame]

/-- Of two inputs, the second leaves out some that are at their defaults in the first. -/
def OmitsDefaults (ds : List InputDecl) (fields fewer : Fields) : Prop :=
  ∀ name, Fields.get? name fields = Fields.get? name fewer ∨
    (Fields.get? name fewer = none ∧
      ∃ v, Fields.get? name fields = some v ∧ Prevails (declaredDefaults name ds) v)

/-- What is left out at its default is completed to the same inputs. -/
theorem complete_of_omitted {fewer : Fields} (hfields : fields.Ordered) (hfewer : fewer.Ordered)
    (homits : OmitsDefaults ds fields fewer) (h : complete ds fewer = .ok result) :
    complete ds fields = .ok result := by
  have hmet : ∀ before d after, ds = before ++ d :: after → ¬ Unmet fields before d := by
    rintro before d after hdeclared ⟨hrequired, hbare, hmissing, hunaided⟩
    have hmissing' : given? d.name fewer = none := by
      rw [given?] at hmissing ⊢
      rcases homits d.name with hsame | ⟨hnone, -⟩
      · rw [← hsame, hmissing]
      · rw [hnone]
        rfl
    exact exists_complete_iff.mp ⟨result, h⟩ before d after hdeclared
      ⟨hrequired, hbare, hmissing', hunaided⟩
  obtain ⟨result', h'⟩ := exists_complete_iff.mpr hmet
  have hsame : result' = result := by
    refine Fields.ext_of_ordered (ordered_of_complete hfields h') (ordered_of_complete hfewer h)
      fun name => ?_
    rw [get?_of_complete h', get?_of_complete h, given?, given?]
    rcases homits name with hsame | ⟨hnone, v, hv, hprevails⟩
    · rw [hsame]
    · rw [defaultOf_eq_some_iff.mpr hprevails, hnone, hv]
      cases hnull : v.isNull <;> simp [Option.filter, hnull]
  rw [h', hsame]

end Complete

/-! ## Definitions that were read -/

theorem ne_null_of_optional {key : String} {fields : Fields} {value : Option Json}
    (h : Fields.optional key Decoder.any fields = some value) : value ≠ some .null := by
  rintro rfl
  rw [Fields.optional] at h
  split at h
  · cases h
  next json _ =>
    rw [Decoder.nullable] at h
    split at h
    · cases h
    next hnull =>
      cases h
      exact hnull rfl

theorem default_ne_null_of_ofJson {json : Json} {i : InputDecl}
    (h : InputDecl.ofJson? json = some i) : i.default ≠ some .null := by
  unfold InputDecl.ofJson? at h
  obtain ⟨fields, -, h⟩ := Option.bind_eq_some_iff.mp h
  obtain ⟨name, -, h⟩ := Option.bind_eq_some_iff.mp h
  obtain ⟨type, -, h⟩ := Option.bind_eq_some_iff.mp h
  obtain ⟨isOptional, -, h⟩ := Option.bind_eq_some_iff.mp h
  obtain ⟨default, hdefault, h⟩ := Option.bind_eq_some_iff.mp h
  obtain ⟨secret, -, h⟩ := Option.bind_eq_some_iff.mp h
  obtain ⟨description, -, h⟩ := Option.bind_eq_some_iff.mp h
  cases h
  exact ne_null_of_optional hdefault

theorem default_ne_null_of_mem {json : Json} {d : Definition}
    (h : Definition.ofJson? json = some d) : ∀ i ∈ d.inputs, i.default ≠ some .null := by
  unfold Definition.ofJson? at h
  obtain ⟨fields, -, h⟩ := Option.bind_eq_some_iff.mp h
  obtain ⟨kind, -, h⟩ := Option.bind_eq_some_iff.mp h
  obtain ⟨spec, -, h⟩ := Option.bind_eq_some_iff.mp h
  obtain ⟨id, -, h⟩ := Option.bind_eq_some_iff.mp h
  obtain ⟨name, -, h⟩ := Option.bind_eq_some_iff.mp h
  obtain ⟨inputs, hinputs, h⟩ := Option.bind_eq_some_iff.mp h
  obtain ⟨outputs, -, h⟩ := Option.bind_eq_some_iff.mp h
  obtain ⟨respondAs, -, h⟩ := Option.bind_eq_some_iff.mp h
  obtain ⟨outputRules, -, h⟩ := Option.bind_eq_some_iff.mp h
  obtain ⟨agentKind, -, h⟩ := Option.bind_eq_some_iff.mp h
  cases h
  intro i hi
  rw [Fields.defaulted] at hinputs
  split at hinputs
  · cases hinputs
    cases hi
  · obtain ⟨items, -, hitems⟩ := Option.bind_eq_some_iff.mp hinputs
    exact Url.forall_of_mapM (fun _ _ => default_ne_null_of_ofJson) hitems i hi

/-- Of the defaults in a definition that was read, the first one prevails. -/
theorem prevails_of_ofJson {json : Json} {d : Definition} (h : Definition.ofJson? json = some d)
    {name : String} {v : Json} (hfirst : (declaredDefaults name d.inputs).head? = some v) :
    Prevails (declaredDefaults name d.inputs) v := by
  obtain ⟨rest, hdefaults⟩ := List.head?_eq_some_iff.mp hfirst
  have hv : v ∈ declaredDefaults name d.inputs := hdefaults ▸ List.mem_cons_self
  obtain ⟨i, hi, hiv⟩ := List.mem_filterMap.mp hv
  have hvalue : v ≠ .null := by
    rintro rfl
    split at hiv
    · exact default_ne_null_of_mem h i hi hiv
    · cases hiv
  rw [hdefaults]
  exact @Prevails.value [] rest v (List.forall_mem_nil _) hvalue

/-! ## Runs -/

/-- An activity that runs to an end with the first of these answers runs to that end only. -/
theorem runs_iff_of_runs {α : Type} {a : Activity α} {first log : List Exchange}
    {es es' : List Event} {r r' : α} (h : Runs a first es r) (hfirst : first <+: log) :
    Runs a log es' r' ↔ log = first ∧ es' = es ∧ r' = r := by
  constructor
  · intro h'
    obtain ⟨more, rfl⟩ := hfirst
    exact h'.unique h (List.append_nil _)
  · rintro ⟨rfl, rfl, rfl⟩
    exact h

namespace Engine

variable {e : Engine} {work : TaskContext → Json → Fallible TaskResult} {depth : Nat}
  {projectId agentRef : String} {inputs : Json} {options : RunOptions} {d : Definition}
  {failure : Error} {finding : List Exchange}

theorem runs_resolve_of_finds {found : Option Definition}
    (h : e.Finds (referent projectId agentRef) finding (.ok found)) :
    Runs (e.resolve projectId agentRef).run finding []
      (.ok (found.map (referent projectId agentRef, ·))) := by
  cases h with
  | own hlocal hd =>
    rw [resolve_eq_pure hlocal hd]
    exact runs_ok.mpr ⟨rfl, rfl, rfl⟩
  | asked _ hnone =>
    rw [resolve_eq_query hnone]
    exact runs_andThen.mpr (.inr ⟨_, [], found, [], [], (List.append_nil _).symm, rfl,
      runs_query.mpr ⟨rfl, rfl⟩, runs_ok.mpr ⟨rfl, rfl, rfl⟩⟩)

/-- A run whose inputs are refused is over when its agent was found. -/
theorem runs_of_refused (hfinds : e.Finds (referent projectId agentRef) finding (.ok (some d)))
    (hrefused : prepareInputs d inputs = .error failure) :
    Runs (e.runWith work (depth + 1) projectId agentRef inputs options).run finding []
      (.error ⟨failure, false⟩) := by
  have hprepare : Runs (e.runDefinitionWith work (referent projectId agentRef) d options
      (fun parent agentRef' inputs =>
        (e.runWith work depth (referent projectId agentRef).projectId agentRef' inputs
          { parentTaskId := some parent, deadline := options.deadline,
            maxRetries := options.maxRetries }).adapt RunFailure.error) inputs).run [] []
      (.error ⟨failure, false⟩) :=
    runs_andThen.mpr (.inl ⟨_, rfl,
      runs_adapt.mpr ⟨_, runs_ofExcept.mpr ⟨rfl, rfl, rfl⟩, by rw [hrefused]; rfl⟩⟩)
  have hresolve := runs_adapt (f := (RunFailure.mk · false)).mpr
    ⟨_, runs_resolve_of_finds hfinds, rfl⟩
  exact runs_andThen.mpr (.inr ⟨finding, [], _, [], [], (List.append_nil _).symm, rfl, hresolve,
    hprepare⟩)

/-- The same run from outside: there is no event, not even an ERROR. -/
theorem runs_execute_of_refused
    (hfinds : e.Finds (referent projectId agentRef) finding (.ok (some d)))
    (hrefused : prepareInputs d inputs = .error failure) :
    Runs (e.executeWith work (depth + 1) projectId agentRef inputs options).run finding []
      (.error failure) := by
  refine runs_liftThen.mpr ⟨finding, [], .error ⟨failure, false⟩, [], [],
    (List.append_nil _).symm, rfl, runs_of_refused hfinds hrefused, ?_⟩
  dsimp only
  rw [Bool.and_false, if_neg Bool.false_ne_true]
  exact runs_throw.mpr ⟨rfl, rfl, rfl⟩

end Engine

/-! ## Completed inputs -/

def suppliedFields? : Json → Option Fields
  | .obj fields => some fields
  | .null => some []
  | _ => none

/-- What completion makes of the fields that were supplied. -/
structure Completes (ds : List InputDecl) (fields result : Fields) : Prop where
  /-- What is supplied stays unless it is a declared input that is `null`. -/
  kept : ∀ name v, Fields.get? name fields = some v →
    v ≠ .null ∨ (∀ i ∈ ds, i.name ≠ name) → Fields.get? name result = some v
  /-- What is missing or `null` has its default. -/
  filled : ∀ name v, given? name fields = none → Prevails (declaredDefaults name ds) v →
    Fields.get? name result = some v
  /-- Nothing else is put there. -/
  untouched : ∀ name, given? name fields ≠ none ∨ declaredDefaults name ds = [] →
    Fields.get? name result = Fields.get? name fields

theorem completes_of_complete {ds : List InputDecl} {fields result : Fields}
    (h : complete ds fields = .ok result) : Completes ds fields result := by
  have huntouched : ∀ name, given? name fields ≠ none ∨ declaredDefaults name ds = [] →
      Fields.get? name result = Fields.get? name fields := by
    intro name huntouched
    rw [get?_of_complete h]
    rcases huntouched with hgiven | hdefault
    · obtain ⟨v, hv⟩ := Option.ne_none_iff_exists'.mp hgiven
      rw [hv, Option.some_or, (given?_eq_some.mp hv).1]
    · rw [defaultOf_eq_none_iff.mpr hdefault, Option.none_or, given?_or_get?]
  refine ⟨fun name v hv hkept => ?_, fun name v hmissing hprevails => ?_, huntouched⟩
  · rw [huntouched name ?_, hv]
    rcases hkept with hnull | hundeclared
    · refine .inl fun hmissing => hnull ?_
      exact eq_null_of_isNull (given?_eq_none.mp hmissing v hv)
    · refine .inr ?_
      rw [declaredDefaults, List.filterMap_eq_nil_iff]
      exact fun i hi => if_neg (hundeclared i hi)
  · rw [get?_of_complete h, hmissing, defaultOf_eq_some_iff.mpr hprevails, Option.none_or,
      Option.some_or]

section PrepareInputs

variable {d : Definition} {inputs prepared : Json} {fields : Fields} {failure : Error}

theorem prepareInputs_eq_complete (hsupplied : suppliedFields? inputs = some fields) :
    prepareInputs d inputs = (complete d.inputs fields).map .obj := by
  unfold suppliedFields? at hsupplied
  split at hsupplied
  · cases hsupplied
    rfl
  · cases hsupplied
    rfl
  · cases hsupplied

theorem prepareInputs_eq_ok_iff (hsupplied : suppliedFields? inputs = some fields) :
    prepareInputs d inputs = .ok prepared ↔
      ∃ result, complete d.inputs fields = .ok result ∧ prepared = .obj result := by
  rw [prepareInputs_eq_complete hsupplied]
  cases complete d.inputs fields <;> simp [Except.map, eq_comm]

theorem prepareInputs_eq_error_iff : prepareInputs d inputs = .error failure ↔
    (suppliedFields? inputs = none ∧
      failure = .invalidInput "*" ("inputs must be an object, got " ++ inputs.compact)) ∨
    ∃ fields before i, suppliedFields? inputs = some fields ∧ Refuses fields d.inputs before i ∧
      failure = .invalidInput i.name "required input is missing" := by
  cases hsupplied : suppliedFields? inputs with
  | some fields =>
    have hrefused : prepareInputs d inputs = .error failure ↔
        complete d.inputs fields = .error failure := by
      rw [prepareInputs_eq_complete hsupplied]
      cases complete d.inputs fields <;> simp [Except.map]
    rw [hrefused, complete_eq_error_iff]
    simp
  | none =>
    have hrefused : prepareInputs d inputs =
        .error (.invalidInput "*" ("inputs must be an object, got " ++ inputs.compact)) := by
      cases inputs <;> first | rfl | cases hsupplied
    rw [hrefused]
    simp [eq_comm]

end PrepareInputs

/-- Inputs are refused when they are no fields at all, or by the first declaration that is not met.
Otherwise they are completed: what was supplied stays, what is missing has its default, which in a
definition that was read is the first that is declared, and there is nothing else. Completed inputs
are complete, and inputs that leave out what is at its default are completed to the same, which is
what the run is remembered under. A run whose inputs are refused is over when its agent was found;
it has no event, and it asks for nothing that may be remembered. -/
theorem prepareInputs_completes (d : Definition) :
    (∀ inputs failure, prepareInputs d inputs = .error failure ↔
      (suppliedFields? inputs = none ∧
        failure = .invalidInput "*" ("inputs must be an object, got " ++ inputs.compact)) ∨
      ∃ fields before i, suppliedFields? inputs = some fields ∧ Refuses fields d.inputs before i ∧
        failure = .invalidInput i.name "required input is missing") ∧
    (∀ inputs fields prepared, suppliedFields? inputs = some fields → fields.Ordered →
      prepareInputs d inputs = .ok prepared →
      ∃ result : Fields, prepared = .obj result ∧ result.Ordered ∧
        Completes d.inputs fields result ∧ prepareInputs d prepared = .ok prepared) ∧
    (∀ json, Definition.ofJson? json = some d → ∀ name v,
      (declaredDefaults name d.inputs).head? = some v →
      Prevails (declaredDefaults name d.inputs) v) ∧
    (∀ fields fewer prepared, fields.Ordered → fewer.Ordered →
      OmitsDefaults d.inputs fields fewer → prepareInputs d (.obj fewer) = .ok prepared →
      prepareInputs d (.obj fields) = .ok prepared ∧
      ∀ prepared', prepareInputs d (.obj fields) = .ok prepared' → ∀ identity,
        fingerprint identity prepared' = fingerprint identity prepared) ∧
    ∀ (e : Engine) work depth projectId agentRef inputs options failure finding,
      e.Finds (Engine.referent projectId agentRef) finding (.ok (some d)) →
      prepareInputs d inputs = .error failure →
      (∀ x ∈ finding, ∃ identity, x.query = .agent identity) ∧
      ∀ log events, finding <+: log →
        (∀ result, Runs (e.runWith work (depth + 1) projectId agentRef inputs options).run log
            events result ↔
          log = finding ∧ events = [] ∧ result = .error ⟨failure, false⟩) ∧
        ∀ result, Runs (e.executeWith work (depth + 1) projectId agentRef inputs options).run log
            events result ↔
          log = finding ∧ events = [] ∧ result = .error failure := by
  refine ⟨fun _ _ => prepareInputs_eq_error_iff, ?_, fun _ h _ _ => prevails_of_ofJson h, ?_, ?_⟩
  · intro inputs fields prepared hsupplied hfields h
    obtain ⟨result, hresult, rfl⟩ := (prepareInputs_eq_ok_iff hsupplied).mp h
    refine ⟨result, rfl, ordered_of_complete hfields hresult, completes_of_complete hresult, ?_⟩
    exact (prepareInputs_eq_ok_iff rfl).mpr ⟨result, complete_complete hfields hresult, rfl⟩
  · intro fields fewer prepared hfields hfewer homits h
    obtain ⟨result, hresult, rfl⟩ := (prepareInputs_eq_ok_iff rfl).mp h
    have hsame : prepareInputs d (.obj fields) = .ok (.obj result) :=
      (prepareInputs_eq_ok_iff rfl).mpr
        ⟨result, complete_of_omitted hfields hfewer homits hresult, rfl⟩
    refine ⟨hsame, fun prepared' h' identity => ?_⟩
    rw [hsame] at h'
    cases h'
    rfl
  · intro e work depth projectId agentRef inputs options failure finding hfinds hrefused
    refine ⟨?_, fun log events hlog => ⟨fun result => ?_, fun result => ?_⟩⟩
    · cases hfinds with
      | own => simp
      | asked => simp
    · exact runs_iff_of_runs (Engine.runs_of_refused hfinds hrefused) hlog
    · exact runs_iff_of_runs (Engine.runs_execute_of_refused hfinds hrefused) hlog

/-- An agent with an input that it needs, and one that is declared twice. -/
def conversion : Definition :=
  { id := "conversion", name := "Conversion"
    inputs := [{ name := "length", type := .string },
      { name := "unit", default := some (.str "m") }, { name := "note", isOptional := true },
      { name := "unit", default := some (.str "ft") }]
    kind := .pipeline { steps := [], outputs := [] } }

theorem prepareInputs_completes_conversion :
    Completes conversion.inputs [("length", .str "3"), ("note", .null)]
      [("length", .str "3"), ("note", .null), ("unit", .str "m")] ∧
    prepareInputs conversion (.obj [("length", .str "3"), ("unit", .str "m")]) =
      prepareInputs conversion (.obj [("length", .str "3")]) ∧
    Runs (Engine.execute { project := { id := "desk" } } 1 "desk" "conversion"
      (.obj [("unit", .str "ft")]) {}).run
      [⟨.agent (Engine.referent "desk" "conversion"), .ok (some conversion)⟩] []
      (.error (.invalidInput "length" "required input is missing")) := by
  obtain ⟨hrefused, hcompleted, -, homitted, hruns⟩ := prepareInputs_completes conversion
  refine ⟨?_, ?_, ?_⟩
  · obtain ⟨result, hresult, -, hcompletes, -⟩ := hcompleted
      (.obj [("length", .str "3"), ("note", .null)]) _ _ rfl (by decide +kernel) rfl
    cases hresult
    exact hcompletes
  · refine (homitted _ [("length", .str "3")] _ (by decide +kernel) (by decide +kernel) ?_ rfl).1
    intro name
    by_cases hname : name = "unit"
    · subst hname
      exact .inr ⟨rfl, .str "m", rfl, @Prevails.value [] _ _ (List.forall_mem_nil _) nofun⟩
    · exact .inl (by simp [Fields.get?, Ne.symm hname])
  · have hfailure := (hrefused (.obj [("unit", .str "ft")]) _).mpr (.inr ⟨_, [], _, rfl,
      ⟨⟨_, rfl⟩, ⟨rfl, rfl, rfl, by simp [declaredDefaults]⟩, by simp⟩, rfl⟩)
    have hfinds : Engine.Finds { project := { id := "desk" } }
        (Engine.referent "desk" "conversion")
        [⟨.agent (Engine.referent "desk" "conversion"), .ok (some conversion)⟩]
        (.ok (some conversion)) := .asked _ fun _ => rfl
    obtain ⟨-, hover⟩ := hruns _ TaskContext.process 0 _ _ _ {} _ _ hfinds hfailure
    exact ((hover _ _ (List.prefix_refl _)).2 _).mpr ⟨rfl, rfl, rfl⟩

/-- An agent with an input whose default is `null` at first and then a value, and with one that is
zero unless it is given. -/
def survey : Definition :=
  { id := "survey", name := "Survey"
    inputs := [{ name := "unit", default := some .null },
      { name := "unit", default := some (.str "m") },
      { name := "offset", default := some (.num (.float 0.0)) }]
    kind := .pipeline { steps := [], outputs := [] } }

/-- The first default gives way to a later one if it is `null`. And an input that is equal to its
default is told apart from it if they are the two zeros. -/
theorem survey_default_gives_way :
    (declaredDefaults "unit" survey.inputs).head? = some .null ∧
    prepareInputs survey (.obj []) =
      .ok (.obj [("offset", .num (.float 0.0)), ("unit", .str "m")]) ∧
    (Json.num (.float (-0.0)) == Json.num (.float 0.0)) = true ∧
    prepareInputs survey (.obj [("offset", .num (.float (-0.0)))]) =
      .ok (.obj [("offset", .num (.float (-0.0))), ("unit", .str "m")]) ∧
    fingerprint (Identity.inProject "p" "a")
        (.obj [("offset", .num (.float 0.0)), ("unit", .str "m")]) ≠
      fingerprint (Identity.inProject "p" "a")
        (.obj [("offset", .num (.float (-0.0))), ("unit", .str "m")]) := by
  refine ⟨rfl, rfl, ?_, rfl, ?_⟩
  · decide +kernel
  · decide +kernel

end Agents
