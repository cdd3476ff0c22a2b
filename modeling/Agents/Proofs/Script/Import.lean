import Agents.Proofs.Text.Search
import Agents.Script.Session
import Mathlib.Data.List.TakeWhile

/-! # No import is missed

The imports of a script are read off its text in leaps: what was read as a module's name is not
looked at again, although the word `import` may occur in it. A search at every place of the text
(`occurrences`) finds those as well.

The leaps make no difference to what is refused. A name with the keyword in it is refused itself,
unless it is allowed, and up to the first module that is refused every other name can be passed over
(`occurrences_append_left`). So both searches find the same module first (`find?_modulesFrom`).
-/

namespace Agents.Script.Import

open Text (isBlank isWord)

/-! ## Occurrences -/

/-- This text goes on with a name in double quotes, which white space may stand before. -/
def Names (after name : List Char) : Prop :=
  ∃ blanks rest, after = blanks ++ '"' :: (name ++ '"' :: rest) ∧
    (∀ c ∈ blanks, isBlank c = true) ∧ '"' ∉ name

/-- The keyword stands behind `front` as a word, with `after` behind it. -/
structure Occurs (before : Option Char) (text front after : List Char) : Prop where
  split : text = front ++ (keyword ++ after)
  begins : (front.getLast?.or before).any isWord = false
  ends : after.head?.any isWord = false

def occurrences (before : Option Char) : List Char → List (List Char)
  | [] => []
  | c :: rest => (afterKeyword? before (c :: rest)).toList ++ occurrences (some c) rest

def moduleAfter (after : List Char) : String :=
  match quoted? (after.dropWhile isBlank) with
  | some (name, _) => String.ofList name
  | none => dynamicModule

variable {before : Option Char} {text front after name rest s t : List Char}

theorem afterKeyword?_eq_some_iff : afterKeyword? before text = some after ↔
    text = keyword ++ after ∧ before.any isWord = false ∧ after.head?.any isWord = false := by
  unfold afterKeyword?
  constructor
  · intro h
    split at h
    · cases h
    next hbegins =>
      simp only [Bool.or_eq_true, Bool.not_eq_true', not_or, Bool.not_eq_true,
        Bool.not_eq_false] at hbegins
      obtain ⟨after', rfl⟩ := List.isPrefixOf_iff_prefix.mp hbegins.2
      rw [List.drop_left] at h
      split at h
      · cases h
      next hends =>
        cases h
        exact ⟨rfl, hbegins.1, by simpa using hends⟩
  · rintro ⟨rfl, hbefore, hafter⟩
    have hbegins : keyword.isPrefixOf (keyword ++ after) = true :=
      List.isPrefixOf_iff_prefix.mpr (List.prefix_append keyword after)
    simp [hbefore, hbegins, hafter]

theorem quoted?_eq_some_iff : quoted? s = some (name, rest) ↔
    s = '"' :: (name ++ '"' :: rest) ∧ '"' ∉ name := by
  constructor
  · intro h
    unfold quoted? at h
    split at h
    next tail =>
      have hspan := List.takeWhile_append_dropWhile (p := (· ≠ '"')) (l := tail)
      split at h
      next c after hdrop =>
        cases h
        have hc := List.head?_dropWhile_not (· ≠ '"') tail
        rw [hdrop] at hc
        obtain rfl : c = '"' := by simpa using hc
        rw [hdrop] at hspan
        refine ⟨by rw [hspan], fun hmem => ?_⟩
        simpa using List.mem_takeWhile_imp hmem
      · cases h
    · cases h
  · rintro ⟨rfl, hname⟩
    have hne : ∀ c ∈ name, decide (c ≠ '"') = true :=
      fun c hc => decide_eq_true fun h => hname (h ▸ hc)
    rw [quoted?, List.dropWhile_append_of_pos hne, List.takeWhile_append_of_pos hne]
    simp

theorem exists_quoted?_iff :
    (∃ rest, quoted? (after.dropWhile isBlank) = some (name, rest)) ↔ Names after name := by
  constructor
  · rintro ⟨rest, h⟩
    obtain ⟨hdrop, hname⟩ := quoted?_eq_some_iff.mp h
    refine ⟨after.takeWhile isBlank, rest, ?_, fun c => List.mem_takeWhile_imp, hname⟩
    rw [← hdrop, List.takeWhile_append_dropWhile]
  · rintro ⟨blanks, rest, rfl, hblanks, hname⟩
    refine ⟨rest, quoted?_eq_some_iff.mpr ⟨?_, hname⟩⟩
    rw [List.dropWhile_append_of_pos hblanks]
    rfl

/-- The module that is imported: the one that is named, or the one that stands for none. -/
theorem moduleAfter_eq_iff {m : String} : moduleAfter after = m ↔
    Names after m.toList ∨ (m = dynamicModule ∧ ∀ name, ¬ Names after name) := by
  rw [moduleAfter]
  cases hread : quoted? (after.dropWhile isBlank) with
  | some found =>
    obtain ⟨name, rest⟩ := found
    have hnames : ∀ name', Names after name' ↔ name' = name := fun name' => by
      rw [← exists_quoted?_iff, hread]
      simp [eq_comm]
    simp only [hnames, forall_eq, and_false, or_false]
    constructor
    · rintro rfl
      rw [String.toList_ofList]
    · rintro rfl
      rw [String.ofList_toList]
  | none =>
    have hnames : ∀ name', ¬ Names after name' := fun name' h => by
      obtain ⟨rest, hrest⟩ := exists_quoted?_iff.mpr h
      rw [hread] at hrest
      cases hrest
    simp [hnames, eq_comm]

/-! ## The search at every place -/

theorem getLast?_cons_or (c : Char) (s : List Char) (before : Option Char) :
    (c :: s).getLast?.or before = s.getLast?.or (some c) := by
  rw [List.getLast?_cons]
  cases s.getLast? <;> rfl

theorem not_occurs_nil : ¬ Occurs before [] front after := by
  rintro ⟨htext, -, -⟩
  have hkeyword : keyword ≠ [] := by decide
  simp [hkeyword] at htext

theorem occurs_nil_iff : Occurs before text [] after ↔ afterKeyword? before text = some after := by
  rw [afterKeyword?_eq_some_iff]
  exact ⟨fun h => ⟨h.split, h.begins, h.ends⟩, fun ⟨hsplit, hbegins, hends⟩ =>
    ⟨hsplit, hbegins, hends⟩⟩

theorem occurs_cons_iff {c d : Char} :
    Occurs before (c :: text) (d :: front) after ↔ d = c ∧ Occurs (some c) text front after := by
  constructor
  · rintro ⟨hsplit, hbegins, hends⟩
    rw [getLast?_cons_or] at hbegins
    cases hsplit
    exact ⟨rfl, rfl, hbegins, hends⟩
  · rintro ⟨rfl, rfl, hbegins, hends⟩
    rw [← getLast?_cons_or] at hbegins
    exact ⟨rfl, hbegins, hends⟩

theorem mem_occurrences :
    after ∈ occurrences before text ↔ ∃ front, Occurs before text front after := by
  induction text generalizing before with
  | nil => exact iff_of_false nofun fun ⟨_, h⟩ => not_occurs_nil h
  | cons c text ih =>
    rw [occurrences, List.mem_append, Option.mem_toList, ih]
    constructor
    · rintro (h | ⟨front, h⟩)
      · exact ⟨[], occurs_nil_iff.mpr h⟩
      · exact ⟨c :: front, occurs_cons_iff.mpr ⟨rfl, h⟩⟩
    · rintro ⟨front, h⟩
      cases front with
      | nil => exact .inl (occurs_nil_iff.mp h)
      | cons d front => exact .inr ⟨front, (occurs_cons_iff.mp h).2⟩

/-- What is found first is found before everything else of its kind. -/
theorem first_of_find?_occurrences {p : List Char → Bool}
    (h : (occurrences before text).find? p = some after) :
    ∃ front, Occurs before text front after ∧ p after = true ∧
      ∀ front' after', Occurs before text front' after' → front'.length < front.length →
        p after' = false := by
  induction text generalizing before with
  | nil => cases h
  | cons c text ih =>
    have hlater : (∀ after', afterKeyword? before (c :: text) = some after' → p after' = false) →
        (occurrences (some c) text).find? p = some after →
        ∃ front, Occurs before (c :: text) front after ∧ p after = true ∧
          ∀ front' after', Occurs before (c :: text) front' after' →
            front'.length < front.length → p after' = false := by
      intro hhere hfind
      obtain ⟨front, hoccurs, hp, hfirst⟩ := ih hfind
      refine ⟨c :: front, occurs_cons_iff.mpr ⟨rfl, hoccurs⟩, hp, ?_⟩
      intro front' after' hoccurs' hlt
      cases front' with
      | nil => exact hhere after' (occurs_nil_iff.mp hoccurs')
      | cons d front' =>
        exact hfirst front' after' (occurs_cons_iff.mp hoccurs').2 (Nat.lt_of_succ_lt_succ hlt)
    rw [occurrences] at h
    cases hhere : afterKeyword? before (c :: text) with
    | none =>
      rw [hhere] at h
      exact hlater (by simp [hhere]) h
    | some here =>
      rw [hhere, Option.toList_some, List.singleton_append, List.find?_cons] at h
      split at h
      next hp =>
        cases h
        exact ⟨[], occurs_nil_iff.mpr hhere, hp, nofun⟩
      next hp => exact hlater (by simpa [hhere] using hp) h

/-! ## Text that can be passed over -/

theorem occurrences_append_left (h : ∀ u v, s = u ++ v → v ≠ [] → ¬ keyword <+: v ++ t)
    (before : Option Char) :
    occurrences before (s ++ t) = occurrences (s.getLast?.or before) t := by
  induction s generalizing before with
  | nil => rfl
  | cons c s ih =>
    have hhere : afterKeyword? before (c :: (s ++ t)) = none := by
      by_contra hfound
      obtain ⟨after, hafter⟩ := Option.ne_none_iff_exists'.mp hfound
      refine h [] (c :: s) rfl (List.cons_ne_nil c s) ⟨after, ?_⟩
      exact (afterKeyword?_eq_some_iff.mp hafter).1.symm
    rw [List.cons_append, occurrences, hhere, ih fun u v hs => h (c :: u) v (by rw [hs]; rfl),
      getLast?_cons_or]
    rfl

theorem occurrences_append_of_not_mem (h : 'i' ∉ s) (before : Option Char) (t : List Char) :
    occurrences before (s ++ t) = occurrences (s.getLast?.or before) t := by
  refine occurrences_append_left (fun u v hs hv hbegins => ?_) before
  cases v with
  | nil => exact hv rfl
  | cons c v =>
    obtain ⟨more, hmore⟩ := hbegins
    obtain rfl : 'i' = c := (List.cons.inj hmore).1
    exact h (by simp [hs])

theorem occurrences_append_name (h : ¬ keyword <:+: name) (before : Option Char) (t : List Char) :
    occurrences before (name ++ '"' :: t) = occurrences (name.getLast?.or before) ('"' :: t) := by
  refine occurrences_append_left (fun u v hs _ hbegins => h ?_) before
  -- the keyword has no quote in it, so that it would end in the name
  have hquote : '"' ∉ keyword := by decide
  have hv : keyword <+: v := by
    rcases List.prefix_or_prefix_of_prefix hbegins (List.prefix_append v _) with hv | ⟨more, hv⟩
    · exact hv
    · obtain ⟨rest, hrest⟩ := hbegins
      rw [← hv, List.append_assoc, List.append_cancel_left_eq] at hrest
      cases more with
      | nil => exact ⟨[], by rw [← hv, List.append_nil, List.append_nil]⟩
      | cons c more =>
        cases hrest
        exact absurd (hv ▸ by simp) hquote
  exact hv.isInfix.trans (hs ▸ (List.suffix_append u v).isInfix)

theorem occurrences_of_afterKeyword? (h : afterKeyword? before text = some after) :
    occurrences before text = after :: occurrences keyword.getLast? after := by
  obtain ⟨rfl, -, -⟩ := afterKeyword?_eq_some_iff.mp h
  have hkeyword : keyword ++ after = 'i' :: ("mport".toList ++ after) := rfl
  rw [hkeyword] at h ⊢
  rw [occurrences, h, occurrences_append_of_not_mem (by decide)]
  rfl

theorem occurrences_of_names {blanks : List Char} (hblanks : ∀ c ∈ blanks, isBlank c = true)
    (hname : ¬ keyword <:+: name) (before : Option Char) :
    occurrences before (blanks ++ '"' :: (name ++ '"' :: rest)) =
      occurrences (some '"') rest := by
  have hfree : 'i' ∉ blanks ++ ['"'] := by
    rw [List.mem_append, not_or]
    exact ⟨fun h => absurd (hblanks _ h) (by decide), by decide⟩
  rw [List.append_cons, occurrences_append_of_not_mem hfree, occurrences_append_name hname]
  exact occurrences_append_of_not_mem (s := ['"']) (by decide) _ rest

/-! ## The leaps -/

/-- The search in leaps finds the same first as the search at every place, where whatever has the
keyword in its name is wanted. -/
theorem find?_modulesFrom {p : String → Bool}
    (hp : ∀ m, p m = false → ¬ keyword <:+: m.toList) (before : Option Char) (text : List Char) :
    (modulesFrom before text).find? p = ((occurrences before text).map moduleAfter).find? p := by
  fun_induction modulesFrom before text with
  | case1 before text after hfound name rest hname ih =>
    obtain ⟨hdrop, -⟩ := quoted?_eq_some_iff.mp hname
    have hmodule : moduleAfter after = String.ofList name := by
      rw [moduleAfter, hname]
    rw [occurrences_of_afterKeyword? hfound, List.map_cons, List.find?_cons, List.find?_cons,
      hmodule, ih]
    cases hwanted : p (String.ofList name) with
    | true => rfl
    | false =>
      -- the name is passed over, and there is no keyword in it
      have hclean := hp _ hwanted
      rw [String.toList_ofList] at hclean
      have hafter : after = after.takeWhile isBlank ++ '"' :: (name ++ '"' :: rest) := by
        rw [← hdrop, List.takeWhile_append_dropWhile]
      rw [hafter, occurrences_of_names (fun c => List.mem_takeWhile_imp) hclean]
  | case2 before text after hfound hname ih =>
    have hmodule : moduleAfter after = dynamicModule := by
      rw [moduleAfter, hname]
    rw [occurrences_of_afterKeyword? hfound, List.map_cons, List.find?_cons, List.find?_cons,
      hmodule, ih]
  | case3 before hfound => rfl
  | case4 before c text hfound ih =>
    rw [occurrences, hfound, ih]
    rfl

/-! ## The check -/

section Allowed

variable {allowed : List String}

/-- Just the occurrences are in order that are followed by an allowed name. -/
theorem moduleAfter_mem_iff (hdynamic : dynamicModule ∉ allowed) :
    moduleAfter after ∈ allowed ↔ ∃ m ∈ allowed, Names after m.toList := by
  constructor
  · intro h
    rcases moduleAfter_eq_iff.mp (Eq.refl (moduleAfter after)) with hnames | ⟨hnone, -⟩
    · exact ⟨_, h, hnames⟩
    · exact absurd (hnone ▸ h) hdynamic
  · rintro ⟨m, hm, hnames⟩
    rwa [moduleAfter_eq_iff.mpr (.inl hnames)]

/-- The first module that is refused, by the search at every place. -/
theorem find?_importedModules (hnames : ∀ m ∈ allowed, ¬ keyword <:+: m.toList) (code : String) :
    (importedModules code).find? (fun m => !allowed.contains m) =
      ((occurrences none code.toList).find? fun after =>
        !allowed.contains (moduleAfter after)).map moduleAfter := by
  rw [importedModules, find?_modulesFrom (fun m hm => hnames m (by simpa using hm)),
    List.find?_map]
  rfl

end Allowed

end Import

open Import

theorem checkImports_eq_ok_iff {code : String} {allowed : List String} :
    checkImports code allowed = .ok () ↔
      (importedModules code).find? (fun m => !allowed.contains m) = none := by
  rw [checkImports]
  cases (importedModules code).find? fun m => !allowed.contains m <;> simp

theorem checkImports_eq_error_iff {code : String} {allowed : List String} {e : Error} :
    checkImports code allowed = .error e ↔ ∃ m,
      (importedModules code).find? (fun m => !allowed.contains m) = some m ∧
        e = .unsupportedModule m := by
  rw [checkImports]
  cases (importedModules code).find? fun m => !allowed.contains m <;> simp [eq_comm]

/-- A script passes the check exactly if wherever the word `import` occurs in it, a name follows
that is allowed. Otherwise the first module that is reported without being allowed is refused: it is
what the first occurrence imports that no allowed name follows. Such a script is not started. -/
theorem checkImports_misses_none {allowed : List String} (hdynamic : dynamicModule ∉ allowed)
    (hnames : ∀ m ∈ allowed, ¬ keyword <:+: m.toList) (code : String) :
    (checkImports code allowed = .ok () ↔ ∀ before after, Occurs none code.toList before after →
      ∃ m ∈ allowed, Names after m.toList) ∧
    (∀ e, checkImports code allowed = .error e ↔ ∃ earlier m later,
      importedModules code = earlier ++ m :: later ∧ (∀ x ∈ earlier, x ∈ allowed) ∧ m ∉ allowed ∧
        e = .unsupportedModule m) ∧
    (∀ m, checkImports code allowed = .error (.unsupportedModule m) →
      ∃ before after, Occurs none code.toList before after ∧
        (Names after m.toList ∨ (m = dynamicModule ∧ ∀ name, ¬ Names after name)) ∧
        ∀ before' after', Occurs none code.toList before' after' →
          before'.length < before.length → ∃ x ∈ allowed, Names after' x.toList) ∧
    ∀ e, checkImports code allowed = .error e →
      ∀ {μ : Type → Type} [Monad μ] (l : SandboxLimits) arguments
        (handle : HostCall → μ (Option (Except Error Json))), l.allowedModules = allowed →
        run l code arguments handle = pure (.error e) := by
  refine ⟨?_, fun e => ?_, fun m h => ?_, fun e h μ _ l arguments handle hallowed => ?_⟩
  · rw [checkImports_eq_ok_iff, find?_importedModules hnames, Option.map_eq_none_iff,
      List.find?_eq_none]
    simp only [mem_occurrences, Bool.not_eq_true', Bool.not_eq_false, List.contains_eq_mem,
      decide_eq_true_eq, moduleAfter_mem_iff hdynamic]
    exact ⟨fun h before after hoccurs => h after ⟨before, hoccurs⟩,
      fun h after ⟨before, hoccurs⟩ => h before after hoccurs⟩
  · rw [checkImports_eq_error_iff]
    constructor
    · rintro ⟨m, hfind, rfl⟩
      obtain ⟨hm, earlier, later, hsplit, hearlier⟩ := List.find?_eq_some_iff_append.mp hfind
      exact ⟨earlier, m, later, hsplit, by simpa using hearlier, by simpa using hm, rfl⟩
    · rintro ⟨earlier, m, later, hsplit, hearlier, hm, rfl⟩
      exact ⟨m, List.find?_eq_some_iff_append.mpr
        ⟨by simpa using hm, earlier, later, hsplit, by simpa using hearlier⟩, rfl⟩
  · obtain ⟨m', hfind, hm⟩ := checkImports_eq_error_iff.mp h
    cases hm
    rw [find?_importedModules hnames, Option.map_eq_some_iff] at hfind
    obtain ⟨after, hafter, hmodule⟩ := hfind
    obtain ⟨before, hoccurs, -, hfirst⟩ := first_of_find?_occurrences hafter
    refine ⟨before, after, hoccurs, moduleAfter_eq_iff.mp hmodule, ?_⟩
    intro before' after' hoccurs' hlt
    exact (moduleAfter_mem_iff hdynamic).mp (by simpa using hfirst before' after' hoccurs' hlt)
  · rw [run, hallowed, h]

/-- An import in a comment counts, and where a name has the keyword in it the name is refused. -/
theorem checkImports_misses_none_hidden :
    checkImports "import \"json\"; // import \"net\"" ["json"] =
      .error (.unsupportedModule "net") ∧
    ∃ before after, Occurs none "import \" import fs; \"".toList before after ∧
      Names after " import fs; ".toList := by
  have hdynamic : dynamicModule ∉ ["json"] := by decide
  have hnames : ∀ m ∈ ["json"], ¬ keyword <:+: m.toList := by decide
  constructor
  · obtain ⟨-, hrefused, -⟩ := checkImports_misses_none hdynamic hnames
      "import \"json\"; // import \"net\""
    exact (hrefused _).mpr ⟨["json"], "net", [], by decide +kernel, by decide, by decide, rfl⟩
  · obtain ⟨-, hrefused, hfirst, -⟩ := checkImports_misses_none hdynamic hnames
      "import \" import fs; \""
    have h := (hrefused _).mpr
      ⟨[], " import fs; ", [], by decide +kernel, by decide, by decide, rfl⟩
    obtain ⟨before, after, hoccurs, hnames | ⟨hnone, -⟩, -⟩ := hfirst _ h
    · exact ⟨before, after, hoccurs, hnames⟩
    · exact absurd hnone (by decide)

end Agents.Script
