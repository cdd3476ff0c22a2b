import Agents.Http.Request
import Mathlib.Data.List.Basic

/-! # What a list of base URLs allows

A script may fetch what lies at or below one of the base URLs in a list (`Url.Permitted`): the same
server, and a path that is the base path or goes on after it with a whole segment. The check of a
URL decides just that and names what it refuses (`Url.ensureAllowed_eq`).
-/

namespace Agents.Url

/-! ## Paths -/

/-- A path without its final slash. -/
def stem (path : List Char) : List Char :=
  if path.getLast? = some '/' then path.dropLast else path

/-- Whether a path is a base path, or goes on after it with a slash. -/
def IsBelow (base path : String) : Prop :=
  path = base ∨ stem base.toList ++ ['/'] <+: path.toList

theorem stem_of_open {path : List Char} (h : path.getLast? ≠ some '/') : stem path = path := if_neg h

/-- The check takes the text of the base off the path and looks at what stands around the cut. -/
theorem isWithin_eq (base path : String) : isWithin base path = true ↔
    ∃ rest, path.toList = base.toList ++ rest ∧
      (rest = [] ∨ base.toList.getLast? = some '/' ∨ rest.head? = some '/') := by
  unfold isWithin
  constructor
  · intro h
    split at h
    · next hprefix =>
      obtain ⟨rest, hrest⟩ := List.isPrefixOf_iff_prefix.mp hprefix
      refine ⟨rest, hrest.symm, ?_⟩
      simpa [← hrest, String.length, or_assoc] using h
    · cases h
  · rintro ⟨rest, hpath, hrest⟩
    rw [if_pos (List.isPrefixOf_iff_prefix.mpr ⟨rest, hpath.symm⟩)]
    simpa [hpath, String.length, or_assoc] using hrest

theorem isWithin_iff (base path : String) : isWithin base path = true ↔ IsBelow base path := by
  rw [isWithin_eq, IsBelow, ← String.toList_inj]
  by_cases hclosed : base.toList.getLast? = some '/'
  · -- a closed base is its stem and a slash, so it allows whatever it begins
    have hbase : stem base.toList ++ ['/'] = base.toList := by
      rw [stem, if_pos hclosed]
      exact List.dropLast_append_getLast? '/' hclosed
    rw [hbase]
    constructor
    · rintro ⟨rest, hpath, _⟩
      exact .inr ⟨rest, hpath.symm⟩
    · rintro (hpath | ⟨rest, hpath⟩)
      · exact ⟨[], by simpa using hpath, .inl rfl⟩
      · exact ⟨rest, hpath.symm, .inr (.inl hclosed)⟩
  · rw [stem_of_open hclosed]
    constructor
    · rintro ⟨rest, hpath, rfl | hbase | hslash⟩
      · exact .inl (by simpa using hpath)
      · exact absurd hbase hclosed
      · obtain ⟨after, rfl⟩ := List.head?_eq_some_iff.mp hslash
        exact .inr ⟨after, by simp [hpath]⟩
    · rintro (hpath | ⟨after, hpath⟩)
      · exact ⟨[], by simpa using hpath, .inl rfl⟩
      · exact ⟨'/' :: after, by simp [← hpath], .inr (.inr rfl)⟩

/-! ## Origins -/

theorem sameOrigin_iff (u v : Url) :
    u.sameOrigin v = true ↔ ∃ server, u.origin? = some server ∧ v.origin? = some server := by
  unfold sameOrigin
  cases hu : u.origin? with
  | none => simp
  | some o =>
    cases hv : v.origin? with
    | none => simp
    | some p =>
      simp only [beq_iff_eq, Option.some.injEq]
      constructor
      · rintro rfl
        exact ⟨o, rfl, rfl⟩
      · rintro ⟨_, rfl, rfl⟩
        rfl

/-! ## URLs -/

/-- Whether a text is a URL at or below one of the base URLs in a list. An entry that is no URL
allows nothing. -/
def Permitted (allowed : List String) (text : String) : Prop :=
  ∃ target, parse text = .ok target ∧ ∃ entry ∈ allowed, ∃ base, parse entry = .ok base ∧
    (∃ server, base.origin? = some server ∧ target.origin? = some server) ∧
    IsBelow base.path.text target.path.text

def refusal (text : String) : String :=
  match parse text with
  | .error f => "invalid url '" ++ text ++ "': " ++ f.message
  | .ok _ => "url '" ++ text ++ "' is outside the allowed base urls"

theorem any_base_iff {allowed : List String} {text : String} {target : Url}
    (htext : parse text = .ok target) :
    ((allowed.filterMap fun base => (parse base).toOption).any fun base =>
      base.sameOrigin target && isWithin base.path.text target.path.text) = true ↔
      Permitted allowed text := by
  have hread (entry : String) (base : Url) :
      (parse entry).toOption = some base ↔ parse entry = .ok base := by
    cases parse entry <;> simp [Except.toOption]
  simp only [List.any_eq_true, List.mem_filterMap, hread, Bool.and_eq_true, sameOrigin_iff,
    isWithin_iff]
  constructor
  · rintro ⟨base, ⟨entry, hentry, hbase⟩, hbelow⟩
    exact ⟨target, htext, entry, hentry, base, hbase, hbelow⟩
  · rintro ⟨target', htext', entry, hentry, base, hbase, hbelow⟩
    obtain rfl : target = target' := Except.ok.inj (htext.symm.trans htext')
    exact ⟨base, ⟨entry, hentry, hbase⟩, hbelow⟩

/-- A URL passes the check if it is allowed; otherwise the check says why it is refused. -/
theorem ensureAllowed_eq (allowed : List String) (text : String) :
    (Permitted allowed text ∧ ensureAllowed allowed text = .ok ()) ∨
      (¬ Permitted allowed text ∧
        ensureAllowed allowed text = .error (.http none (refusal text))) := by
  unfold ensureAllowed refusal
  cases htext : parse text with
  | error f =>
    refine .inr ⟨?_, rfl⟩
    rintro ⟨target, htarget, _⟩
    cases htext.symm.trans htarget
  | ok target =>
    by_cases hpermitted : Permitted allowed text
    · exact .inl ⟨hpermitted, if_pos ((any_base_iff htext).mpr hpermitted)⟩
    · exact .inr ⟨hpermitted, if_neg (mt (any_base_iff htext).mp hpermitted)⟩

theorem not_permitted {allowed : List String} (h : ∀ entry ∈ allowed, ∀ base, parse entry ≠ .ok base)
    (text : String) : ¬ Permitted allowed text := by
  rintro ⟨_, _, entry, hentry, base, hbase, _⟩
  exact h entry hentry base hbase

end Agents.Url
