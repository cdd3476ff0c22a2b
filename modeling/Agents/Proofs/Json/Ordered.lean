import Agents.Proofs.Json.Tree

/-! # Objects by their members

The members of an object are in ascending order of their keys (`ordered_ofList`), so an object is
known by what is found in it under each key (`ext_of_ordered`). While members stand as they were
written, what counts under a key is the last one of that name (`get?_ofList_eq_last?`).
-/

namespace Agents.Json.Fields

def Ordered (fields : Fields) : Prop := fields.Pairwise (·.1 < ·.1)

instance (fields : Fields) : Decidable fields.Ordered :=
  inferInstanceAs (Decidable (fields.Pairwise (·.1 < ·.1)))

theorem get?_cons_self (key : String) (v : Json) (rest : Fields) :
    get? key ((key, v) :: rest) = some v := if_pos rfl

theorem get?_cons_ne {key k : String} (h : k ≠ key) (v : Json) (rest : Fields) :
    get? key ((k, v) :: rest) = get? key rest := if_neg h

theorem get?_eq_none {key : String} {fields : Fields} (h : ∀ member ∈ fields, key < member.1) :
    get? key fields = none := by
  induction fields with
  | nil => rfl
  | cons head rest ih =>
    obtain ⟨k, v⟩ := head
    have hne : k ≠ key := by
      rintro rfl
      exact String.lt_irrefl k (h (k, v) List.mem_cons_self)
    rw [get?_cons_ne hne]
    exact ih fun member hmember => h member (List.mem_cons_of_mem _ hmember)

theorem get?_filter (keep : String → Bool) (key : String) (fields : Fields) :
    get? key (fields.filter fun member => keep member.1) =
      if keep key then get? key fields else none := by
  induction fields with
  | nil => simp
  | cons head rest ih =>
    obtain ⟨k, v⟩ := head
    rw [List.filter_cons]
    by_cases hkey : k = key
    · subst hkey
      cases hkeep : keep k with
      | true => simp [get?_cons_self]
      | false => simpa [hkeep] using ih
    · rw [get?_cons_ne hkey, ← ih]
      split
      · exact get?_cons_ne hkey v _
      · rfl

/-- The first key of one object is not below the first key of another with the same members. -/
theorem not_lt_of_get?_eq {k l : String} {v w : Json} {as bs : Fields}
    (hb : Ordered ((l, w) :: bs))
    (h : ∀ key, get? key ((k, v) :: as) = get? key ((l, w) :: bs)) : ¬ k < l := by
  intro hlt
  have hnone : get? k ((l, w) :: bs) = none := by
    refine get?_eq_none fun member hmember => ?_
    rcases List.mem_cons.mp hmember with rfl | hmember
    · exact hlt
    · exact String.lt_trans hlt ((List.pairwise_cons.mp hb).1 member hmember)
  have hsome := h k
  rw [get?_cons_self, hnone] at hsome
  cases hsome

theorem ext_of_ordered {a b : Fields} (ha : a.Ordered) (hb : b.Ordered)
    (h : ∀ key, get? key a = get? key b) : a = b := by
  induction a generalizing b with
  | nil =>
    match b with
    | [] => rfl
    | (l, w) :: bs =>
      have hfound := h l
      rw [get?_cons_self] at hfound
      cases hfound
  | cons head as ih =>
    obtain ⟨k, v⟩ := head
    match b with
    | [] =>
      have hfound := h k
      rw [get?_cons_self] at hfound
      cases hfound
    | (l, w) :: bs =>
      obtain rfl : k = l := String.le_antisymm
        (String.not_lt.mp (not_lt_of_get?_eq ha fun key => (h key).symm))
        (String.not_lt.mp (not_lt_of_get?_eq hb h))
      have hvalue := h k
      rw [get?_cons_self, get?_cons_self] at hvalue
      obtain ⟨hk, has⟩ := List.pairwise_cons.mp ha
      obtain ⟨hl, hbs⟩ := List.pairwise_cons.mp hb
      have hrest : as = bs := by
        refine ih has hbs fun key => ?_
        by_cases hkey : k = key
        · subst hkey
          rw [get?_eq_none hk, get?_eq_none hl]
        · have hsame := h key
          rwa [get?_cons_ne hkey, get?_cons_ne hkey] at hsame
      rw [Option.some.inj hvalue, hrest]

theorem ordered_insert {fields : Fields} (h : fields.Ordered) (key : String) (value : Json) :
    (insert key value fields).Ordered := by
  induction fields with
  | nil => exact List.pairwise_singleton _ _
  | cons head rest ih =>
    obtain ⟨k, v⟩ := head
    obtain ⟨hk, hrest⟩ := List.pairwise_cons.mp h
    unfold insert
    split_ifs with hlt heq
    · refine List.pairwise_cons.mpr ⟨fun member hmember => ?_, h⟩
      rcases List.mem_cons.mp hmember with rfl | hmember
      · exact hlt
      · exact String.lt_trans hlt (hk member hmember)
    · subst heq
      exact List.pairwise_cons.mpr ⟨hk, hrest⟩
    · refine List.pairwise_cons.mpr ⟨fun member hmember => ?_, ih hrest⟩
      rcases mem_of_mem_insert hmember with rfl | hmember
      · exact String.not_le.mp fun hle => heq (String.le_antisymm (String.not_lt.mp hlt) hle)
      · exact hk member hmember

theorem ordered_ofList (members : List (String × Json)) : (ofList members).Ordered := by
  induction members using List.reverseRecOn with
  | nil => exact List.Pairwise.nil
  | append_singleton members last ih =>
    rw [ofList, List.foldl_append]
    exact ordered_insert ih last.1 last.2

/-! ## Members as they were written -/

/-- What counts under a key while the members stand as they were written. -/
def last? (key : String) (fields : Fields) : Option Json := get? key fields.reverse

@[simp] theorem last?_nil (key : String) : last? key [] = none := rfl

theorem last?_concat (key k : String) (v : Json) (fields : Fields) :
    last? key (fields ++ [(k, v)]) = if k = key then some v else last? key fields := by
  rw [last?, List.reverse_concat, get?_cons, last?]

theorem get?_ofList_eq_last? (key : String) (fields : Fields) :
    get? key (ofList fields) = last? key fields := by
  induction fields using List.reverseRecOn with
  | nil => rfl
  | append_singleton fields member ih => rw [get?_ofList_append, last?_concat, ih]

theorem last?_eq_getLast? (key : String) (fields : Fields) :
    last? key fields = (fields.filter fun member => member.1 = key).getLast?.map (·.2) := by
  induction fields using List.reverseRecOn with
  | nil => rfl
  | append_singleton fields member ih =>
    rw [last?_concat, List.filter_append]
    by_cases hkey : member.1 = key
    · simp [hkey]
    · simp [hkey, ih]

theorem mem_of_last? {key : String} {fields : Fields} {v : Json} (h : last? key fields = some v) :
    (key, v) ∈ fields := List.mem_reverse.mp (mem_of_get? h)

end Agents.Json.Fields
