import Agents.Text.Search
import Mathlib.Data.List.Infix

/-! # The leftmost occurrence

Where a pattern is found first: a split is at an occurrence that no other one precedes
(`splitAtFirst_eq_some_iff`), and there is none exactly if the pattern does not occur
(`splitAtFirst_eq_none_iff`). More text behind does not move an occurrence that was found
(`splitAtFirst_append_right`), and text in which no occurrence begins can be put before
(`splitAtFirst_append_left`).
-/

namespace Agents.Text

variable {pattern s t before after : List Char}

theorem splitAtFirst_nil_left (s : List Char) : splitAtFirst [] s = some ([], s) := by
  cases s <;> rfl

theorem splitAtFirst_of_begins {c : Char} (h : pattern <+: c :: s) :
    splitAtFirst pattern (c :: s) = some ([], (c :: s).drop pattern.length) := by
  rw [splitAtFirst, if_pos (List.isPrefixOf_iff_prefix.mpr h)]

theorem splitAtFirst_of_not_begins {c : Char} (h : ¬ pattern <+: c :: s) :
    splitAtFirst pattern (c :: s) =
      (splitAtFirst pattern s).map fun (before, after) => (c :: before, after) := by
  rw [splitAtFirst, if_neg (mt List.isPrefixOf_iff_prefix.mp h)]

theorem splitAtFirst_append_left (h : ∀ u v, s = u ++ v → v ≠ [] → ¬ pattern <+: v ++ t) :
    splitAtFirst pattern (s ++ t) =
      (splitAtFirst pattern t).map fun (before, after) => (s ++ before, after) := by
  induction s with
  | nil => simp
  | cons c s ih =>
    have hrest : ∀ u v, s = u ++ v → v ≠ [] → ¬ pattern <+: v ++ t :=
      fun u v hs => h (c :: u) v (by rw [hs, List.cons_append])
    have hc : ¬ pattern <+: c :: (s ++ t) := h [] (c :: s) rfl (List.cons_ne_nil c s)
    rw [List.cons_append, splitAtFirst_of_not_begins hc, ih hrest, Option.map_map]
    rfl

theorem splitAtFirst_append_right (h : splitAtFirst pattern s = some (before, after))
    (t : List Char) : splitAtFirst pattern (s ++ t) = some (before, after ++ t) := by
  induction s generalizing before with
  | nil =>
    simp only [splitAtFirst, Option.ite_none_right_eq_some, Option.some.injEq,
      Prod.mk.injEq] at h
    obtain ⟨rfl, rfl, rfl⟩ := h
    exact splitAtFirst_nil_left t
  | cons c s ih =>
    by_cases hc : pattern <+: c :: s
    · have hlonger : pattern <+: c :: (s ++ t) := hc.trans (List.prefix_append (c :: s) t)
      rw [splitAtFirst_of_begins hc, Option.some.injEq, Prod.mk.injEq] at h
      obtain ⟨rfl, rfl⟩ := h
      rw [List.cons_append, splitAtFirst_of_begins hlonger, ← List.cons_append,
        List.drop_append_of_le_length hc.length_le]
    · rw [splitAtFirst_of_not_begins hc, Option.map_eq_some_iff] at h
      obtain ⟨⟨front, rest⟩, hfront, heq⟩ := h
      cases heq
      -- an occurrence at the head of the longer text would not reach into `t`
      have hlonger : ¬ pattern <+: c :: (s ++ t) := by
        intro hhead
        have hlength := congrArg List.length (append_of_splitAtFirst hfront)
        simp only [List.length_append] at hlength
        exact hc (List.prefix_of_prefix_length_le hhead (List.prefix_append (c :: s) t)
          (by rw [List.length_cons]; omega))
      rw [List.cons_append, splitAtFirst_of_not_begins hlonger, ih hfront]
      rfl

theorem splitAtFirst_eq_none_iff : splitAtFirst pattern s = none ↔ ¬ pattern <:+: s := by
  induction s with
  | nil =>
    rw [List.infix_nil, splitAtFirst]
    split_ifs with h <;> simp [h]
  | cons c s ih =>
    rw [List.infix_cons_iff, not_or, ← ih]
    by_cases hc : pattern <+: c :: s
    · simp [splitAtFirst_of_begins hc, hc]
    · simp [splitAtFirst_of_not_begins hc, hc]

theorem length_le_of_splitAtFirst (h : splitAtFirst pattern s = some (before, after))
    {u v : List Char} (hs : s = u ++ pattern ++ v) : before.length ≤ u.length := by
  induction s generalizing before u with
  | nil =>
    obtain ⟨hnil, -⟩ := List.append_eq_nil_iff.mp (append_of_splitAtFirst h).symm
    rw [(List.append_eq_nil_iff.mp hnil).1]
    exact Nat.zero_le _
  | cons c s ih =>
    by_cases hc : pattern <+: c :: s
    · rw [splitAtFirst_of_begins hc, Option.some.injEq, Prod.mk.injEq] at h
      rw [← h.1]
      exact Nat.zero_le _
    · rw [splitAtFirst_of_not_begins hc, Option.map_eq_some_iff] at h
      obtain ⟨⟨front, rest⟩, hfront, heq⟩ := h
      cases heq
      cases u with
      | nil => exact absurd ⟨v, hs.symm⟩ hc
      | cons a u => exact Nat.succ_le_succ (ih hfront (List.cons.inj hs).2)

/-- The split is at the leftmost occurrence. -/
theorem splitAtFirst_eq_some_iff : splitAtFirst pattern s = some (before, after) ↔
    s = before ++ pattern ++ after ∧
      ∀ u v, s = u ++ pattern ++ v → before.length ≤ u.length := by
  constructor
  · intro h
    exact ⟨append_of_splitAtFirst h, fun u v => length_le_of_splitAtFirst h⟩
  · rintro ⟨hs, hleast⟩
    cases h : splitAtFirst pattern s with
    | none => exact absurd ⟨before, after, hs.symm⟩ (splitAtFirst_eq_none_iff.mp h)
    | some found =>
      obtain ⟨before', after'⟩ := found
      have hs' := append_of_splitAtFirst h
      have hlength : before.length = before'.length :=
        le_antisymm (hleast before' after' hs') (length_le_of_splitAtFirst h hs)
      rw [List.append_assoc] at hs hs'
      obtain ⟨rfl, hrest⟩ := List.append_inj (hs.symm.trans hs') hlength
      rw [List.append_cancel_left hrest]

end Agents.Text
