import Mathlib.Algebra.Group.Nat.Defs

/-! # Digits and marks

A text that is built of parts with a mark between them is taken apart at the marks again, as long
as no part holds the mark. Numbers are written with the digits of `Nat.toDigits`, with zeros before
them where a width is to be filled, and no mark is a digit. Without zeros before them a number has
one spelling (`toDigits_ofDigitChars`).
-/

namespace Agents.Text

/-! ## Taking apart -/

section Marks

variable {c : Char} {front back : List Char}

theorem kept_of_not_mem (h : c ∉ front) : ∀ d ∈ front, decide (d ≠ c) = true := by
  intro d hd
  exact decide_eq_true fun heq => h (heq ▸ hd)

theorem takeWhile_mark (h : c ∉ front) : (front ++ c :: back).takeWhile (· ≠ c) = front := by
  rw [List.takeWhile_append_of_pos (kept_of_not_mem h), List.takeWhile_cons_of_neg (by simp),
    List.append_nil]

theorem dropWhile_mark (h : c ∉ front) : (front ++ c :: back).dropWhile (· ≠ c) = c :: back := by
  rw [List.dropWhile_append_of_pos (kept_of_not_mem h), List.dropWhile_cons_of_neg (by simp)]

theorem takeWhile_no_mark (h : c ∉ front) : front.takeWhile (· ≠ c) = front := by
  have htake : (front ++ []).takeWhile (· ≠ c) = front ++ [].takeWhile (· ≠ c) :=
    List.takeWhile_append_of_pos (kept_of_not_mem h)
  simpa using htake

theorem dropWhile_no_mark (h : c ∉ front) : front.dropWhile (· ≠ c) = [] := by
  have hdrop : (front ++ []).dropWhile (· ≠ c) = [].dropWhile (· ≠ c) :=
    List.dropWhile_append_of_pos (kept_of_not_mem h)
  simpa using hdrop

theorem mark_inj {front' back' : List Char} (h : c ∉ front) (h' : c ∉ front') :
    front ++ c :: back = front' ++ c :: back' ↔ front = front' ∧ back = back' := by
  constructor
  · intro heq
    have hfront := congrArg (List.takeWhile (· ≠ c)) heq
    have hback := congrArg (List.dropWhile (· ≠ c)) heq
    rw [takeWhile_mark h, takeWhile_mark h'] at hfront
    rw [dropWhile_mark h, dropWhile_mark h'] at hback
    exact ⟨hfront, (List.cons.inj hback).2⟩
  · rintro ⟨rfl, rfl⟩
    rfl

end Marks

/-! ## Digits -/

def AllDigits (s : List Char) : Prop := ∀ c ∈ s, c.isDigit = true

theorem allDigits_toDigits (n : Nat) : AllDigits (Nat.toDigits 10 n) := fun _ hc =>
  Nat.isDigit_of_mem_toDigits (by decide) (by decide) hc

theorem AllDigits.append {s t : List Char} (hs : AllDigits s) (ht : AllDigits t) :
    AllDigits (s ++ t) := fun c hc => (List.mem_append.mp hc).elim (hs c) (ht c)

theorem AllDigits.not_mem {s : List Char} (h : AllDigits s) {c : Char} (hc : c.isDigit = false) :
    c ∉ s := fun hmem => Bool.false_ne_true (hc.symm.trans (h c hmem))

theorem toDigits_injective {m n : Nat} (h : Nat.toDigits 10 m = Nat.toDigits 10 n) : m = n := by
  have hread := congrArg (Nat.ofDigitChars 10 · 0) h
  simpa using hread

theorem exists_digitChar {c : Char} (h : c.isDigit = true) : ∃ d < 10, c = Nat.digitChar d := by
  obtain ⟨hlow, hhigh⟩ := Char.isDigit_iff_toNat.mp h
  simp only [Char.reduceToNat] at hlow hhigh
  refine ⟨c.toNat - 48, by omega, Char.toNat_inj.mp ?_⟩
  rw [Nat.toNat_digitChar_of_lt_ten (by omega)]
  omega

/-- Digits that follow those of a positive number are the last ones of what is then spelled. -/
theorem toDigits_append {s : List Char} (h : AllDigits s) {n : Nat} (hpos : 0 < n) :
    Nat.toDigits 10 n ++ s = Nat.toDigits 10 (Nat.ofDigitChars 10 s n) := by
  induction s generalizing n with
  | nil => rw [List.append_nil, Nat.ofDigitChars_nil]
  | cons c rest ih =>
    obtain ⟨hc, hrest⟩ := List.forall_mem_cons.mp h
    obtain ⟨d, hd, rfl⟩ := exists_digitChar hc
    rw [Nat.ofDigitChars_cons_digitChar_of_lt_ten hd, ← ih hrest (by omega),
      ← Nat.toDigits_append_toDigits (by decide) hpos hd, Nat.toDigits_of_lt_base hd,
      List.append_assoc]
    rfl

/-- Digits without zeros before them are those of the number that they spell. -/
theorem toDigits_ofDigitChars {s : List Char} (h : AllDigits s) (hne : s ≠ [])
    (hfirst : s.head? ≠ some '0' ∨ s.length = 1) :
    Nat.toDigits 10 (Nat.ofDigitChars 10 s 0) = s := by
  obtain ⟨c, rest, rfl⟩ := List.exists_cons_of_ne_nil hne
  obtain ⟨hc, hrest⟩ := List.forall_mem_cons.mp h
  obtain ⟨d, hd, rfl⟩ := exists_digitChar hc
  rw [Nat.ofDigitChars_cons_digitChar_of_lt_ten hd, Nat.mul_zero, Nat.zero_add]
  rcases Nat.eq_zero_or_pos d with rfl | hpos
  · obtain rfl : rest = [] := by simpa using hfirst
    rfl
  · rw [← toDigits_append hrest hpos, Nat.toDigits_of_lt_base hd]
    rfl

/-- The digits of a number after as many zeros as fill the width. -/
def paddedDigits (width n : Nat) : List Char :=
  List.replicate (width - (Nat.toDigits 10 n).length) '0' ++ Nat.toDigits 10 n

theorem allDigits_padded (width n : Nat) : AllDigits (paddedDigits width n) := by
  refine AllDigits.append (fun c hc => ?_) (allDigits_toDigits n)
  rw [List.eq_of_mem_replicate hc]
  decide

theorem le_length_padded (width n : Nat) : width ≤ (paddedDigits width n).length := by
  simp only [paddedDigits, List.length_append, List.length_replicate]
  omega

@[simp] theorem ofDigitChars_padded (width n : Nat) :
    Nat.ofDigitChars 10 (paddedDigits width n) 0 = n := by
  simp [paddedDigits, Nat.ofDigitChars_append]

theorem padded_injective {width m n : Nat} (h : paddedDigits width m = paddedDigits width n) :
    m = n := by
  have hread := congrArg (Nat.ofDigitChars 10 · 0) h
  simpa using hread

theorem length_padded {width n : Nat} (hwidth : 0 < width) (h : n < 10 ^ width) :
    (paddedDigits width n).length = width := by
  have hle := (Nat.length_toDigits_le_iff (b := 10) (by decide) hwidth).mpr h
  simp only [paddedDigits, List.length_append, List.length_replicate]
  omega

end Agents.Text
