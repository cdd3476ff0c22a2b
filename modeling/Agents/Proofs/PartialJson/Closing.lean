import Agents.Proofs.PartialJson.Scan

/-! # Closing the beginning of a document

From the end of a text blanks are dropped and then commas, but no character that belongs to a value
(`Solid`). So what stands before a value that has begun stays as it is, and its brackets are closed
after those of the value (`close_append`).
-/

namespace Agents.PartialJson

open Json

/-! ## Ends of texts -/

/-- A character that is not dropped from the end of a text. -/
def Solid (c : Char) : Prop := Text.isBlank c = false ∧ c ≠ ','

instance (c : Char) : Decidable (Solid c) := inferInstanceAs (Decidable (_ ∧ _))

theorem solid_of_isNumeric {c : Char} (h : isNumeric c = true) : Solid c := by
  simp only [isNumeric, Bool.or_eq_true, decide_eq_true_eq, or_assoc] at h
  rcases h with h | rfl | rfl | rfl | rfl | rfl
  · simp only [isDigit, Bool.and_eq_true, decide_eq_true_eq, Char.le_def,
      UInt32.le_iff_toNat_le] at h
    have hlow : 48 ≤ c.toNat := h.1
    have hhigh : c.toNat ≤ 57 := h.2
    constructor
    · simp [Text.isBlank]
      omega
    · rintro rfl
      exact absurd hlow (by decide)
  all_goals exact ⟨by decide, by decide⟩

theorem solid_of_isStart {c : Char} (h : isStart c = true) : Solid c := by
  by_cases hdigit : isDigit c = true
  · exact solid_of_isNumeric (isNumeric_of_isDigit hdigit)
  simp only [isStart, hdigit, Bool.or_eq_true, decide_eq_true_eq, or_assoc, or_false,
    Bool.false_eq_true] at h
  rcases h with rfl | rfl | rfl | rfl | rfl | rfl | rfl <;> exact ⟨by decide, by decide⟩

theorem solid_closer (kind : Container) : Solid kind.closer := by
  cases kind <;> exact ⟨by decide, by decide⟩

theorem isBlank_of_isBlank {c : Char} (h : Json.isBlank c = true) : Text.isBlank c = true := by
  rcases eq_of_isBlank h with rfl | rfl | rfl | rfl <;> decide

section Trailing

variable {p : Char → Bool}

theorem rdropWhile_append_of_all {b : List Char} (hb : ∀ c ∈ b, p c = true) (s : List Char) :
    (s ++ b).rdropWhile p = s.rdropWhile p := by
  rw [List.rdropWhile, List.rdropWhile, List.reverse_append,
    List.dropWhile_append_of_pos fun c hc => hb c (List.mem_reverse.mp hc)]

theorem rdropWhile_append_cons {c : Char} (hc : p c = false) (s z : List Char) :
    (s ++ c :: z).rdropWhile p = s ++ (c :: z).rdropWhile p := by
  induction z using List.reverseRecOn with
  | nil => rw [List.rdropWhile_concat, List.rdropWhile_singleton, hc]; rfl
  | append_singleton z x ih =>
    rw [← List.cons_append, ← List.append_assoc, List.rdropWhile_concat, List.rdropWhile_concat, ih]
    split <;> simp

theorem exists_rdropWhile_cons {c : Char} (hc : p c = false) (z : List Char) :
    ∃ z', (c :: z).rdropWhile p = c :: z' := by
  cases hdrop : (c :: z).rdropWhile p with
  | nil =>
    have hall := (List.rdropWhile_eq_nil_iff.mp hdrop) c List.mem_cons_self
    rw [hc] at hall
    cases hall
  | cons d z' =>
    have hpre : d :: z' <+: c :: z := hdrop ▸ List.rdropWhile_prefix p _
    exact ⟨z', by rw [(List.cons_prefix_cons.mp hpre).1]⟩

end Trailing

theorem dropTrailing_eq (s : List Char) :
    dropTrailing s = (s.rdropWhile Text.isBlank).rdropWhile (· = ',') := rfl

theorem dropTrailing_append {c : Char} (hc : Solid c) (s z : List Char) :
    dropTrailing (s ++ c :: z) = s ++ dropTrailing (c :: z) := by
  rw [dropTrailing_eq, dropTrailing_eq, rdropWhile_append_cons hc.1]
  obtain ⟨z', hz'⟩ := exists_rdropWhile_cons hc.1 z
  rw [hz', rdropWhile_append_cons (by simp [hc.2])]

theorem exists_dropTrailing_cons {c : Char} (hc : Solid c) (z : List Char) :
    ∃ z', dropTrailing (c :: z) = c :: z' := by
  rw [dropTrailing_eq]
  obtain ⟨z', hz'⟩ := exists_rdropWhile_cons hc.1 z
  rw [hz']
  exact exists_rdropWhile_cons (by simp [hc.2]) z'

/-- A text that ends with a character that is kept. -/
def EndsSolid (s : List Char) : Prop := ∃ s' c, s = s' ++ [c] ∧ Solid c

theorem EndsSolid.append {s : List Char} (h : EndsSolid s) (t : List Char) :
    EndsSolid (t ++ s) := by
  obtain ⟨s', c, rfl, hc⟩ := h
  exact ⟨t ++ s', c, by simp, hc⟩

theorem endsSolid_concat {c : Char} (hc : Solid c) (s : List Char) : EndsSolid (s ++ [c]) :=
  ⟨s, c, rfl, hc⟩

theorem all_isBlank {b : List Char} (hb : Blank b) : ∀ c ∈ b, Text.isBlank c = true :=
  fun c hc => isBlank_of_isBlank (hb c hc)

theorem dropTrailing_blank {s b : List Char} (hs : EndsSolid s) (hb : Blank b) :
    dropTrailing (s ++ b) = s := by
  obtain ⟨s', c, rfl, hblank, hcomma⟩ := hs
  rw [dropTrailing_eq, rdropWhile_append_of_all (all_isBlank hb),
    List.rdropWhile_concat_neg _ _ _ (by simp [hblank]),
    List.rdropWhile_concat_neg _ _ _ (by simp [hcomma])]

/-- Blanks after a comma and the comma are dropped, but not the blanks before it. -/
theorem dropTrailing_comma {s a b : List Char} (hs : EndsSolid s) (ha : Blank a) (hb : Blank b) :
    dropTrailing (s ++ (a ++ ',' :: b)) = s ++ a := by
  have hsplit : s ++ (a ++ ',' :: b) = (s ++ a) ++ [','] ++ b := by simp
  rw [hsplit, dropTrailing_eq, rdropWhile_append_of_all (all_isBlank hb),
    List.rdropWhile_concat_neg _ _ _ (by decide), List.rdropWhile_concat_pos _ _ _ (by decide)]
  rcases a.eq_nil_or_concat with rfl | ⟨a, x, rfl⟩
  · obtain ⟨s', c, rfl, -, hcomma⟩ := hs
    rw [List.append_nil, List.rdropWhile_concat_neg _ _ _ (by simp [hcomma])]
  · have hx : x ≠ ',' := by
      rintro rfl
      exact absurd (ha ',' (by simp)) (by decide)
    rw [List.concat_eq_append, ← List.append_assoc,
      List.rdropWhile_concat_neg _ _ _ (by simp [hx])]

/-! ## Closing -/

theorem close_eq {text : List Char} {s : Scan} (h : Leaves text s) :
    close text = dropTrailing (closeString s text) ++ s.closers := by
  rw [close, h.run]

theorem exists_closeString_cons {c : Char} (hc : isStart c = true) (s : Scan) (y : List Char) :
    ∃ d z, closeString s (c :: y) = d :: z ∧ isStart d = true := by
  unfold closeString
  cases y with
  | nil =>
    split_ifs
    · exact ⟨'"', [], rfl, rfl⟩
    · exact ⟨c, ['"'], rfl, hc⟩
    · exact ⟨c, [], rfl, hc⟩
  | cons d y =>
    split_ifs
    · exact ⟨c, _, rfl, hc⟩
    · exact ⟨c, _, rfl, hc⟩
    · exact ⟨c, _, rfl, hc⟩

theorem starts_close {y : List Char} {s : Scan} (hy : Leaves y s) (h : Starts y) :
    Starts (close y) := by
  obtain ⟨c, y, rfl, hc⟩ := h
  obtain ⟨d, z, hclose, hd⟩ := exists_closeString_cons hc s y
  obtain ⟨z', hz'⟩ := exists_dropTrailing_cons (solid_of_isStart hd) z
  rw [close_eq hy, hclose, hz']
  exact ⟨d, _, rfl, hd⟩

/-- What precedes a value stays as it is; its brackets are closed after those of the value. -/
theorem close_append {a cl y : List Char} {s : Scan} (ha : Leaves a { closers := cl })
    (hy : Leaves y s) (h : Starts y) : close (a ++ y) = a ++ (close y ++ cl) := by
  obtain ⟨c, y, rfl, hc⟩ := h
  have hstring : closeString (s.over cl) (a ++ c :: y) = a ++ closeString s (c :: y) := by
    unfold closeString Scan.over
    split_ifs <;> simp [List.dropLast_append_of_ne_nil]
  obtain ⟨d, z, hclose, hd⟩ := exists_closeString_cons hc s y
  rw [close_eq (ha.append hy), close_eq hy, hstring, hclose,
    dropTrailing_append (solid_of_isStart hd)]
  simp [Scan.over]

/-- Outside of strings a text is closed without what is dropped from its end. -/
theorem close_of_leaves {text cl : List Char} (h : Leaves text { closers := cl }) :
    close text = dropTrailing text ++ cl := close_eq h

theorem close_of_flat {text : List Char} (h : Leaves text {}) : close text = dropTrailing text := by
  rw [close_of_leaves h, List.append_nil]

end Agents.PartialJson
