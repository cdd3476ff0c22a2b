import Agents.Extraction
import Agents.Proofs.Text.Search
import Mathlib.Data.List.Induction

/-! # What an extractor makes of a text

How a text is cut into fragments does not matter: what is given out for the fragments, with
neighbouring texts joined, is the canonical split of the whole text (`extraction_canonical`).

One step carries this: to take two fragments one after the other is to take them as one
(`push_append`). What is held back outside of a block is the longest tail that could begin a
delimiter, so no occurrence of the delimiter begins before it, whatever comes behind
(`not_prefix_of_held`).
-/

namespace Agents

/-- Neither delimiter is empty. -/
structure Delimiters.Proper (d : Delimiters) : Prop where
  start_ne : d.start ≠ []
  finish_ne : d.finish ≠ []

theorem Delimiters.proper_iff {d : Delimiters} : d.Proper ↔ d.isTrivial = false := by
  rw [isTrivial, Bool.or_eq_false_iff, List.isEmpty_eq_false_iff, List.isEmpty_eq_false_iff]
  exact ⟨fun h => ⟨h.start_ne, h.finish_ne⟩, fun h => ⟨h.1, h.2⟩⟩

namespace Extractor

variable {d : Delimiters}

/-! ## Joining texts -/

/-- A text put before chunks, with the first of them if that is a text too. -/
def joinText (s : List Char) : List ExtractChunk → List ExtractChunk
  | .text t :: rest => .text (s ++ t) :: rest
  | chunks => .text s :: chunks

@[simp] theorem mergeText_nil : mergeText [] = [] := rfl

@[simp] theorem mergeText_text (s : List Char) (rest : List ExtractChunk) :
    mergeText (.text s :: rest) = joinText s (mergeText rest) := by
  rw [mergeText]
  cases mergeText rest with
  | nil => rfl
  | cons chunk rest => cases chunk <;> rfl

@[simp] theorem mergeText_block (s : List Char) (rest : List ExtractChunk) :
    mergeText (.block s :: rest) = .block s :: mergeText rest := rfl

@[simp] theorem joinText_text (s t : List Char) (rest : List ExtractChunk) :
    joinText s (.text t :: rest) = .text (s ++ t) :: rest := rfl

@[simp] theorem joinText_block (s t : List Char) (rest : List ExtractChunk) :
    joinText s (.block t :: rest) = .text s :: .block t :: rest := rfl

@[simp] theorem joinText_joinText (s t : List Char) (chunks : List ExtractChunk) :
    joinText s (joinText t chunks) = joinText (s ++ t) chunks := by
  cases chunks with
  | nil => rfl
  | cons chunk rest => cases chunk <;> simp

theorem mergeText_joinText_append (s : List Char) (xs ys : List ExtractChunk) :
    mergeText (joinText s xs ++ ys) = joinText s (mergeText (xs ++ ys)) := by
  cases xs with
  | nil => exact mergeText_text s ys
  | cons chunk rest => cases chunk <;> simp

theorem mergeText_mergeText_append (xs ys : List ExtractChunk) :
    mergeText (mergeText xs ++ ys) = mergeText (xs ++ ys) := by
  induction xs with
  | nil => rfl
  | cons chunk xs ih => cases chunk <;> simp [mergeText_joinText_append, ih]

@[simp] theorem mergeText_mergeText (chunks : List ExtractChunk) :
    mergeText (mergeText chunks) = mergeText chunks := by
  simpa using mergeText_mergeText_append chunks []

theorem mergeText_append_mergeText (xs ys : List ExtractChunk) :
    mergeText (xs ++ mergeText ys) = mergeText (xs ++ ys) := by
  induction xs with
  | nil => exact mergeText_mergeText ys
  | cons chunk xs ih => cases chunk <;> simp [ih]

theorem mergeText_append_congr {xs xs' ys ys' : List ExtractChunk}
    (hx : mergeText xs = mergeText xs') (hy : mergeText ys = mergeText ys') :
    mergeText (xs ++ ys) = mergeText (xs' ++ ys') := by
  rw [← mergeText_mergeText_append, hx, mergeText_mergeText_append, ← mergeText_append_mergeText,
    hy, mergeText_append_mergeText]

@[simp] theorem textChunk_nil : textChunk [] = [] := rfl

@[simp] theorem textChunk_cons (c : Char) (s : List Char) :
    textChunk (c :: s) = [.text (c :: s)] := rfl

theorem mergeText_textChunk_append (s t : List Char) (rest : List ExtractChunk) :
    mergeText (textChunk (s ++ t) ++ rest) = mergeText (textChunk s ++ (textChunk t ++ rest)) := by
  cases s with
  | nil => simp
  | cons c s => cases t <;> simp

/-! ## What is held back -/

section Held

variable {delimiter s t : List Char}

theorem find?_range_reverse {p : Nat → Bool} (n : Nat) :
    (∃ k, (List.range n).reverse.find? p = some k ∧ k < n ∧ p k ∧ ∀ j < n, p j → j ≤ k) ∨
      (List.range n).reverse.find? p = none ∧ ∀ j < n, ¬ p j := by
  induction n with
  | zero => exact .inr ⟨rfl, nofun⟩
  | succ n ih =>
    rw [List.range_succ, List.reverse_concat, List.find?_cons]
    cases hn : p n with
    | true => exact .inl ⟨n, rfl, Nat.lt_succ_self n, hn, fun j hj _ => Nat.le_of_lt_succ hj⟩
    | false =>
      have hne {j : Nat} (hp : p j) : j ≠ n := by
        rintro rfl
        rw [hn] at hp
        cases hp
      rcases ih with ⟨k, hk, hlt, hpk, hmax⟩ | ⟨hnone, hall⟩
      · exact .inl ⟨k, hk, Nat.lt_succ_of_lt hlt, hpk, fun j hj hp => hmax j (by grind) hp⟩
      · exact .inr ⟨hnone, fun j hj hp => hall j (by grind) hp⟩

/-- The held tail is a proper prefix of the delimiter, and no longer tail is one. -/
theorem heldLength_spec (h : delimiter ≠ []) (s : List Char) :
    heldLength delimiter s < delimiter.length ∧ delimiter.take (heldLength delimiter s) <:+ s ∧
      ∀ j < delimiter.length, delimiter.take j <:+ s → j ≤ heldLength delimiter s := by
  have hpos := List.length_pos_of_ne_nil h
  unfold heldLength
  rcases find?_range_reverse (p := fun k => (delimiter.take k).isSuffixOf s) delimiter.length with
    ⟨k, hk, hlt, hp, hmax⟩ | ⟨-, hall⟩
  · rw [hk]
    exact ⟨hlt, List.isSuffixOf_iff_suffix.mp hp,
      fun j hj hsuffix => hmax j hj (List.isSuffixOf_iff_suffix.mpr hsuffix)⟩
  · exact absurd (List.isSuffixOf_iff_suffix.mpr (List.nil_suffix : [] <:+ s)) (hall 0 hpos)

theorem heldLength_le (h : delimiter ≠ []) (s : List Char) : heldLength delimiter s ≤ s.length := by
  obtain ⟨hlt, hsuffix, -⟩ := heldLength_spec h s
  simpa [Nat.le_of_lt hlt] using hsuffix.length_le

/-- No occurrence of the delimiter begins in `s`, or can still begin there, if `t` comes behind. -/
def Settled (delimiter s t : List Char) : Prop :=
  ∀ u v, s = u ++ v → v ≠ [] → ¬ v ++ t <+: delimiter ∧ ¬ delimiter <+: v ++ t

theorem Settled.append (h : Settled delimiter s t) (more : List Char) :
    Settled delimiter s (t ++ more) := by
  intro u v hs hv
  obtain ⟨hshort, hlong⟩ := h u v hs hv
  have hbegins : v ++ t <+: v ++ (t ++ more) := ⟨more, List.append_assoc v t more⟩
  exact ⟨fun hle => hshort (hbegins.trans hle),
    fun hle => (List.prefix_or_prefix_of_prefix hbegins hle).elim hshort hlong⟩

theorem settled_of_held (h : delimiter ≠ []) (habsent : ¬ delimiter <:+: s ++ t)
    (hheld : t.length = heldLength delimiter (s ++ t)) : Settled delimiter s t := by
  intro u v hs hv
  have hpart : v ++ t <:+ s ++ t := ⟨u, by rw [hs, List.append_assoc]⟩
  refine ⟨fun hle => ?_, fun hle => habsent (hle.isInfix.trans hpart.isInfix)⟩
  rcases Nat.lt_or_ge (v ++ t).length delimiter.length with hlt | hge
  · have hmax := (heldLength_spec h (s ++ t)).2.2 _ hlt
      (by rwa [← List.prefix_iff_eq_take.mp hle])
    rw [List.length_append] at hmax
    have hpos := List.length_pos_of_ne_nil hv
    omega
  · exact habsent ((hle.eq_of_length_le hge) ▸ hpart.isInfix)

theorem Settled.splitAtFirst_eq (h : Settled delimiter s t) :
    Text.splitAtFirst delimiter (s ++ t) =
      (Text.splitAtFirst delimiter t).map fun (before, after) => (s ++ before, after) :=
  Text.splitAtFirst_append_left fun u v hs hv => (h u v hs hv).2

theorem Settled.heldLength_eq (hne : delimiter ≠ []) (h : Settled delimiter s t) :
    heldLength delimiter (s ++ t) = heldLength delimiter t := by
  obtain ⟨hlt, hsuffix, hmax⟩ := heldLength_spec hne (s ++ t)
  obtain ⟨hlt', hsuffix', hmax'⟩ := heldLength_spec hne t
  refine Nat.le_antisymm (hmax' _ hlt ?_) (hmax _ hlt' (hsuffix'.trans (List.suffix_append s t)))
  rcases List.suffix_or_suffix_of_suffix hsuffix (List.suffix_append s t) with hshort | hlong
  · exact hshort
  -- a tail that is longer than `t` would begin in `s`
  · obtain ⟨v, hv⟩ := hlong
    obtain ⟨u, hu⟩ := hsuffix
    rw [← hv, ← List.append_assoc] at hu
    by_cases hnil : v = []
    · rw [← hv, hnil]
      exact List.suffix_rfl
    · have hbegins : v ++ t <+: delimiter := hv ▸ List.take_prefix _ _
      exact absurd hbegins (h u v (List.append_cancel_right hu).symm hnil).1

end Held

/-! ## Splitting as far as it goes -/

theorem length_lt_of_splitAtFirst {pattern s before after : List Char} (hne : pattern ≠ [])
    (h : Text.splitAtFirst pattern s = some (before, after)) : after.length < s.length := by
  have hpos := List.length_pos_of_ne_nil hne
  have hlength := congrArg List.length (Text.append_of_splitAtFirst h)
  simp only [List.length_append] at hlength
  omega

theorem scan_fuel (hd : d.Proper) {m n : Nat} {inBlock : Bool} {s : List Char} (hm : s.length < m)
    (hn : s.length < n) : scan d m inBlock s = scan d n inBlock s := by
  induction m generalizing n inBlock s with
  | zero => cases hm
  | succ m ih =>
    obtain ⟨n, rfl⟩ := Nat.exists_eq_succ_of_ne_zero (Nat.ne_zero_of_lt hn)
    cases inBlock with
    | false =>
      rw [scan, scan]
      cases h : Text.splitAtFirst d.start s with
      | none => rfl
      | some found =>
        have hlt := length_lt_of_splitAtFirst hd.start_ne h
        dsimp only
        rw [ih (by omega) (show found.2.length < n by omega)]
    | true =>
      rw [scan, scan]
      cases h : Text.splitAtFirst d.finish s with
      | none => rfl
      | some found =>
        have hlt := length_lt_of_splitAtFirst hd.finish_ne h
        dsimp only
        rw [ih (by omega) (show found.2.length < n by omega)]

/-- What is given out of a buffer, and where that leaves the extractor. -/
def run (d : Delimiters) (inBlock : Bool) (s : List Char) : List ExtractChunk × Bool × List Char :=
  scan d (s.length + 1) inBlock s

section Run

variable {s before after : List Char}

theorem run_open (hd : d.Proper) (h : Text.splitAtFirst d.start s = some (before, after)) :
    run d false s = (textChunk before ++ (run d true after).1, (run d true after).2) := by
  have hlt := length_lt_of_splitAtFirst hd.start_ne h
  rw [run, scan, h]
  dsimp only
  rw [scan_fuel hd hlt (Nat.lt_succ_self _)]
  rfl

theorem run_text (h : Text.splitAtFirst d.start s = none) :
    run d false s = (textChunk (s.take (s.length - heldLength d.start s)), false,
      s.drop (s.length - heldLength d.start s)) := by
  rw [run, scan, h]

theorem run_close (hd : d.Proper) (h : Text.splitAtFirst d.finish s = some (before, after)) :
    run d true s = (.block before :: (run d false after).1, (run d false after).2) := by
  have hlt := length_lt_of_splitAtFirst hd.finish_ne h
  rw [run, scan, h]
  dsimp only
  rw [scan_fuel hd hlt (Nat.lt_succ_self _)]
  rfl

theorem run_block (h : Text.splitAtFirst d.finish s = none) : run d true s = ([], true, s) := by
  rw [run, scan, h]

/-- Text before which no delimiter is awaited any more is given out. -/
theorem run_settled (hd : d.Proper) {s t : List Char} (h : Settled d.start s t) :
    mergeText (run d false (s ++ t)).1 = mergeText (textChunk s ++ (run d false t).1) ∧
      (run d false (s ++ t)).2 = (run d false t).2 := by
  cases ht : Text.splitAtFirst d.start t with
  | none =>
    have hst : Text.splitAtFirst d.start (s ++ t) = none := by rw [h.splitAtFirst_eq, ht]; rfl
    have hle := heldLength_le hd.start_ne t
    have hready : (s ++ t).length - heldLength d.start (s ++ t) =
        s.length + (t.length - heldLength d.start t) := by
      rw [h.heldLength_eq hd.start_ne, List.length_append]
      omega
    rw [run_text hst, run_text ht, hready, List.take_length_add_append,
      List.drop_length_add_append]
    refine ⟨?_, rfl⟩
    simpa using mergeText_textChunk_append s (t.take (t.length - heldLength d.start t)) []
  | some found =>
    obtain ⟨before, after⟩ := found
    have hst : Text.splitAtFirst d.start (s ++ t) = some (s ++ before, after) := by
      rw [h.splitAtFirst_eq, ht]
      rfl
    rw [run_open hd hst, run_open hd ht]
    exact ⟨mergeText_textChunk_append s before _, rfl⟩

/-- To go on with more text is to start with all of it. -/
theorem run_append (hd : d.Proper) (inBlock : Bool) (s t : List Char) :
    mergeText (run d inBlock (s ++ t)).1 =
        mergeText ((run d inBlock s).1 ++
          (run d (run d inBlock s).2.1 ((run d inBlock s).2.2 ++ t)).1) ∧
      (run d inBlock (s ++ t)).2 =
        (run d (run d inBlock s).2.1 ((run d inBlock s).2.2 ++ t)).2 := by
  induction hlength : s.length using Nat.strong_induction_on generalizing inBlock s with
  | _ n ih =>
  cases inBlock with
  | false =>
    cases h : Text.splitAtFirst d.start s with
    | none =>
      set ready := s.length - heldLength d.start s with hready
      have hs : s.take ready ++ s.drop ready = s := List.take_append_drop ready s
      have hsettled : Settled d.start (s.take ready) (s.drop ready) := by
        refine settled_of_held hd.start_ne ?_ ?_
        · rw [hs]
          exact Text.splitAtFirst_eq_none_iff.mp h
        · have hle := heldLength_le hd.start_ne s
          rw [hs, List.length_drop]
          omega
      have hrun := run_settled hd (hsettled.append t)
      rw [← List.append_assoc, hs] at hrun
      rw [run_text h]
      exact hrun
    | some found =>
      obtain ⟨before, after⟩ := found
      have hlt := length_lt_of_splitAtFirst hd.start_ne h
      obtain ⟨hchunks, hstate⟩ := ih after.length (hlength ▸ hlt) true after rfl
      rw [run_open hd h, run_open hd (Text.splitAtFirst_append_right h t)]
      refine ⟨?_, hstate⟩
      rw [List.append_assoc]
      exact mergeText_append_congr rfl hchunks
  | true =>
    cases h : Text.splitAtFirst d.finish s with
    | none =>
      rw [run_block h]
      exact ⟨rfl, rfl⟩
    | some found =>
      obtain ⟨contents, after⟩ := found
      have hlt := length_lt_of_splitAtFirst hd.finish_ne h
      obtain ⟨hchunks, hstate⟩ := ih after.length (hlength ▸ hlt) false after rfl
      rw [run_close hd h, run_close hd (Text.splitAtFirst_append_right h t)]
      refine ⟨?_, hstate⟩
      exact congrArg (.block contents :: ·) hchunks

end Run

/-! ## The canonical split -/

/-- Splits a whole text: up to the leftmost start delimiter it is text, from there to the leftmost
end delimiter it is a block, and so on behind that. A block that is not closed ends with the
text. -/
def canonical (d : Delimiters) (s : List Char) : List ExtractChunk :=
  if _ : d.isTrivial then textChunk s
  else match _ : Text.splitAtFirst d.start s with
    | none => textChunk s
    | some (before, after) => textChunk before ++
      match _ : Text.splitAtFirst d.finish after with
      | none => if after.isEmpty then [] else [.block after]
      | some (contents, rest) => .block contents :: canonical d rest
termination_by s.length
decreasing_by
  rename_i hd hstart hfinish
  have hproper := Delimiters.proper_iff.mpr (Bool.eq_false_iff.mpr hd)
  exact (length_lt_of_splitAtFirst hproper.finish_ne hfinish).trans
    (length_lt_of_splitAtFirst hproper.start_ne hstart)

/-- What becomes of the text behind a start delimiter. -/
def closing (d : Delimiters) (s : List Char) : List ExtractChunk :=
  match Text.splitAtFirst d.finish s with
  | none => if s.isEmpty then [] else [.block s]
  | some (contents, rest) => .block contents :: canonical d rest

section Canonical

variable {s before after : List Char}

theorem canonical_trivial (hd : d.isTrivial = true) (s : List Char) :
    canonical d s = textChunk s := by
  rw [canonical, dif_pos hd]

theorem canonical_text (h : Text.splitAtFirst d.start s = none) : canonical d s = textChunk s := by
  rw [canonical]
  split_ifs
  · rfl
  · split
    · rfl
    · next hsome => cases h.symm.trans hsome

theorem canonical_open (hd : d.Proper) (h : Text.splitAtFirst d.start s = some (before, after)) :
    canonical d s = textChunk before ++ closing d after := by
  rw [canonical, dif_neg (Bool.eq_false_iff.mp (Delimiters.proper_iff.mp hd))]
  split
  · next hnone => cases h.symm.trans hnone
  · next hsome =>
    cases h.symm.trans hsome
    rw [closing]
    split <;> simp_all

/-- A text does not run into what follows a start delimiter. -/
theorem mergeText_textChunk_closing (s t : List Char) :
    mergeText (textChunk s ++ closing d t) = textChunk s ++ mergeText (closing d t) := by
  cases s with
  | nil => rfl
  | cons c s =>
    unfold closing
    split
    · split <;> rfl
    · rfl

theorem mergeText_textChunk (s : List Char) : mergeText (textChunk s) = textChunk s := by
  cases s <;> rfl

theorem run_finish (hd : d.Proper) (inBlock : Bool) (s : List Char) :
    mergeText ((run d inBlock s).1 ++
        (finish ⟨d, (run d inBlock s).2.1, (run d inBlock s).2.2⟩).1) =
      if inBlock then closing d s else canonical d s := by
  induction hlength : s.length using Nat.strong_induction_on generalizing inBlock s with
  | _ n ih =>
  cases inBlock with
  | false =>
    rw [if_neg Bool.false_ne_true]
    cases h : Text.splitAtFirst d.start s with
    | none =>
      rw [run_text h, canonical_text h]
      have hmerge := mergeText_textChunk_append (s.take (s.length - heldLength d.start s))
        (s.drop (s.length - heldLength d.start s)) []
      rw [List.take_append_drop, List.append_nil, List.append_nil, mergeText_textChunk] at hmerge
      exact hmerge.symm
    | some found =>
      obtain ⟨before, after⟩ := found
      have hlt := length_lt_of_splitAtFirst hd.start_ne h
      have hrest := ih after.length (hlength ▸ hlt) true after rfl
      rw [if_pos rfl] at hrest
      rw [run_open hd h, canonical_open hd h, List.append_assoc, ← mergeText_append_mergeText,
        hrest, mergeText_textChunk_closing, ← hrest, mergeText_mergeText]
  | true =>
    rw [if_pos rfl]
    cases h : Text.splitAtFirst d.finish s with
    | none =>
      rw [run_block h, closing, h]
      cases s <;> rfl
    | some found =>
      obtain ⟨contents, after⟩ := found
      have hlt := length_lt_of_splitAtFirst hd.finish_ne h
      have hrest := ih after.length (hlength ▸ hlt) false after rfl
      rw [run_close hd h, closing, h]
      exact congrArg (.block contents :: ·) hrest

end Canonical

/-! ## Fragments -/

def pushAll (e : Extractor) : List (List Char) → List ExtractChunk × Extractor
  | [] => ([], e)
  | fragment :: rest =>
    ((e.push fragment).1 ++ ((e.push fragment).2.pushAll rest).1,
      ((e.push fragment).2.pushAll rest).2)

theorem push_trivial {e : Extractor} (hd : e.delimiters.isTrivial = true) (s : List Char) :
    e.push s = (textChunk s, e) := if_pos hd

theorem push_proper (hd : d.Proper) (inBlock : Bool) (buffer s : List Char) :
    push ⟨d, inBlock, buffer⟩ s = ((run d inBlock (buffer ++ s)).1,
      ⟨d, (run d inBlock (buffer ++ s)).2.1, (run d inBlock (buffer ++ s)).2.2⟩) :=
  if_neg (Bool.eq_false_iff.mp (Delimiters.proper_iff.mp hd))

theorem push_append (e : Extractor) (s t : List Char) :
    mergeText (e.push (s ++ t)).1 = mergeText ((e.push s).1 ++ ((e.push s).2.push t).1) ∧
      (e.push (s ++ t)).2 = ((e.push s).2.push t).2 := by
  cases hd : e.delimiters.isTrivial with
  | true =>
    simp only [push_trivial hd]
    exact ⟨by simpa using mergeText_textChunk_append s t [], trivial⟩
  | false =>
    obtain ⟨d, inBlock, buffer⟩ := e
    have hproper : d.Proper := Delimiters.proper_iff.mpr hd
    obtain ⟨hchunks, hstate⟩ := run_append hproper inBlock (buffer ++ s) t
    rw [push_proper hproper, push_proper hproper, push_proper hproper, ← List.append_assoc, hstate]
    exact ⟨hchunks, rfl⟩

theorem pushAll_cons (e : Extractor) (fragment : List Char) (rest : List (List Char)) :
    mergeText (e.pushAll (fragment :: rest)).1 = mergeText (e.push (fragment ++ rest.flatten)).1 ∧
      (e.pushAll (fragment :: rest)).2 = (e.push (fragment ++ rest.flatten)).2 := by
  induction rest generalizing e fragment with
  | nil => simp [pushAll]
  | cons next rest ih =>
    obtain ⟨hchunks, hstate⟩ := ih (e.push fragment).2 next
    obtain ⟨hboth, hafter⟩ := push_append e fragment (next ++ rest.flatten)
    rw [List.flatten_cons, hboth, hafter]
    exact ⟨mergeText_append_congr rfl hchunks, hstate⟩

theorem push_new_nil (d : Delimiters) : (new d).push [] = ([], new d) := by
  cases hd : d.isTrivial with
  | true => exact push_trivial hd []
  | false =>
    have hproper := Delimiters.proper_iff.mpr hd
    have hnone : Text.splitAtFirst d.start [] = none := if_neg hproper.start_ne
    rw [new, push_proper hproper]
    simp [run_text hnone]

/-- A new extractor takes fragments as if they were one; there may also be none. -/
theorem pushAll_new (d : Delimiters) (fragments : List (List Char)) :
    mergeText ((new d).pushAll fragments).1 = mergeText ((new d).push fragments.flatten).1 ∧
      ((new d).pushAll fragments).2 = ((new d).push fragments.flatten).2 := by
  cases fragments with
  | nil =>
    rw [List.flatten_nil, push_new_nil]
    exact ⟨rfl, rfl⟩
  | cons fragment rest => exact pushAll_cons (new d) fragment rest

/-! ## Whole texts -/

/-- Takes fragments and gives out what is held at the end. -/
def splitAll (e : Extractor) (fragments : List (List Char)) : List ExtractChunk × Extractor :=
  let (chunks, e) := e.pushAll fragments
  let (rest, e) := e.finish
  (chunks ++ rest, e)

theorem finish_push_new (d : Delimiters) (s : List Char) : ((new d).push s).2.finish.2 = new d := by
  cases hd : d.isTrivial with
  | true =>
    rw [push_trivial hd]
    rfl
  | false =>
    rw [new, push_proper (Delimiters.proper_iff.mpr hd)]
    rfl

theorem mergeText_push_finish (d : Delimiters) (s : List Char) :
    mergeText (((new d).push s).1 ++ ((new d).push s).2.finish.1) = canonical d s := by
  cases hd : d.isTrivial with
  | true =>
    rw [push_trivial hd, canonical_trivial hd]
    show mergeText (textChunk s ++ []) = _
    rw [List.append_nil, mergeText_textChunk]
  | false =>
    have hproper := Delimiters.proper_iff.mpr hd
    rw [new, push_proper hproper]
    exact run_finish hproper false s

theorem canonical_eq (d : Delimiters) (s : List Char) :
    canonical d s = ((new d).extractAll s).1 := (mergeText_push_finish d s).symm

theorem mergeText_splitAll_new (d : Delimiters) (fragments : List (List Char)) :
    mergeText ((new d).splitAll fragments).1 = canonical d fragments.flatten := by
  obtain ⟨hchunks, hstate⟩ := pushAll_new d fragments
  show mergeText (((new d).pushAll fragments).1 ++ ((new d).pushAll fragments).2.finish.1) = _
  rw [hstate, ← mergeText_push_finish]
  exact mergeText_append_congr hchunks rfl

theorem splitAll_new_eq_new (d : Delimiters) (fragments : List (List Char)) :
    ((new d).splitAll fragments).2 = new d := by
  show ((new d).pushAll fragments).2.finish.2 = _
  rw [(pushAll_new d fragments).2, finish_push_new]

/-- However a text is cut, its fragments are split like the whole text, and the extractor is as new
again. -/
theorem extraction_canonical (d : Delimiters) (fragments : List (List Char)) :
    mergeText ((new d).splitAll fragments).1 = canonical d fragments.flatten ∧
      ((new d).splitAll fragments).2 = new d ∧
      (new d).extractAll fragments.flatten = (canonical d fragments.flatten, new d) :=
  ⟨mergeText_splitAll_new d fragments, splitAll_new_eq_new d fragments,
    Prod.ext (canonical_eq d _).symm (finish_push_new d _)⟩

/-! ## Streams -/

theorem extractStream_append {ε : Type} (e : Extractor) (fragments : List (List Char))
    (rest : List (Except ε (List Char))) :
    e.extractStream (fragments.map .ok ++ rest) =
      (e.pushAll fragments).1.map .ok ++ (e.pushAll fragments).2.extractStream rest := by
  induction fragments generalizing e with
  | nil => rfl
  | cons fragment fragments ih =>
    rw [List.map_cons, List.cons_append, extractStream_cons_ok, pushAll]
    dsimp only
    rw [ih, List.map_append, List.append_assoc]

theorem extractStream_ok {ε : Type} (e : Extractor) (fragments : List (List Char)) :
    e.extractStream (fragments.map (.ok : List Char → Except ε (List Char))) =
      (e.splitAll fragments).1.map .ok := by
  have happend := extractStream_append e fragments ([] : List (Except ε (List Char)))
  rw [List.append_nil] at happend
  rw [happend, extractStream_nil, splitAll, List.map_append]

-- both delimiters are cut, and the second one is a beginning of the first
example : (new ⟨"##meta".toList, "##".toList⟩).splitAll
      ["a #".toList, "#me".toList, "tab#".toList, "# c#".toList] =
    ([.text "a ".toList, .block ['b'], .text " c".toList, .text ['#']],
      new ⟨"##meta".toList, "##".toList⟩) := by
  decide

end Extractor

end Agents
