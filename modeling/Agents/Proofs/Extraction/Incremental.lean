import Agents.Proofs.Extraction

/-! # What an extractor can give out at once

An extractor does not know how the text goes on. What it gives out is right all the same: it is an
initial part of the split of every text that begins with what was read, and no longer one is
(`emission_exact`).

What it is left with says why (`Waiting`): outside of a block it holds a beginning of the start
delimiter, which is a part of a delimiter or text, depending on what comes (`Undecided`); inside of
one it holds a block that may still be longer.
-/

namespace Agents

namespace Extractor

variable {d : Delimiters}

/-! ## Initial parts -/

/-- The first chunks are an initial part of the second ones, where the last of them may go on if it
is a text. -/
inductive Begins : List ExtractChunk → List ExtractChunk → Prop
  | nil (ys : List ExtractChunk) : Begins [] ys
  | text (s t : List Char) (ys : List ExtractChunk) : Begins [.text s] (.text (s ++ t) :: ys)
  | cons (chunk : ExtractChunk) {xs ys : List ExtractChunk} (h : Begins xs ys) :
      Begins (chunk :: xs) (chunk :: ys)

theorem Begins.tail {chunk : ExtractChunk} {xs ys : List ExtractChunk}
    (h : Begins (chunk :: xs) (chunk :: ys)) : Begins xs ys := by
  generalize hxs : chunk :: xs = xs' at h
  generalize hys : chunk :: ys = ys' at h
  cases h with
  | nil => cases hxs
  | text s t rest =>
    cases hxs
    exact .nil ys
  | cons chunk h =>
    cases hxs
    cases hys
    exact h

theorem Begins.joinText {xs ys : List ExtractChunk} (h : Begins xs ys) (s : List Char) :
    Begins (joinText s xs) (joinText s ys) := by
  cases h with
  | nil =>
    cases ys with
    | nil => exact .cons _ (.nil [])
    | cons chunk ys =>
      cases chunk with
      | text t => exact .text s t ys
      | block t => exact .cons _ (.nil _)
  | text t u ys =>
    rw [joinText_text, joinText_text, ← List.append_assoc]
    exact .text (s ++ t) u ys
  | cons chunk h =>
    cases chunk with
    | text t => exact .cons _ h
    | block t => exact .cons _ (.cons _ h)

theorem begins_mergeText_append (xs ys : List ExtractChunk) :
    Begins (mergeText xs) (mergeText (xs ++ ys)) := by
  induction xs with
  | nil => exact .nil _
  | cons chunk xs ih =>
    cases chunk with
    | text s =>
      rw [List.cons_append, mergeText_text, mergeText_text]
      exact ih.joinText s
    | block s => exact .cons _ ih

/-- Of what goes on with different blocks, only what stands before them is a common beginning. -/
theorem begins_of_blocks {xs chunks : List ExtractChunk} {s t : List Char} (hne : s ≠ t)
    (hs : Begins chunks (xs ++ [.block s])) (ht : Begins chunks (xs ++ [.block t])) :
    Begins chunks xs := by
  induction xs generalizing chunks with
  | nil =>
    cases hs with
    | nil => exact .nil _
    | cons _ h =>
      cases ht with
      | cons => exact absurd rfl hne
  | cons x xs ih =>
    cases hs with
    | nil => exact .nil _
    | text u v => exact .text u v xs
    | cons _ hs => exact .cons x (ih hs ht.tail)

theorem joinText_append_block (s t : List Char) (xs ys : List ExtractChunk) :
    joinText s (xs ++ .block t :: ys) = joinText s xs ++ .block t :: ys := by
  cases xs with
  | nil => rfl
  | cons chunk xs => cases chunk <;> rfl

theorem mergeText_append_block (xs : List ExtractChunk) (s : List Char) (ys : List ExtractChunk) :
    mergeText (xs ++ .block s :: ys) = mergeText xs ++ .block s :: mergeText ys := by
  induction xs with
  | nil => rfl
  | cons chunk xs ih =>
    cases chunk with
    | text t => rw [List.cons_append, mergeText_text, mergeText_text, ih, joinText_append_block]
    | block t => exact congrArg (.block t :: ·) ih

/-! ## What is left of a text -/

theorem pushAll_append (e : Extractor) (xs ys : List (List Char)) :
    e.pushAll (xs ++ ys) = ((e.pushAll xs).1 ++ ((e.pushAll xs).2.pushAll ys).1,
      ((e.pushAll xs).2.pushAll ys).2) := by
  induction xs generalizing e with
  | nil => rfl
  | cons x xs ih =>
    rw [List.cons_append, pushAll, pushAll, ih]
    simp only [List.append_assoc]

/-- What an extractor is left with: outside of a block a beginning of the start delimiter, and
inside of one a text without an end delimiter. -/
structure Waiting (d : Delimiters) (inBlock : Bool) (buffer : List Char) : Prop where
  outside : inBlock = false → ∃ rest, rest ≠ [] ∧ d.start = buffer ++ rest
  inside : inBlock = true → ¬ d.finish <:+: buffer

theorem waiting_run (hd : d.Proper) (inBlock : Bool) (s : List Char) :
    Waiting d (run d inBlock s).2.1 (run d inBlock s).2.2 := by
  induction hlength : s.length using Nat.strong_induction_on generalizing inBlock s with
  | _ n ih =>
  cases inBlock with
  | false =>
    cases h : Text.splitAtFirst d.start s with
    | none =>
      obtain ⟨hlt, hsuffix, -⟩ := heldLength_spec hd.start_ne s
      have hheld := List.suffix_iff_eq_drop.mp hsuffix
      rw [List.length_take, Nat.min_eq_left (Nat.le_of_lt hlt)] at hheld
      rw [run_text h, ← hheld]
      refine ⟨fun _ => ⟨d.start.drop (heldLength d.start s), ?_, ?_⟩, nofun⟩
      · rwa [ne_eq, List.drop_eq_nil_iff, not_le]
      · exact (List.take_append_drop _ _).symm
    | some found =>
      obtain ⟨before, after⟩ := found
      rw [run_open hd h]
      exact ih after.length (hlength ▸ length_lt_of_splitAtFirst hd.start_ne h) true after rfl
  | true =>
    cases h : Text.splitAtFirst d.finish s with
    | none =>
      rw [run_block h]
      exact ⟨nofun, fun _ => Text.splitAtFirst_eq_none_iff.mp h⟩
    | some found =>
      obtain ⟨contents, after⟩ := found
      rw [run_close hd h]
      exact ih after.length (hlength ▸ length_lt_of_splitAtFirst hd.finish_ne h) false after rfl

theorem exists_pushAll_new (hd : d.Proper) (fragments : List (List Char)) :
    ∃ chunks inBlock buffer, (new d).pushAll fragments = (chunks, ⟨d, inBlock, buffer⟩) ∧
      Waiting d inBlock buffer := by
  have hstate := (pushAll_new d fragments).2
  rw [new, push_proper hd] at hstate
  exact ⟨_, _, _, Prod.ext rfl hstate, waiting_run hd false fragments.flatten⟩

/-! ## How a text may go on -/

theorem mergeText_canonical (d : Delimiters) (s : List Char) :
    mergeText (canonical d s) = canonical d s := by
  rw [canonical_eq]
  exact mergeText_mergeText _

theorem closing_of_not_infix {s : List Char} (h : ¬ d.finish <:+: s) :
    closing d s = if s.isEmpty then [] else [.block s] := by
  rw [closing, Text.splitAtFirst_eq_none_iff.mpr h]

/-- A block that is not closed can go on without being closed. -/
theorem exists_not_infix_concat (hd : d.Proper) {s : List Char} (h : ¬ d.finish <:+: s) :
    ∃ c, ¬ d.finish <:+: s ++ [c] := by
  obtain ⟨c, hc⟩ : ∃ c, c ≠ d.finish.getLast hd.finish_ne := by
    by_cases ha : d.finish.getLast hd.finish_ne = 'a'
    · exact ⟨'b', ha ▸ by decide⟩
    · exact ⟨'a', Ne.symm ha⟩
  refine ⟨c, fun hinfix => ?_⟩
  rcases List.infix_concat_iff.mp hinfix with hsuffix | hinfix
  · have hlast := hsuffix.getLast hd.finish_ne
    rw [List.getLast_append_singleton] at hlast
    exact hc hlast.symm
  · exact h hinfix

/-- What is behind a start delimiter is not joined to what stands before it. -/
theorem mergeText_append_closing (xs : List ExtractChunk) (s : List Char) :
    mergeText (xs ++ closing d s) = mergeText xs ++ closing d s := by
  unfold closing
  split
  · split
    · simp
    · exact mergeText_append_block xs s []
  · rw [mergeText_append_block, mergeText_canonical]

theorem canonical_start (hd : d.Proper) (s : List Char) :
    canonical d (d.start ++ s) = closing d s := by
  have hsplit : Text.splitAtFirst d.start (d.start ++ s) = some ([], s) :=
    Text.splitAtFirst_eq_some_iff.mpr ⟨rfl, fun _ _ _ => Nat.zero_le _⟩
  rw [canonical_open hd hsplit]
  rfl

/-- What is held back outside of a block is not settled yet: it may be text or a part of a
delimiter. -/
structure Undecided (d : Delimiters) (given : List ExtractChunk) (text : List Char)
    (e : Extractor) : Prop where
  short : e.buffer.length < d.start.length
  /-- If the start delimiter is completed, it belongs to the delimiter and to no chunk. -/
  completed : ∃ rest, d.start = e.buffer ++ rest ∧ e.push rest = ([], ⟨d, true, []⟩) ∧
    ∀ more, canonical d (text ++ rest ++ more) = given ++ closing d more
  /-- If the text ends, it is text. -/
  ended : e.finish.1 = textChunk e.buffer ∧
    canonical d text = mergeText (given ++ textChunk e.buffer)

section Continued

variable {fragments : List (List Char)} {chunks : List ExtractChunk} {inBlock : Bool}
  {buffer : List Char}

/-- The split of a text that goes on is what was given out, and then the split of what was held with
the rest. -/
theorem canonical_append (hd : d.Proper)
    (h : (new d).pushAll fragments = (chunks, ⟨d, inBlock, buffer⟩)) (more : List Char) :
    canonical d (fragments.flatten ++ more) =
      mergeText (chunks ++
        if inBlock then closing d (buffer ++ more) else canonical d (buffer ++ more)) := by
  have hsplit := mergeText_splitAll_new d (fragments ++ [more])
  rw [List.flatten_append, List.flatten_singleton, splitAll, pushAll_append, h] at hsplit
  rw [← hsplit, ← run_finish hd inBlock (buffer ++ more), mergeText_append_mergeText]
  simp only [pushAll, push_proper hd, List.append_assoc, List.nil_append]

/-- Inside of a block. -/
theorem canonical_append_inside (hd : d.Proper)
    (h : (new d).pushAll fragments = (chunks, ⟨d, true, buffer⟩)) (more : List Char) :
    canonical d (fragments.flatten ++ more) = mergeText chunks ++ closing d (buffer ++ more) := by
  rw [canonical_append hd h, if_pos rfl, mergeText_append_closing]

/-- Outside of a block, when the text goes on as the start delimiter does. -/
theorem canonical_append_start (hd : d.Proper)
    (h : (new d).pushAll fragments = (chunks, ⟨d, false, buffer⟩)) {rest : List Char}
    (hrest : d.start = buffer ++ rest) (more : List Char) :
    canonical d (fragments.flatten ++ rest ++ more) = mergeText chunks ++ closing d more := by
  rw [List.append_assoc, canonical_append hd h, if_neg Bool.false_ne_true, ← List.append_assoc,
    ← hrest, canonical_start hd, mergeText_append_closing]

/-- Outside of a block, when the text ends. -/
theorem canonical_flatten (hd : d.Proper)
    (h : (new d).pushAll fragments = (chunks, ⟨d, false, buffer⟩))
    (hbuffer : ¬ d.start <:+: buffer) :
    canonical d fragments.flatten = mergeText (chunks ++ textChunk buffer) := by
  have happend := canonical_append hd h []
  rwa [List.append_nil, List.append_nil, if_neg Bool.false_ne_true,
    canonical_text (Text.splitAtFirst_eq_none_iff.mpr hbuffer)] at happend

/-! ## What can be given out at once -/

/-- What is an initial part of the split however the text goes on, was given out. -/
theorem begins_given (hd : d.Proper)
    (h : (new d).pushAll fragments = (chunks, ⟨d, inBlock, buffer⟩))
    (hwaiting : Waiting d inBlock buffer) {initial : List ExtractChunk}
    (hinitial : ∀ more, Begins initial (canonical d (fragments.flatten ++ more))) :
    Begins initial (mergeText chunks) := by
  cases inBlock with
  | false =>
    -- if the start delimiter comes next, there is nothing but what was given out
    obtain ⟨rest, -, hrest⟩ := hwaiting.outside rfl
    have hnext := hinitial (rest ++ [])
    rw [← List.append_assoc, canonical_append_start hd h hrest,
      closing_of_not_infix (by simpa using hd.finish_ne)] at hnext
    simpa using hnext
  | true =>
    -- a block that is not closed may turn out to be longer
    have hopen := hwaiting.inside rfl
    obtain ⟨c, hlonger⟩ := exists_not_infix_concat hd hopen
    have hend := hinitial []
    have hnext := hinitial [c]
    rw [canonical_append_inside hd h, closing_of_not_infix hlonger] at hnext
    rw [canonical_append_inside hd h, List.append_nil, closing_of_not_infix hopen] at hend
    cases buffer with
    | nil => simpa using hend
    | cons b buffer =>
      have hne : b :: buffer ≠ b :: buffer ++ [c] := by simp
      exact begins_of_blocks hne hend hnext

theorem undecided_of_waiting (hd : d.Proper)
    (h : (new d).pushAll fragments = (chunks, ⟨d, false, buffer⟩))
    (hwaiting : Waiting d false buffer) :
    Undecided d (mergeText chunks) fragments.flatten ⟨d, false, buffer⟩ := by
  obtain ⟨rest, hne, hrest⟩ := hwaiting.outside rfl
  have hshort : buffer.length < d.start.length := by
    have hpos := List.length_pos_of_ne_nil hne
    rw [hrest, List.length_append]
    omega
  have habsent : ¬ d.start <:+: buffer := fun hinfix => by
    have hle := hinfix.length_le
    omega
  refine ⟨hshort, ⟨rest, hrest, ?_, canonical_append_start hd h hrest⟩, ?_, ?_⟩
  · have hsplit : Text.splitAtFirst d.start d.start = some ([], []) :=
      Text.splitAtFirst_eq_some_iff.mpr ⟨by simp, fun _ _ _ => Nat.zero_le _⟩
    have hnone : Text.splitAtFirst d.finish [] = none := if_neg hd.finish_ne
    rw [push_proper hd, ← hrest, run_open hd hsplit, run_block hnone]
    rfl
  · cases buffer <;> rfl
  · rw [canonical_flatten hd h habsent, mergeText_mergeText_append]

end Continued

/-- However a text was cut and however it goes on, what is given out of it is an initial part of the
split of the whole, and the longest one of which that can be said. -/
theorem emission_exact (hd : d.Proper) (fragments : List (List Char)) :
    let given := mergeText ((new d).pushAll fragments).1
    (∀ more, Begins given (canonical d (fragments.flatten ++ more))) ∧
      (∀ initial, (∀ more, Begins initial (canonical d (fragments.flatten ++ more))) →
        Begins initial given) ∧
      (((new d).pushAll fragments).2.inBlock = false →
        Undecided d given fragments.flatten ((new d).pushAll fragments).2) := by
  obtain ⟨chunks, inBlock, buffer, h, hwaiting⟩ := exists_pushAll_new hd fragments
  rw [h]
  refine ⟨fun more => ?_, fun initial => begins_given hd h hwaiting, ?_⟩
  · rw [canonical_append hd h]
    exact begins_mergeText_append _ _
  · rintro rfl
    exact undecided_of_waiting hd h hwaiting

/-- Delimiters of which the second one is a beginning of the first. -/
def hashes : Delimiters := ⟨"##meta".toList, "##".toList⟩

theorem emission_exact_hashes :
    hashes.Proper ∧
      (new hashes).pushAll ["a ##".toList, "#me".toList] =
        ([.text "a ".toList, .text "#".toList], ⟨hashes, false, "##me".toList⟩) ∧
      (∀ more, Begins [.text "a #".toList] (canonical hashes ("a ###me".toList ++ more))) ∧
      ¬ (∀ more, Begins [.text "a ##".toList] (canonical hashes ("a ###me".toList ++ more))) ∧
      Undecided hashes [.text "a #".toList] "a ###me".toList ⟨hashes, false, "##me".toList⟩ := by
  have hproper : hashes.Proper := ⟨by decide, by decide⟩
  have hpush : (new hashes).pushAll ["a ##".toList, "#me".toList] =
      ([.text "a ".toList, .text "#".toList], ⟨hashes, false, "##me".toList⟩) := by decide
  have hexact := emission_exact hproper ["a ##".toList, "#me".toList]
  rw [hpush] at hexact
  obtain ⟨hsound, hlongest, hheld⟩ := hexact
  refine ⟨hproper, hpush, hsound, fun hmore => ?_, hheld rfl⟩
  have hbegins : Begins [.text "a ##".toList] [.text "a #".toList] := hlongest _ hmore
  generalize hgiven : [ExtractChunk.text "a #".toList] = given at hbegins
  cases hbegins with
  | text s t ys => simp at hgiven
  | cons chunk h => simp at hgiven

end Extractor

end Agents
