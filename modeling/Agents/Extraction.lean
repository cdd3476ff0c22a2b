import Agents.Text.Search

/-! # Blocks in streamed text

Text arrives in fragments, and between two delimiters it holds blocks. An extractor splits it into
narrative text and the contents of blocks. Outside a block it holds back a tail that could be the
beginning of a delimiter, so that the result does not depend on where the fragments were cut; a
block is kept until its end is seen. A stream of fragments is split on demand: its input is read
only when no chunk waits to be given out.
-/

namespace Agents

inductive ExtractChunk where
  /-- Text outside of blocks. -/
  | text (text : List Char)
  /-- The contents of a block, without the delimiters. -/
  | block (contents : List Char)
deriving DecidableEq, Repr, Inhabited

structure Delimiters where
  start : List Char
  finish : List Char
deriving DecidableEq, Repr, Inhabited

/-- With an empty delimiter there are no blocks. -/
def Delimiters.isTrivial (d : Delimiters) : Bool := d.start.isEmpty || d.finish.isEmpty

structure Extractor where
  delimiters : Delimiters
  inBlock : Bool := false
  /-- What was read but not given out. -/
  buffer : List Char := []
deriving DecidableEq, Repr, Inhabited

namespace Extractor

def new (delimiters : Delimiters) : Extractor := { delimiters }

/-- Length of the longest proper prefix of the delimiter that the text ends with. -/
def heldLength (delimiter text : List Char) : Nat :=
  ((List.range delimiter.length).reverse.find? fun k =>
    (delimiter.take k).isSuffixOf text).getD 0

/-- A text chunk, unless it would be empty. -/
def textChunk (s : List Char) : List ExtractChunk := if s.isEmpty then [] else [.text s]

/-- Splits the buffer as far as it goes. Each round removes a delimiter, so the fuel need not
exceed the length of the buffer. -/
def scan (d : Delimiters) : (fuel : Nat) → (inBlock : Bool) → List Char →
    List ExtractChunk × Bool × List Char
  | 0, inBlock, buffer => ([], inBlock, buffer)
  | fuel + 1, false, buffer =>
    match Text.splitAtFirst d.start buffer with
    | some (before, after) =>
      let (chunks, state) := scan d fuel true after
      (textChunk before ++ chunks, state)
    | none =>
      let ready := buffer.length - heldLength d.start buffer
      (textChunk (buffer.take ready), false, buffer.drop ready)
  | fuel + 1, true, buffer =>
    match Text.splitAtFirst d.finish buffer with
    | some (contents, after) =>
      let (chunks, state) := scan d fuel false after
      (.block contents :: chunks, state)
    | none => ([], true, buffer)

/-- Takes a fragment; returns what can be given out now. -/
def push (e : Extractor) (fragment : List Char) : List ExtractChunk × Extractor :=
  if e.delimiters.isTrivial then (textChunk fragment, e)
  else
    let buffer := e.buffer ++ fragment
    let (chunks, inBlock, rest) := scan e.delimiters (buffer.length + 1) e.inBlock buffer
    (chunks, { e with inBlock, buffer := rest })

/-- Gives out what is held; a block that was not closed ends with the text. -/
def finish (e : Extractor) : List ExtractChunk × Extractor :=
  let chunk := if e.inBlock then ExtractChunk.block e.buffer else .text e.buffer
  (if e.buffer.isEmpty then [] else [chunk], { e with inBlock := false, buffer := [] })

/-- Joins neighbouring texts. -/
def mergeText : List ExtractChunk → List ExtractChunk
  | .text s :: rest =>
    match mergeText rest with
    | .text t :: rest => .text (s ++ t) :: rest
    | rest => .text s :: rest
  | chunk :: rest => chunk :: mergeText rest
  | [] => []

/-- Splits a whole text; no two texts in the result are neighbours. -/
def extractAll (e : Extractor) (s : List Char) : List ExtractChunk × Extractor :=
  let (chunks, e) := e.push s
  let (rest, e) := e.finish
  (mergeText (chunks ++ rest), e)

theorem length_textChunk_le (s : List Char) : (textChunk s).length ≤ s.length := by
  unfold textChunk
  cases s <;> simp

/-- No more chunks are given out than characters are read. -/
theorem length_scan_le {d : Delimiters} (hd : d.finish ≠ []) (fuel : Nat) (inBlock : Bool)
    (s : List Char) :
    (scan d fuel inBlock s).1.length + (scan d fuel inBlock s).2.2.length ≤ s.length := by
  induction fuel generalizing inBlock s with
  | zero => simp [scan]
  | succ fuel ih =>
    cases inBlock with
    | false =>
      rw [scan]
      split
      · next before after h =>
        have hlength := congrArg List.length (Text.append_of_splitAtFirst h)
        have hbefore := length_textChunk_le before
        have hafter := ih true after
        simp only [List.length_append] at hlength ⊢
        omega
      · have htake := length_textChunk_le (s.take (s.length - heldLength d.start s))
        simp only [List.length_take, List.length_drop] at htake ⊢
        omega
    | true =>
      rw [scan]
      split
      · next contents after h =>
        have hlength := congrArg List.length (Text.append_of_splitAtFirst h)
        have hpos := List.length_pos_iff.mpr hd
        have hafter := ih false after
        simp only [List.length_append] at hlength
        simp only [List.length_cons]
        omega
      · simp

theorem length_push_le (e : Extractor) (fragment : List Char) :
    (e.push fragment).1.length + (e.push fragment).2.buffer.length ≤
      e.buffer.length + fragment.length := by
  unfold push
  split
  · have hchunk := length_textChunk_le fragment
    simp only
    omega
  · next hd =>
    have hfinish : e.delimiters.finish ≠ [] := by
      intro hnil
      simp [Delimiters.isTrivial, hnil] at hd
    have hscan := length_scan_le hfinish ((e.buffer ++ fragment).length + 1) e.inBlock
      (e.buffer ++ fragment)
    rw [List.length_append] at hscan
    simpa using hscan

theorem length_finish_le (e : Extractor) : e.finish.1.length ≤ e.buffer.length := by
  unfold finish
  cases e.buffer <;> simp

end Extractor

/-! ## Streams -/

/-- A stream of chunks, made of a stream of fragments and errors. What the extractor gave out for a
fragment waits until it is asked for; the input is read when nothing waits. -/
structure ExtractStream (ε : Type) where
  input : List (Except ε (List Char))
  extractor : Extractor
  pending : List ExtractChunk := []
  /-- The input has ended, and what was held is given out. -/
  done : Bool := false

namespace ExtractStream

variable {ε : Type}

/-- How often the input is still to be read; its end counts. -/
def unread (s : ExtractStream ε) : Nat := s.input.length + (!s.done).toNat

/-- The next item and what is left; an error passes through as soon as it is read. -/
def next? : ExtractStream ε → Option (Except ε ExtractChunk × ExtractStream ε)
  | ⟨input, e, chunk :: pending, done⟩ => some (.ok chunk, ⟨input, e, pending, done⟩)
  | ⟨_, _, [], true⟩ => none
  | ⟨.ok fragment :: input, e, [], false⟩ =>
    next? ⟨input, (e.push fragment).2, (e.push fragment).1, false⟩
  | ⟨.error err :: input, e, [], false⟩ => some (.error err, ⟨input, e, [], false⟩)
  | ⟨[], e, [], false⟩ => next? ⟨[], e.finish.2, e.finish.1, true⟩
termination_by s => s.unread
decreasing_by all_goals simp [unread]

/-- As many items as the pieces of the input can lead to. -/
def weight : List (Except ε (List Char)) → Nat
  | [] => 0
  | .ok fragment :: input => fragment.length + weight input
  | .error _ :: input => 1 + weight input

/-- As many items as can still be given out. -/
def limit (s : ExtractStream ε) : Nat :=
  s.pending.length + if s.done then 0 else s.extractor.buffer.length + weight s.input

theorem limit_lt_of_next? {s rest : ExtractStream ε} {item : Except ε ExtractChunk}
    (h : s.next? = some (item, rest)) : rest.limit < s.limit := by
  fun_induction next? s with
  | case1 input e chunk pending done =>
    cases h
    simp [limit]
  | case2 => cases h
  | case3 fragment input e ih =>
    have hpush := e.length_push_le fragment
    have hrest := ih h
    simp [limit, weight] at hrest ⊢
    omega
  | case4 err input e =>
    cases h
    simp [limit, weight]
  | case5 e ih =>
    have hfinish := e.length_finish_le
    have hrest := ih h
    simp [limit] at hrest ⊢
    omega

def items (s : ExtractStream ε) : List (Except ε ExtractChunk) :=
  match _ : s.next? with
  | some (item, rest) => item :: rest.items
  | none => []
termination_by s.limit
decreasing_by exact limit_lt_of_next? ‹_›

theorem items_of_next?_eq_some {s rest : ExtractStream ε} {item : Except ε ExtractChunk}
    (h : s.next? = some (item, rest)) : s.items = item :: rest.items := by
  rw [items]
  split
  · next hnext =>
    cases hnext.symm.trans h
    rfl
  · next hnext => cases hnext.symm.trans h

theorem items_of_next?_eq_none {s : ExtractStream ε} (h : s.next? = none) : s.items = [] := by
  rw [items]
  split
  · next hnext => cases hnext.symm.trans h
  · rfl

/-- A stream that answers like another one gives out the same items. -/
theorem items_congr {s t : ExtractStream ε} (h : s.next? = t.next?) : s.items = t.items := by
  cases ht : t.next? with
  | none => rw [items_of_next?_eq_none ht, items_of_next?_eq_none (h.trans ht)]
  | some found =>
    obtain ⟨item, rest⟩ := found
    rw [items_of_next?_eq_some ht, items_of_next?_eq_some (h.trans ht)]

theorem items_pending (input : List (Except ε (List Char))) (e : Extractor)
    (pending : List ExtractChunk) (done : Bool) :
    (ExtractStream.mk input e pending done).items =
      pending.map .ok ++ (ExtractStream.mk input e [] done).items := by
  induction pending with
  | nil => rfl
  | cons chunk pending ih =>
    have hnext : (ExtractStream.mk input e (chunk :: pending) done).next? =
        some (.ok chunk, ⟨input, e, pending, done⟩) := by rw [next?]
    rw [items_of_next?_eq_some hnext, ih]
    rfl

theorem items_done (input : List (Except ε (List Char))) (e : Extractor) :
    (ExtractStream.mk input e [] true).items = [] :=
  items_of_next?_eq_none (by rw [next?])

end ExtractStream

/-- Splits a sequence of fragments and errors; an error passes through at its place. -/
def Extractor.extractStream {ε : Type} (e : Extractor) (input : List (Except ε (List Char))) :
    List (Except ε ExtractChunk) := ExtractStream.items { input, extractor := e }

namespace Extractor

variable {ε : Type}

theorem extractStream_nil (e : Extractor) :
    e.extractStream ([] : List (Except ε (List Char))) = e.finish.1.map .ok := by
  have hnext : (ExtractStream.mk ([] : List (Except ε (List Char))) e [] false).next? =
      (ExtractStream.mk [] e.finish.2 e.finish.1 true).next? := by rw [ExtractStream.next?]
  rw [extractStream, ExtractStream.items_congr hnext, ExtractStream.items_pending,
    ExtractStream.items_done, List.append_nil]

theorem extractStream_cons_ok (e : Extractor) (fragment : List Char)
    (input : List (Except ε (List Char))) :
    e.extractStream (.ok fragment :: input) =
      (e.push fragment).1.map .ok ++ (e.push fragment).2.extractStream input := by
  have hnext : (ExtractStream.mk (.ok fragment :: input) e [] false).next? =
      (ExtractStream.mk input (e.push fragment).2 (e.push fragment).1 false).next? := by
    rw [ExtractStream.next?]
  rw [extractStream, ExtractStream.items_congr hnext, ExtractStream.items_pending]
  rfl

theorem extractStream_cons_error (e : Extractor) (err : ε) (input : List (Except ε (List Char))) :
    e.extractStream (.error err :: input) = .error err :: e.extractStream input := by
  have hnext : (ExtractStream.mk (.error err :: input) e [] false).next? =
      some (.error err, ⟨input, e, [], false⟩) := by rw [ExtractStream.next?]
  exact ExtractStream.items_of_next?_eq_some hnext

end Extractor

end Agents
