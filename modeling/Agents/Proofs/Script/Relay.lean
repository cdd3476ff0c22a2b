import Agents.Script.Relay
import Mathlib.Data.List.Range

/-! # Streams are read independently of one another

The readers of all streams share one channel. What a relay still holds for a path is one list of
chunks (`Relay.pending`), parked or not. A read of that path takes the first of them and leaves the
chunks of every other path as they are, so what a stream gives is settled by the chunks that were
sent for it (`itemsOf`), whichever other streams are read before or in between
(`Readers.reads_of_path`).
-/

namespace Agents.Script

/-- The chunks that were sent for a path, in order. -/
def chunksFor (path : String) (messages : List RelayMessage) : List RelayChunk :=
  (messages.filter (·.path = path)).map (·.chunk)

/-- What a stream gives when these chunks are sent for it: the values until it is done or fails, and
then the failure if there is one. -/
def itemsOf : List RelayChunk → List (Except Error Json)
  | .data value :: rest => .ok value :: itemsOf rest
  | .failure message :: _ => [.error (.script ⟨⟨"StreamError", message⟩, []⟩)]
  | .done :: _ => []
  | [] => []

@[simp] theorem chunksFor_nil (path : String) : chunksFor path [] = [] := rfl

@[simp] theorem chunksFor_append (path : String) (ms ns : List RelayMessage) :
    chunksFor path (ms ++ ns) = chunksFor path ms ++ chunksFor path ns := by
  simp [chunksFor]

theorem chunksFor_cons (path : String) (m : RelayMessage) (rest : List RelayMessage) :
    chunksFor path (m :: rest) =
      if m.path = path then m.chunk :: chunksFor path rest else chunksFor path rest := by
  by_cases h : m.path = path <;> simp [chunksFor, h]

namespace Relay

def pending (path : String) (r : Relay) : List RelayChunk := chunksFor path (r.parked ++ r.channel)

/-! ## The next chunk -/

theorem take?_eq_none {path : String} {ms : List RelayMessage} (h : take? path ms = none) :
    chunksFor path ms = [] := by
  induction ms with
  | nil => rfl
  | cons m rest ih =>
    unfold take? at h
    split at h
    · cases h
    · next hne => rw [chunksFor_cons, if_neg hne, ih (Option.map_eq_none_iff.mp h)]

theorem chunksFor_of_take? {path : String} {ms others : List RelayMessage} {chunk : RelayChunk}
    (h : take? path ms = some (chunk, others)) :
    chunksFor path ms = chunk :: chunksFor path others ∧
      ∀ other ≠ path, chunksFor other ms = chunksFor other others := by
  induction ms generalizing others with
  | nil => cases h
  | cons m rest ih =>
    unfold take? at h
    split at h
    · next hpath =>
      cases h
      refine ⟨by rw [chunksFor_cons, if_pos hpath], fun other hother => ?_⟩
      rw [chunksFor_cons, if_neg (hpath ▸ hother.symm)]
    · next hne =>
      obtain ⟨⟨c, found⟩, hrest, heq⟩ := Option.map_eq_some_iff.mp h
      cases heq
      obtain ⟨hself, hothers⟩ := ih hrest
      refine ⟨by rw [chunksFor_cons, if_neg hne, chunksFor_cons, if_neg hne, hself], ?_⟩
      intro other hother
      rw [chunksFor_cons, chunksFor_cons, hothers other hother]

theorem pending_receive {path : String} {parked channel : List RelayMessage}
    (hparked : chunksFor path parked = []) :
    (receive path parked channel).1 = (chunksFor path channel).head? ∧
    (receive path parked channel).2.pending path = (chunksFor path channel).tail ∧
    ∀ other ≠ path, (receive path parked channel).2.pending other =
      chunksFor other (parked ++ channel) := by
  induction channel generalizing parked with
  | nil => exact ⟨rfl, by simp [receive, pending, hparked], fun other _ => rfl⟩
  | cons m rest ih =>
    unfold receive
    by_cases hpath : m.path = path
    · rw [if_pos hpath, chunksFor_cons, if_pos hpath]
      refine ⟨rfl, by simp [pending, hparked], fun other hother => ?_⟩
      rw [pending, chunksFor_append, chunksFor_append, chunksFor_cons,
        if_neg (hpath ▸ hother.symm)]
    · rw [if_neg hpath, chunksFor_cons, if_neg hpath]
      have hmore : chunksFor path (parked ++ [m]) = [] := by
        rw [chunksFor_append, hparked, chunksFor_cons, if_neg hpath, chunksFor_nil]; rfl
      obtain ⟨hchunk, hself, hothers⟩ := ih hmore
      refine ⟨hchunk, hself, fun other hother => ?_⟩
      rw [hothers other hother, List.append_assoc]
      rfl

/-- The next chunk of a path is the first one that is there for it; it is taken, and what is there
for other paths stays. -/
theorem pending_next (path : String) (r : Relay) :
    (r.next path).1 = (r.pending path).head? ∧
    (r.next path).2.pending path = (r.pending path).tail ∧
    ∀ other ≠ path, (r.next path).2.pending other = r.pending other := by
  unfold next
  split
  · next chunk others htake =>
    obtain ⟨hself, hothers⟩ := chunksFor_of_take? htake
    refine ⟨?_, ?_, fun other hother => ?_⟩
    · simp [pending, hself]
    · simp [pending, hself]
    · simp [pending, hothers other hother]
  · next htake =>
    have hparked := take?_eq_none htake
    obtain ⟨hchunk, hself, hothers⟩ := pending_receive hparked
    exact ⟨by simpa [pending, hparked] using hchunk, by simpa [pending, hparked] using hself,
      hothers⟩

theorem next_fst (path : String) (r : Relay) : (r.next path).1 = (r.pending path).head? :=
  (pending_next path r).1

theorem pending_next_self (path : String) (r : Relay) :
    (r.next path).2.pending path = (r.pending path).tail :=
  (pending_next path r).2.1

theorem pending_next_ne {path other : String} (h : other ≠ path) (r : Relay) :
    (r.next path).2.pending other = r.pending other :=
  (pending_next path r).2.2 other h

/-! ## Streams that are read to the end -/

/-- A relay to which nothing was sent has nothing for any stream. -/
theorem items_empty (path : String) : ({} : Relay).items path = ([], {}) := by
  rw [items]
  rfl

/-- A stream that is read to its end gives its items, and what other streams hold stays. -/
theorem items_spec (path : String) (r : Relay) :
    (r.items path).1 = itemsOf (r.pending path) ∧
    ∀ other ≠ path, (r.items path).2.pending other = r.pending other := by
  induction hn : r.size using Nat.strong_induction_on generalizing r with
  | _ n ih =>
    subst hn
    have hfst := next_fst path r
    have hself := pending_next_self path r
    have hne {other : String} (h : other ≠ path) := pending_next_ne h r
    unfold items
    split
    · next value after hnext =>
      rw [hnext] at hfst hself hne
      obtain ⟨rest, hrest⟩ := List.head?_eq_some_iff.mp hfst.symm
      rw [hrest, List.tail_cons] at hself
      obtain ⟨hitems, hothers⟩ := ih after.size (size_of_next hnext) after rfl
      refine ⟨?_, fun other hother => (hothers other hother).trans (hne hother)⟩
      rw [hrest, itemsOf, ← hself, ← hitems]
    · next message after hnext =>
      rw [hnext] at hfst hne
      obtain ⟨rest, hrest⟩ := List.head?_eq_some_iff.mp hfst.symm
      exact ⟨by rw [hrest, itemsOf], fun other hother => hne hother⟩
    · next last after hdata hfailure hnext =>
      rw [hnext] at hfst hne
      have hlast : last = (r.pending path).head? := hfst
      refine ⟨?_, fun other hother => hne hother⟩
      cases hchunks : r.pending path with
      | nil => rfl
      | cons chunk rest =>
        rw [hchunks] at hlast
        cases chunk with
        | data value => exact (hdata value hlast).elim
        | failure message => exact (hfailure message hlast).elim
        | done => rfl

end Relay

/-! ## Streams that are read in turns -/

namespace Readers

/-- What the stream at a path will still give. -/
def left (path : String) (r : Readers) : List (Except Error Json) :=
  if path ∈ r.ended then [] else itemsOf (r.relay.pending path)

theorem left_of_ended {path : String} {r : Readers} (h : path ∈ r.ended) : r.left path = [] :=
  if_pos h

theorem left_of_not_ended {path : String} {r : Readers} (h : path ∉ r.ended) :
    r.left path = itemsOf (r.relay.pending path) := if_neg h

theorem left_end {path : String} {r : Readers} {relay : Relay}
    (hother : ∀ other ≠ path, relay.pending other = r.relay.pending other) :
    ({ relay, ended := path :: r.ended } : Readers).left path = [] ∧
    ∀ other ≠ path, ({ relay, ended := path :: r.ended } : Readers).left other = r.left other := by
  refine ⟨left_of_ended List.mem_cons_self, fun other hne => ?_⟩
  unfold left
  rw [hother other hne]
  simp only [List.mem_cons, hne, false_or]

/-- A read gives the next item of its stream and takes nothing from another one. -/
theorem left_read (path : String) (r : Readers) :
    (r.read path).1 = (r.left path).head? ∧
    (r.read path).2.left path = (r.left path).tail ∧
    ∀ other ≠ path, (r.read path).2.left other = r.left other := by
  by_cases hended : path ∈ r.ended
  · rw [read, if_pos hended, left_of_ended hended]
    exact ⟨rfl, rfl, fun _ _ => rfl⟩
  obtain ⟨hfst, hself, hne⟩ := Relay.pending_next path r.relay
  rw [left_of_not_ended hended, read, if_neg hended, Relay.item]
  generalize r.relay.next path = found at hfst hself hne
  obtain ⟨chunk, after⟩ := found
  -- the first chunk of the path says how the read ends
  match hchunks : r.relay.pending path with
  | .data value :: rest =>
    rw [hchunks] at hfst hself
    obtain rfl : chunk = some (.data value) := hfst
    have hleft : ({ r with relay := after } : Readers).left path = itemsOf rest := by
      unfold left
      rw [if_neg hended]
      exact congrArg itemsOf hself
    refine ⟨rfl, hleft, fun other hother => ?_⟩
    exact if_congr Iff.rfl rfl (congrArg itemsOf (hne other hother))
  | .failure message :: rest =>
    rw [hchunks] at hfst
    obtain rfl : chunk = some (.failure message) := hfst
    exact ⟨rfl, left_end hne⟩
  | .done :: rest =>
    rw [hchunks] at hfst
    obtain rfl : chunk = some .done := hfst
    exact ⟨rfl, left_end hne⟩
  | [] =>
    rw [hchunks] at hfst
    obtain rfl : chunk = none := hfst
    exact ⟨rfl, left_end hne⟩

/-- From wherever the readers are, the reads of one path give what is left of its stream. -/
theorem readAll_of_path (schedule : List String) (r : Readers) (path : String) :
    ((r.readAll schedule).filter (·.1 = path)).map (·.2) =
      (List.range (schedule.count path)).map fun i => (r.left path)[i]? := by
  induction schedule generalizing r with
  | nil => rfl
  | cons first rest ih =>
    obtain ⟨hfst, hself, hne⟩ := left_read first r
    unfold readAll
    by_cases hfirst : first = path
    · subst hfirst
      have hrest : ∀ i, ((r.read first).2.left first)[i]? = (r.left first)[i + 1]? := by
        intro i
        rw [hself, List.getElem?_tail]
      simp only [decide_true, List.filter_cons_of_pos, List.map_cons, List.count_cons_self, ih,
        hrest, hfst, List.range_succ_eq_map, List.map_map, List.head?_eq_getElem?]
      rfl
    · rw [List.filter_cons_of_neg (by simpa using hfirst), List.count_cons_of_ne hfirst, ih,
        hne path (Ne.symm hfirst)]

/-- However the streams of a channel are read in turns, the reads of one path give the items that
were sent for it, each once and in order, and nothing after them. -/
theorem reads_of_path (messages : List RelayMessage) (schedule : List String) (path : String) :
    ((readAll schedule { relay := { channel := messages } }).filter (·.1 = path)).map (·.2) =
      (List.range (schedule.count path)).map fun i => (itemsOf (chunksFor path messages))[i]? :=
  readAll_of_path schedule _ path

end Readers

end Agents.Script
