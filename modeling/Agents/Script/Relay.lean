import Agents.Error
import Agents.Json.Basic

/-! # Reading the streams of a script

After its result a script sends the items of its streams over one channel, each with the path of its
stream. A reader of one path takes what was parked for it, or else receives from the channel and
parks what belongs to other paths, so that streams may be read in any order. A stream ends when it
is done, with its first failure, or with the channel (`Readers` knows which ones have).
-/

namespace Agents.Script

inductive RelayChunk where
  | data (value : Json)
  | failure (message : String)
  | done
deriving Inhabited

structure RelayMessage where
  path : String
  chunk : RelayChunk
deriving Inhabited

/-- What was sent and not yet read. -/
structure Relay where
  /-- Received and parked, in the order in which it was sent. -/
  parked : List RelayMessage := []
  channel : List RelayMessage := []

namespace Relay

def size (r : Relay) : Nat := r.parked.length + r.channel.length

/-- The first message for a path, and the others. -/
def take? (path : String) : List RelayMessage → Option (RelayChunk × List RelayMessage)
  | [] => none
  | m :: rest =>
    if m.path = path then some (m.chunk, rest)
    else (take? path rest).map fun (chunk, others) => (chunk, m :: others)

/-- Receives until there is a message for a path; the others are parked. -/
def receive (path : String) (parked : List RelayMessage) :
    List RelayMessage → Option RelayChunk × Relay
  | [] => (none, ⟨parked, []⟩)
  | m :: rest =>
    if m.path = path then (some m.chunk, ⟨parked, rest⟩) else receive path (parked ++ [m]) rest

def next (path : String) (r : Relay) : Option RelayChunk × Relay :=
  match take? path r.parked with
  | some (chunk, others) => (some chunk, { r with parked := others })
  | none => receive path r.parked r.channel

theorem length_of_take? {path : String} {ms others : List RelayMessage} {chunk : RelayChunk}
    (h : take? path ms = some (chunk, others)) : others.length + 1 = ms.length := by
  induction ms generalizing others with
  | nil => simp [take?] at h
  | cons m rest ih =>
    unfold take? at h
    split at h
    · simp only [Option.some.injEq, Prod.mk.injEq] at h
      simp [h.2]
    · simp only [Option.map_eq_some_iff, Prod.exists, Prod.mk.injEq] at h
      obtain ⟨c, os, hs, rfl, rfl⟩ := h
      have := ih hs
      simp only [List.length_cons]
      omega

theorem size_of_receive {path : String} {parked channel : List RelayMessage} {chunk : RelayChunk}
    {r : Relay} (h : receive path parked channel = (some chunk, r)) :
    r.size < parked.length + channel.length := by
  induction channel generalizing parked with
  | nil => simp [receive] at h
  | cons m rest ih =>
    unfold receive at h
    split at h
    · simp only [Prod.mk.injEq, Option.some.injEq] at h
      simp [← h.2, size]
    · have := ih h
      simp only [List.length_append, List.length_cons, List.length_nil] at this ⊢
      omega

theorem size_of_next {path : String} {r r' : Relay} {chunk : RelayChunk}
    (h : r.next path = (some chunk, r')) : r'.size < r.size := by
  unfold next at h
  split at h
  · next ht =>
    simp only [Prod.mk.injEq, Option.some.injEq] at h
    have := length_of_take? ht
    simp only [← h.2, size]
    omega
  · exact size_of_receive h

/-- The next item of the stream at a path: nothing at its end, and its failure as an error. -/
def item (path : String) (r : Relay) : Option (Except Error Json) × Relay :=
  match r.next path with
  | (some (.data value), r) => (some (.ok value), r)
  | (some (.failure message), r) => (some (.error (.script ⟨⟨"StreamError", message⟩, []⟩)), r)
  | (_, r) => (none, r)

def items (path : String) (r : Relay) : List (Except Error Json) × Relay :=
  match _ : r.next path with
  | (some (.data value), after) =>
    let (rest, last) := after.items path
    (.ok value :: rest, last)
  | (some (.failure message), after) => ([.error (.script ⟨⟨"StreamError", message⟩, []⟩)], after)
  | (_, after) => ([], after)
termination_by r.size
decreasing_by exact size_of_next ‹_›

end Relay

/-! ## Streams that are read in turns -/

/-- The streams of a relay while they are read. -/
structure Readers where
  relay : Relay
  /-- The paths of the streams that have ended. -/
  ended : List String := []

namespace Readers

/-- Reads the next item of the stream at a path; one that has ended gives nothing more. -/
def read (path : String) (r : Readers) : Option (Except Error Json) × Readers :=
  if path ∈ r.ended then (none, r)
  else
    match r.relay.item path with
    | (some (.ok value), relay) => (some (.ok value), { r with relay })
    | (last, relay) => (last, { relay, ended := path :: r.ended })

/-- Reads the streams at some paths one after another; a path may come again and again. Every read
is listed with what it gave. -/
def readAll : (schedule : List String) → Readers → List (String × Option (Except Error Json))
  | [], _ => []
  | path :: rest, r => (path, (r.read path).1) :: readAll rest (r.read path).2

end Readers

end Agents.Script
