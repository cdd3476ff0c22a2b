import Agents.Trace.Chain
import Agents.Trace.Reducer

/-! # Recording the events of a run

A recorder appends each event to a hash chain. Its digest is the digest of the last entry; the
terminal hash of an exported log is empty when nothing was recorded.

Sinks take the events of a run one at a time. A recorder's sink records each event and passes it on
to the sink inside it, which may be a sink of the same recorder again.
-/

namespace Agents

structure Recorder where
  runId : String
  entries : List RecordedEvent := []
  /-- The sequence number of the next entry. -/
  sequence : Nat := 0
  digest : String := Chain.genesis
deriving Inhabited

namespace Recorder

def new (runId : String) : Recorder := { runId }

def record (r : Recorder) (event : Event) : Recorder :=
  let thisHash := Chain.hash r.runId r.sequence r.digest event
  { r with
    entries := r.entries ++ [⟨r.sequence, r.runId, event, r.digest, thisHash⟩]
    sequence := r.sequence + 1
    digest := thisHash }

def recordAll (r : Recorder) (events : List Event) : Recorder := events.foldl record r

def isSound (r : Recorder) : Bool := Chain.verify r.entries

/-- The digest of the last entry; empty when there is none. -/
def terminalHash (r : Recorder) : String := (r.entries.getLast?.map (·.thisHash)).getD ""

def events (r : Recorder) : List Event := r.entries.map (·.event)

/-- The task tree that the recorded events give. -/
def replay (r : Recorder) (userId assistantId : String) : TaskTree :=
  (TaskTree.new userId assistantId).reduceAll r.events

end Recorder

inductive EventSink where
  | discard
  /-- A caller's own function; the number tells which one. -/
  | callback (id : Nat)
  /-- Records each event, then passes it on. -/
  | tee (inner : EventSink)
deriving Inhabited, DecidableEq

/-- A recorder together with what its sinks reach. The clones of a recorder share its log, so that
all of them are this one. -/
structure Recording where
  recorder : Recorder
  /-- What each callback was called with, in order. -/
  calls : Nat → List Event := fun _ => []

namespace EventSink

def recordOnly : EventSink := tee discard

def emit : EventSink → Event → Recording → Recording
  | discard, _, s => s
  | callback id, event, s =>
    { s with calls := fun i => if i = id then s.calls i ++ [event] else s.calls i }
  | tee inner, event, s => inner.emit event { s with recorder := s.recorder.record event }

end EventSink

namespace Recording

def new (runId : String) : Recording := { recorder := .new runId }

/-- One use of a recorder or of a sink. -/
inductive Step where
  | record (event : Event)
  | emit (sink : EventSink) (event : Event)

def step (s : Recording) : Step → Recording
  | .record event => { s with recorder := s.recorder.record event }
  | .emit sink event => sink.emit event s

def run (s : Recording) (steps : List Step) : Recording := steps.foldl step s

end Recording

end Agents
