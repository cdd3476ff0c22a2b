import Agents.Json.Printer
import Agents.PartialJson.Repair
import Agents.Run.Engine
import Agents.Script.Host

/-! # Documents composed by scripts

A script composes a JSON document of parts: text as it is, values, and agents whose streamed text
becomes a string. The document grows with every piece, and each time the value that it implies is
reported if it conforms to the partial schema and was not reported just before.

A piece of streamed text is escaped on its own, which does not depend on what stands around it.
-/

namespace Agents

structure JsonDocument where
  text : String := ""
  snapshots : PartialJson.SnapshotEmitter := {}
deriving Inhabited

namespace JsonDocument

/-- Adds a piece; returns the value to report, if there is a new one. -/
def append (accepts : Json → Bool) (d : JsonDocument) (piece : String) :
    Option Json × JsonDocument :=
  let text := d.text ++ piece
  match PartialJson.repair text with
  | none => (none, ⟨text, d.snapshots⟩)
  | some value =>
    let (new, snapshots) := d.snapshots.offer accepts value
    (new, ⟨text, snapshots⟩)

/-- Text as it stands between the quotes of a JSON string. -/
def escapeFragment (text : String) : String := String.ofList (Json.escape text.toList)

def value (d : JsonDocument) : Except Error Json :=
  (Json.parse d.text).mapError fun e => .serialization e.message

end JsonDocument

/-! ## Composing -/

/-- What composing a document needs: where to report, and which values are worth it. -/
structure Composer where
  emitter : TaskEmitter
  accepts : Json → Bool

namespace Composer

/-- Adds a piece to a document; the events that this makes, and the document. -/
def add (c : Composer) (d : JsonDocument) (piece : String) : List Event × JsonDocument :=
  let (new, d) := d.append c.accepts piece
  ((new.map c.emitter.object).getD [], d)

def write (c : Composer) (d : JsonDocument) (piece : String) : Fallible JsonDocument := do
  let (events, d) := c.add d piece
  TaskContext.report events
  return d

/-- What becomes of an event of an agent whose text is added to the document. -/
def observe (c : Composer) (s : ChildWatch × JsonDocument) (event : Event) :
    List Event × (ChildWatch × JsonDocument) :=
  let (watch, said) := s.1.observe event
  match said with
  | none => (c.emitter.emit event, (watch, s.2))
  | some text =>
    let (events, d) := c.add s.2 (JsonDocument.escapeFragment text)
    (c.emitter.emit event ++ events, (watch, d))

/-- Runs an agent and adds what it says as a string. -/
def addAgent (c : Composer) (t : TaskContext) (d : JsonDocument) (agent : String)
    (inputs : Json) : Fallible JsonDocument := do
  let d ← c.write d "\""
  let (result, _, d) ←
    Activity.through c.observe ({ watcher := t.emitter.taskId }, d) (t.runChild agent inputs).run
  let _ ← MonadExcept.ofExcept result
  c.write d "\""

def addPart (c : Composer) (t : TaskContext) (d : JsonDocument) :
    Script.DocumentPart → Fallible JsonDocument
  | .raw text => c.write d text
  | .value value => c.write d value.compact
  | .agent agent inputs => c.addAgent t d agent inputs

def compose (c : Composer) (t : TaskContext) (parts : List Script.DocumentPart) :
    Fallible Json := do
  let d ← parts.foldlM (c.addPart t) {}
  MonadExcept.ofExcept d.value

end Composer

end Agents
