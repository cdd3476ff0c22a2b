import Agents.Event

/-! # Events of one task

An emitter knows whose events it writes. A muted one writes none. A caller that runs a child task
can watch its events: the child is the first task that names the caller as its parent, and its
text is handed on beside the events.
-/

namespace Agents

structure TaskEmitter where
  taskId : TaskId
  parentTaskId : Option TaskId := none
  assistantId : String
  assistantName : String
  respondAs : Option RespondAs := none
  muted : Bool := false
deriving DecidableEq, Repr, Inhabited

namespace TaskEmitter

def forAgent (d : Definition) (taskId : TaskId) (parent : Option TaskId) : TaskEmitter where
  taskId := taskId
  parentTaskId := parent
  assistantId := d.id
  assistantName := d.name
  respondAs := d.respondAs

/-- The same task with every event dropped. -/
def mute (e : TaskEmitter) : TaskEmitter := { e with muted := true }

/-- An event, unless the emitter is muted. -/
def emit (e : TaskEmitter) (event : Event) : List Event := if e.muted then [] else [event]

def input (e : TaskEmitter) (inputs : Json) (prompt : Option (List ChatMessage)) : List Event :=
  e.emit (.input e.taskId e.parentTaskId e.assistantId e.assistantName inputs prompt)

def execute (e : TaskEmitter) (phase : ExecutePhase) (now : Timestamp) : List Event :=
  e.emit (.execute e.taskId e.parentTaskId e.assistantId (some e.assistantName) phase (some now))

def chunk (e : TaskEmitter) (delta : ChunkDelta) : List Event :=
  e.emit (.chunk e.taskId e.assistantId delta e.respondAs)

/-- Empty text is not worth an event. -/
def text (e : TaskEmitter) (s : String) : List Event :=
  if s = "" then [] else e.chunk (.ofText s)

def object (e : TaskEmitter) (object : Json) : List Event := e.chunk (.ofObject object)

def images (e : TaskEmitter) (urls : List String) : List Event := e.chunk (.ofImages urls)

def usage (e : TaskEmitter) (u : Usage) : List Event := e.emit (.usage e.taskId e.assistantId u)

def log (e : TaskEmitter) (message : String) (now : Timestamp) : List Event :=
  e.emit (.log e.taskId e.assistantId message now)

end TaskEmitter

/-! ## Watching a child -/

/-- The events of a child's run, seen by the task `watcher`. -/
structure ChildWatch where
  watcher : TaskId
  /-- The child, once it is known. -/
  child : Option TaskId := none
deriving DecidableEq, Repr, Inhabited

namespace ChildWatch

/-- Takes one event; returns the text that the child says in it. -/
def observe (w : ChildWatch) (event : Event) : ChildWatch × Option String :=
  match event with
  | .input taskId (some parent) .. =>
    if parent = w.watcher then ({ w with child := w.child.or (some taskId) }, none) else (w, none)
  | .chunk taskId _ delta _ => (w, if w.child = some taskId then delta.content else none)
  | _ => (w, none)

/-- Every event followed by the text that the child says in it. -/
def observeAll (w : ChildWatch) : List Event → List (Event × Option String)
  | [] => []
  | event :: rest =>
    let (w, said) := w.observe event
    (event, said) :: observeAll w rest

end ChildWatch

/-! ## Inputs on events -/

def redact (d : Definition) : Json → Json
  | .obj fields =>
    .obj (fields.filter fun (name, _) => !((d.input? name).map (·.secret)).getD false)
  | json => json

/-- The members of the inputs; anything but an object has none. -/
def inputFields : Json → Json.Fields
  | .obj fields => fields
  | _ => []

end Agents
