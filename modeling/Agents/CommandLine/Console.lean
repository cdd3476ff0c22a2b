import Agents.CommandLine.Command
import Agents.Offline.Model
import Agents.Run.Execution
import Agents.Run.Services
import Agents.Trace.Recorder

/-! # Carrying out a command

A run prints the text of its events as they come, or every event as a line of JSON. After it come
the number of events and tasks, the digest of the recorded events, the token counts, and the
outputs. Models are offline ones.
-/

namespace Agents.CommandLine

/-- What a command needs of the machine it runs on. -/
structure Console (m : Type → Type) where
  /-- The text of a file, or why it cannot be read. -/
  fileText : (path : String) → m (Except String String)
  print : String → m Unit
  printError : String → m Unit
  clock : m Timestamp
  newTask : m TaskId
  http : HttpRequest → m (Except Error HttpResponse)

structure RunState where
  model : OfflineModel
  recorder : Recorder

/-! ## Inputs -/

/-- An input given as `name=value`. A value that is no JSON is text. -/
def input (pair : String) : Except Error (String × Json) :=
  match Text.splitAtFirst ['='] pair.toList with
  | none => .error (.invalidInput pair "expected NAME=VALUE")
  | some (name, raw) =>
    let raw := String.ofList raw
    .ok (String.ofList name, ((Json.parse raw).toOption).getD (.str raw))

def inputs (pairs : List String) : Except Error Json := return Json.ofMembers (← pairs.mapM input)

def maxDepth : Nat := 1000

namespace Console

variable {m : Type → Type} [Monad m]

/-! ## Files -/

def config (c : Console m) : Option String → ExceptT Error m Config
  | none => return {}
  | some path => do
    match ← c.fileText path with
    | .ok text => MonadExcept.ofExcept (Config.ofToml text)
    | .error why => throw (.config ("failed to read config file '" ++ path ++ "': " ++ why))

def project (c : Console m) (path : String) : ExceptT Error m Project := do
  match ← c.fileText path with
  | .ok text => MonadExcept.ofExcept (Project.ofText text)
  | .error why => throw (.config ("cannot read project file '" ++ path ++ "': " ++ why))

/-! ## Runs -/

def showEvent (c : Console m) (asJson : Bool) (event : Event) : m Unit :=
  if asJson then c.print (event.toJson.compact ++ "\n")
  else match event with
    | .chunk _ _ delta _ => c.print (delta.content.getD "")
    | .log _ assistant line _ => c.printError ("[" ++ assistant ++ "] " ++ line ++ "\n")
    | .error report => c.printError ("error: " ++ report.message ++ "\n")
    | _ => pure ()

/-- The services of a run: offline models, and nothing beside the project. -/
def services (c : Console m) (asJson : Bool) : Services (StateT RunState m) where
  model messages settings := do
    let s ← get
    let (stream, model) := s.model.call messages settings
    set { s with model }
    return .ok stream
  images prompt _ count := return .ok (OfflineImages.generate prompt count)
  agent _ := return .ok none
  endpoint _ := return .ok none
  memory _ := return .ok []
  http request := c.http request
  clock := c.clock
  newTask := c.newTask
  report event := do
    modify fun s => { s with recorder := s.recorder.record event }
    c.showEvent asJson event

def summary (recorder : Recorder) : String :=
  let tree := recorder.replay "user" "assistant"
  "\n── " ++ toString recorder.entries.length ++ " event(s), " ++ toString tree.traces.length
    ++ " task(s), digest " ++ recorder.digest ++ "\n"
    ++ match tree.usage with
      | none => ""
      | some u => "── usage: " ++ toString u.promptTokens ++ " prompt + "
        ++ toString u.completionTokens ++ " completion tokens\n"

def run (c : Console m) (r : RunCommand) : ExceptT Error m Unit := do
  let config ← c.config r.config
  let project ← c.project r.project
  let inputs ← MonadExcept.ofExcept (inputs r.inputs)
  let engine : Engine :=
    { project, config, model := some { isStructured := fun _ => true }, hasImageModel := true }
  let activity := engine.execute maxDepth project.id r.agent inputs {}
  let start : RunState := ⟨{ replies := r.replies }, .new ("demo-" ++ r.agent)⟩
  let ((result, _), last) ← ((c.services r.events).serve activity.run |>.run (some {})).run start
  c.print (summary last.recorder)
  let outputs ← MonadExcept.ofExcept
    (result.getD (.error (.resourceExceeded "nesting" (toString maxDepth))))
  c.print (outputs.pretty ++ "\n")

/-! ## Identities -/

def encodeId (c : Console m) (id : Identity) : ExceptT Error m Unit := do
  c.print ((← MonadExcept.ofExcept id.toToken) ++ "\n")

def decodeId (c : Console m) (token : String) : ExceptT Error m Unit := do
  let id ← MonadExcept.ofExcept (Identity.ofToken token)
  c.print (id.toJson.pretty ++ "\n")

/-! ## Commands -/

def identity (project agent : String) (component revision : Option String) : Identity :=
  let id := Identity.inProject project agent
  let id := (component.map (id.withComponent ·)).getD id
  (revision.map (id.withRevision ·)).getD id

def perform (c : Console m) : Command → ExceptT Error m Unit
  | .run r => c.run r
  | .encodeId project agent component revision =>
    c.encodeId (identity project agent component revision)
  | .decodeId token => c.decodeId token
  | .help text => c.print text

def main (c : Console m) (args : List String) : m UInt32 := do
  match Command.ofArgs? args with
  | none =>
    c.printError ("error: the arguments cannot be used\n\n" ++ Command.usage
      ++ "\n\nFor more information, try '--help'.\n")
    return 2
  | some command =>
    match ← (c.perform command).run with
    | .ok () => return 0
    | .error e =>
      c.printError ("Demo error: " ++ e.message ++ "\n")
      return 1

end Console

end Agents.CommandLine
