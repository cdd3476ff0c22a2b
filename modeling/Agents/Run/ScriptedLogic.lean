import Agents.Http.Request
import Agents.Run.JsonDocument
import Agents.Script.Session

/-! # Running a script

The script's calls are answered by the task: log lines and documents become events, requests are
sent if their URL is allowed, and agents are run as children. After the script has ended its streams
are read: one that is a streamed output is reported as text, and every other becomes an array.

Only the first attempt is heard. Further ones do the same in silence.
-/

namespace Agents.ScriptedLogic

/-! ## Calls -/

/-- Sends a request of a script, if it may. -/
def fetch (t : TaskContext) (method url : String) (body : Json) : Fallible Json := do
  MonadExcept.ofExcept (Url.ensureAllowed t.engine.config.http.allowedBaseUrls url)
  let body := if body.isNull then none else some body
  let response ← ExceptT.mk (Activity.query (.http { method, url, body }))
  return response.toJson

/-- Passes a child's event on, and repeats the child's text as the task's own. -/
def repeatText (emitter : TaskEmitter) (watch : ChildWatch) (event : Event) :
    List Event × ChildWatch :=
  let (watch, said) := watch.observe event
  (emitter.emit event ++ (said.map emitter.text).getD [], watch)

def passOn (emitter : TaskEmitter) (_ : Unit) (event : Event) : List Event × Unit :=
  (emitter.emit event, ())

def runAgent (t : TaskContext) (emitter : TaskEmitter) (agent : String) (inputs : Json)
    (relayText : Bool) : Fallible Json := do
  let child := (t.runChild agent inputs).run
  let result ←
    if relayText then
      Prod.fst <$> child.through (repeatText emitter) { watcher := emitter.taskId }
    else Prod.fst <$> child.through (passOn emitter) ()
  MonadExcept.ofExcept result

def logLine (emitter : TaskEmitter) (message : String) : Fallible Json := do
  TaskContext.report (emitter.log message (← Activity.now))
  return .null

/-- Answers a call; `emitter` is silent if the attempt is. -/
def answer (t : TaskContext) (emitter : TaskEmitter) : Script.HostCall → Fallible Json
  | .log message => logLine emitter message
  | .fetch method url body => fetch t method url body
  | .runAgent agent inputs relayText => runAgent t emitter agent inputs relayText
  | .renderJson parts =>
    let schema := OutputSchema.partialOf t.definition
    Composer.compose ⟨emitter, t.engine.verifier.accepts schema⟩ t parts

/-! ## Streams -/

def isNarrative (d : Definition) (path : String) : Bool :=
  match path.toList with
  | '/' :: name => d.isStreamingText (String.ofList name)
  | _ => false

def readStream (t : TaskContext) (attempt : Nat) (path : String) (items : Stream Json) :
    Fallible Json := do
  if isNarrative t.definition path then
    if attempt = 1 then
      TaskContext.report ((items.received.map Json.valueText).flatMap t.emitter.text)
    let values ← MonadExcept.ofExcept items.collect
    return .str (String.join (values.map Json.valueText))
  else
    return .arr (← MonadExcept.ofExcept items.collect)

/-- Reads the streams at some paths and puts what they hold in their places. -/
def readStreams (t : TaskContext) (attempt : Nat) (value : Json) (relay : Script.Relay) :
    (paths : List String) → Fallible Json
  | [] => return value
  | path :: rest => do
    let (items, relay) := relay.items path
    let held ← readStream t attempt path items
    readStreams t attempt ((Json.replaceAt? path held value).getD value) relay rest

/-! ## Attempts -/

/-- Runs the script until its outputs meet the schema. -/
def process (t : TaskContext) (spec : ScriptSpec) (inputs : Json) : Fallible Json :=
  t.retry fun attempt => do
    let emitter := if attempt = 1 then t.emitter else t.emitter.mute
    let handle (call : Script.HostCall) : Activity (Option (Except Error Json)) :=
      some <$> (answer t emitter call).run
    let outcome ← ExceptT.mk
      (Script.run t.engine.config.sandbox spec.source (inputFields inputs) handle)
    let paths := Script.streamPaths outcome.value
    t.validated (← readStreams t attempt outcome.value { channel := outcome.relay } paths)

end Agents.ScriptedLogic
