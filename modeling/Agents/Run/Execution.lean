import Agents.Fingerprint
import Agents.Run.Decision
import Agents.Run.HttpApi
import Agents.Run.ImageGeneration
import Agents.Run.ModelPrompt
import Agents.Run.Pipeline
import Agents.Run.ScriptedLogic

/-! # Running an agent

To run an agent is to find it, to complete its inputs, and then to perform its task, unless the
outputs of an equal run are still known. A task reports its INPUT and its start, does the work of
its kind of agent, and reports its end. A run from outside that fails after its task began ends with
one ERROR event; a streamed one ends with an ERROR event or its outputs in any case.

How deep agents may be nested is given as a number, so that every run is finite.
-/

namespace Agents

/-! ## Tasks -/

namespace TaskContext

/-- The prompt that is shown with the inputs; only agents that ask a model have one. -/
def prompt (t : TaskContext) (inputs : Json) : Fallible (Option (List ChatMessage)) :=
  match t.definition.kind with
  | .modelPrompt spec => some <$> ModelPrompt.prompt t spec inputs
  | .decision spec => pure (some (Decision.prompt spec (redact t.definition inputs)))
  | .scriptedLogic _ | .pipeline _ | .httpApi _ | .imageGeneration _ => pure none

def process (t : TaskContext) (inputs : Json) : Fallible TaskResult :=
  match t.definition.kind with
  | .modelPrompt spec => TaskResult.ofOutputs <$> ModelPrompt.process t spec inputs
  | .scriptedLogic spec => TaskResult.ofOutputs <$> ScriptedLogic.process t spec inputs
  | .pipeline spec => TaskResult.ofOutputs <$> Pipeline.process t spec inputs
  | .decision spec => Decision.process t spec inputs
  | .httpApi spec => TaskResult.ofOutputs <$> HttpApi.process t spec inputs
  | .imageGeneration spec => TaskResult.ofOutputs <$> ImageGeneration.process t spec inputs

/-- Performs the task from its INPUT to its end, with `work` between its start and its end. A prompt
that cannot be rendered is not shown. -/
def performWith (t : TaskContext) (work : Json → Fallible TaskResult) (inputs : Json) :
    Fallible Json := do
  let shown := (← ExceptT.lift (t.prompt inputs).run).toOption.join
  report (t.emitter.input (redact t.definition inputs) shown)
  t.reportPhase .start
  match ← ExceptT.lift (work inputs).run with
  | .ok result =>
    t.reportPhase result.phase
    return result.outputs
  | .error e =>
    t.reportPhase .finish
    throw e

def perform (t : TaskContext) (inputs : Json) : Fallible Json := t.performWith t.process inputs

end TaskContext

/-! ## Inputs -/

def prepareInput (fields : Json.Fields) (d : InputDecl) : Except Error Json.Fields :=
  match (Json.Fields.get? d.name fields).filter (!·.isNull), d.default with
  | some _, _ => .ok fields
  | none, some value => .ok (Json.Fields.insert d.name value fields)
  | none, none =>
    if d.isOptional then .ok fields
    else .error (.invalidInput d.name "required input is missing")

/-- The inputs with the declared defaults; nothing that is required may be missing or `null`. -/
def prepareInputs (d : Definition) (inputs : Json) : Except Error Json :=
  match inputs with
  | .obj fields => Json.obj <$> d.inputs.foldlM prepareInput fields
  | .null => Json.obj <$> d.inputs.foldlM prepareInput []
  | other => .error (.invalidInput "*" ("inputs must be an object, got " ++ other.compact))

/-! ## Runs -/

/-- Why a run failed, and whether its task had begun. -/
structure RunFailure where
  error : Error
  started : Bool
deriving Inhabited

namespace Engine

/-- Finds an agent that is referred to from a project: in this engine's own project first. -/
def resolve (e : Engine) (projectId agentRef : String) :
    Fallible (Option (Identity × Definition)) := do
  let identity := (AgentRef.parse agentRef).toIdentity projectId
  let own := if identity.isLocalTo e.project.id then e.project.agent? identity.agentId else none
  match own with
  | some d => return some (identity, d)
  | none => return (← ExceptT.mk (Activity.query (.agent identity))).map (identity, ·)

def reportError (error : Error) : Activity Unit := do
  Activity.reportAll [.error (.ofError error (← Activity.now))]

/-! ### Runs with their work given

How the work of a task is done is a parameter of a run: one task after another, or the concurrent
steps of a pipeline in turns.
-/

section Work

variable (work : TaskContext → Json → Fallible TaskResult)

/-- Begins the task of an agent, and performs it. -/
def performTaskWith (e : Engine) (identity : Identity) (d : Definition) (options : RunOptions)
    (runChild : TaskId → String → Json → Fallible Json) (inputs : Json) : Fallible Json := do
  let greeting := if options.parentTaskId.isNone then options.userMessage else none
  TaskContext.report (greeting.map Event.inputParameter).toList
  let taskId ← Activity.query .newTask
  let t : TaskContext :=
    { engine := e, definition := d, identity, options
      emitter := .forAgent d taskId options.parentTaskId
      runChild := runChild taskId }
  t.performWith (work t) inputs

/-- Runs an agent that was found, unless its outputs are known. -/
def runDefinitionWith (e : Engine) (identity : Identity) (d : Definition) (options : RunOptions)
    (runChild : TaskId → String → Json → Fallible Json) (inputs : Json) :
    ExceptT RunFailure Activity Json := do
  let inputs ← (MonadExcept.ofExcept (prepareInputs d inputs) : Fallible Json).adapt (⟨·, false⟩)
  let key := fingerprint identity inputs
  match ← Activity.query (.recall key) with
  | some outputs => return outputs
  | none =>
    let outputs ← (e.performTaskWith work identity d options runChild inputs).adapt (⟨·, true⟩)
    Activity.query (.remember key outputs)
    return outputs

def runWith (e : Engine) : (depth : Nat) → (projectId agentRef : String) → Json → RunOptions →
    ExceptT RunFailure Activity Json
  | 0, _, _, _, _ => ExceptT.mk .tooDeep
  | depth + 1, projectId, agentRef, inputs, options => do
    match ← (e.resolve projectId agentRef).adapt (⟨·, false⟩) with
    | none =>
      if options.isRequired then throw ⟨.agentNotFound agentRef, false⟩
      return .null
    | some (identity, d) =>
      let runChild (parent : TaskId) (agentRef : String) (inputs : Json) : Fallible Json :=
        (e.runWith depth identity.projectId agentRef inputs
          { parentTaskId := some parent, deadline := options.deadline,
            maxRetries := options.maxRetries }).adapt RunFailure.error
      e.runDefinitionWith work identity d options runChild inputs

/-- Runs an agent from outside. A run without a parent that fails after its task began ends with an
ERROR event. -/
def executeWith (e : Engine) (depth : Nat) (projectId agentRef : String) (inputs : Json)
    (options : RunOptions) : Fallible Json := do
  match ← (e.runWith work depth projectId agentRef inputs options).run with
  | .ok outputs => return outputs
  | .error failure =>
    if options.parentTaskId.isNone && failure.started then reportError failure.error
    throw failure.error

/-- Runs an agent of the project for a reader of updates. Every failure ends with an ERROR event; a
success is completed by the outputs. -/
def streamWith (e : Engine) (depth : Nat) (agentRef : String) (inputs : Json)
    (options : RunOptions) : Activity (Option Json) := do
  match ← (e.runWith work depth e.project.id agentRef inputs options).run with
  | .ok outputs => return some outputs
  | .error failure =>
    reportError failure.error
    return none

end Work

/-! ### Runs in which one thing is done after the other -/

def runDefinition (e : Engine) (identity : Identity) (d : Definition) (options : RunOptions)
    (runChild : TaskId → String → Json → Fallible Json) (inputs : Json) :
    ExceptT RunFailure Activity Json :=
  e.runDefinitionWith TaskContext.process identity d options runChild inputs

def run (e : Engine) (depth : Nat) (projectId agentRef : String) (inputs : Json)
    (options : RunOptions) : ExceptT RunFailure Activity Json :=
  e.runWith TaskContext.process depth projectId agentRef inputs options

/-- Runs an agent from outside. -/
def execute (e : Engine) (depth : Nat) (projectId agentRef : String) (inputs : Json)
    (options : RunOptions) : Fallible Json :=
  e.executeWith TaskContext.process depth projectId agentRef inputs options

theorem run_succ (e : Engine) (depth : Nat) (projectId agentRef : String) (inputs : Json)
    (options : RunOptions) : e.run (depth + 1) projectId agentRef inputs options = (do
      match ← (e.resolve projectId agentRef).adapt (⟨·, false⟩) with
      | none =>
        if options.isRequired then throw ⟨.agentNotFound agentRef, false⟩
        return .null
      | some (identity, d) =>
        let runChild (parent : TaskId) (agentRef : String) (inputs : Json) : Fallible Json :=
          (e.run depth identity.projectId agentRef inputs
            { parentTaskId := some parent, deadline := options.deadline,
              maxRetries := options.maxRetries }).adapt RunFailure.error
        e.runDefinition identity d options runChild inputs) := rfl

theorem execute_eq (e : Engine) (depth : Nat) (projectId agentRef : String) (inputs : Json)
    (options : RunOptions) : e.execute depth projectId agentRef inputs options = (do
      match ← (e.run depth projectId agentRef inputs options).run with
      | .ok outputs => return outputs
      | .error failure =>
        if options.parentTaskId.isNone && failure.started then reportError failure.error
        throw failure.error) := rfl

end Engine

/-! ## Streamed runs -/

/-- What the reader of a streamed run receives. -/
inductive RunUpdate where
  | event (event : Event)
  | completed (outputs : Json)
deriving Inhabited

namespace RunUpdate

/-- The updates of a streamed run with these events and outputs. -/
def ofRun (events : List Event) (outputs : Option Json) : List RunUpdate :=
  events.map .event ++ (outputs.map .completed).toList

def name : RunUpdate → String
  | .event _ => "event"
  | .completed _ => "completed"

end RunUpdate

end Agents
