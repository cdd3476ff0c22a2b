import Agents.Config
import Agents.Project
import Agents.Retry
import Agents.Run.Activity
import Agents.Task.Emitter
import Agents.Template
import Agents.Verify.Report

/-! # The engine and its tasks

An engine runs the agents of a project. Every run of an agent is a task, and a task that runs
another agent becomes its parent. What a task needs to know about itself, and how it runs a child,
is its context.
-/

namespace Agents

/-- What is known of a model before it is asked. -/
structure ModelTraits where
  /-- Whether the model follows the schema that it is given. -/
  isStructured : ModelSettings → Bool := fun _ => false

structure Engine where
  project : Project
  config : Config := {}
  verifier : Verifier := .ofChecks []
  /-- The model, if there is one. -/
  model : Option ModelTraits := none
  hasImageModel : Bool := false

structure RunOptions where
  parentTaskId : Option TaskId := none
  /-- Whether it is an error if there is no such agent. -/
  isRequired : Bool := true
  /-- No attempt is repeated from then on. -/
  deadline : Option Timestamp := none
  /-- The retries of agents that do not set their own. -/
  maxRetries : Option Nat := none
  /-- What the user wrote; reported before a run that has no parent. -/
  userMessage : Option String := none
deriving Inhabited

/-- A task from its own point of view. -/
structure TaskContext where
  engine : Engine
  definition : Definition
  identity : Identity
  emitter : TaskEmitter
  options : RunOptions
  /-- Runs the agent that is referred to so, as a child of this task. -/
  runChild : (agentRef : String) → (inputs : Json) → Fallible Json

structure TaskResult where
  outputs : Json
  /-- Whether the task decided to stop. -/
  stopped : Bool := false
deriving Inhabited

/-- The result of a task that does not decide. -/
def TaskResult.ofOutputs (outputs : Json) : TaskResult := ⟨outputs, false⟩

def TaskResult.phase (r : TaskResult) : ExecutePhase := if r.stopped then .stop else .finish

namespace TaskContext

/-- How often a failed attempt is repeated: the agent knows best, then the caller. -/
def maxRetries (t : TaskContext) : Nat :=
  (t.definition.maxRetries.or t.options.maxRetries).getD t.engine.config.maxRetries

def isPastDeadline (t : TaskContext) : Activity Bool :=
  match t.options.deadline with
  | none => return false
  | some deadline => return !(← Activity.now).isBefore deadline

/-- Attempts until there is a result or none can be had. -/
def retry {α : Type} (t : TaskContext) (attempt : Nat → Fallible α) : Fallible α :=
  Retry.run t.definition.id t.maxRetries t.isPastDeadline fun n => (attempt n).run

/-- Fails unless the outputs meet the agent's schema. -/
def validate (t : TaskContext) (outputs : Json) : Except Error Unit :=
  t.engine.verifier.ensure (.full t.definition) outputs

def validated (t : TaskContext) (outputs : Json) : Fallible Json := do
  MonadExcept.ofExcept (t.validate outputs)
  return outputs

/-! ## Events -/

def report (events : List Event) : Fallible Unit := Activity.reportAll events

def reportPhase (t : TaskContext) (phase : ExecutePhase) : Activity Unit := do
  Activity.reportAll (t.emitter.execute phase (← Activity.now))

def reportUsage (t : TaskContext) (usage : Option Usage) : Fallible Unit :=
  match usage with
  | some u => report (t.emitter.usage u)
  | none => pure ()

/-! ## Services -/

def memory (t : TaskContext) : Fallible Json.Fields :=
  Json.Fields.ofList <$> ExceptT.mk (Activity.query (.memory t.identity))

def callModel (messages : List ChatMessage) (settings : ModelSettings) :
    Fallible (Stream ModelDelta) :=
  ExceptT.mk (Activity.query (.model messages settings))

/-- What the model is, or why it cannot be asked. -/
def model (t : TaskContext) : Except Error ModelTraits :=
  match t.engine.model with
  | some traits => .ok traits
  | none => .error (.model "no model collaborator configured")

/-- What the task's templates see. -/
def scope (t : TaskContext) (inputs : Json) (memory : Json.Fields) : Template.Scope where
  inputs := inputs
  memory := memory
  declarations := t.definition.inputs

/-- The settings of a call, in which an unnamed model is the default one. -/
def settings (t : TaskContext) (s : ModelSettings) : ModelSettings :=
  if s.model = "" then { s with model := t.engine.config.defaultModel } else s

end TaskContext

end Agents
