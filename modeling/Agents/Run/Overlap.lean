import Agents.Run.Execution

/-! # Steps that overlap

The concurrent steps of a pipeline take turns. In its turn a step goes on until something else has
to be waited for, and in its next turn it goes on from there. The first failure ends the group, and
whatever the other steps had still to do is dropped.

Who goes on when depends on how fast everything outside is, so the turns are a parameter: `Overlap`.
Where there are no turns left the steps run one after another.
-/

namespace Agents

namespace Activity

variable {α : Type}

inductive Step where
  | report (event : Event)
  | ask (query : Query)

/-- Goes on up to and with a step of this kind, and leaves the rest. -/
def upTo (stop : Step → Bool) : Activity α → Activity (Activity α)
  | .done result => .done (.done result)
  | .report event rest =>
    .report event (if stop (.report event) then .done rest else rest.upTo stop)
  | .ask query resume => .ask query fun answer =>
    if stop (.ask query) then .done (resume answer) else (resume answer).upTo stop
  | .tooDeep => .tooDeep

end Activity

structure Turn where
  /-- Which run goes on. -/
  run : Nat
  /-- The step that it waits after. -/
  stop : Activity.Step → Bool

/-- Runs several activities in turns, and after the last turn one after another. The first failure
is the failure of all. -/
def together {α : Type} : List Turn → List (Fallible α) → Fallible (List α)
  | [], runs => runs.mapM id
  | turn :: turns, runs =>
    match runs[turn.run]? with
    | none => together turns runs
    | some run => do
      match ← ExceptT.lift (run.run.upTo turn.stop) with
      | .done (.error e) => throw e
      | left => together turns (runs.set turn.run (ExceptT.mk left))

/-- How the concurrent steps of pipelines overlap. -/
structure Overlap where
  /-- The turns in a group of a task, by the number of groups that follow and the size of the
  group. -/
  turns : TaskId → (left size : Nat) → List Turn

/-- Runs a group in turns; returns the outputs of its steps. -/
def Pipeline.runGroupIn (overlap : Overlap) (t : TaskContext) (left : Nat) (vars : Json.Fields)
    (group : List PipelineStep) : Fallible (List (String × Json)) :=
  together (overlap.turns t.emitter.taskId left group.length) (group.map (runStep t vars))

namespace Overlap

/-- Does the work of the agent; the concurrent steps of a pipeline overlap. -/
def process (overlap : Overlap) (t : TaskContext) (inputs : Json) : Fallible TaskResult :=
  match t.definition.kind with
  | .pipeline spec =>
    TaskResult.ofOutputs <$> Pipeline.processWith t (Pipeline.runGroupIn overlap t) spec inputs
  | _ => t.process inputs

/-- The steps of a group run one after another. -/
def inOrder : Overlap := ⟨fun _ _ _ => []⟩

/-- Every step of a group has one turn, in order, and waits as soon as an agent of this kind has
started. -/
def atStart (waits : (assistantId : String) → Bool) : Overlap where
  turns _ _ size := (List.range size).map fun run =>
    { run
      stop := fun
        | .report (.execute _ _ assistantId _ .start _) => waits assistantId
        | _ => false }

end Overlap

/-- Whether the agent runs a script apart from everything else. A script that imports what it must
not is refused at once. -/
def Definition.runsScript (l : SandboxLimits) (d : Definition) : Bool :=
  match d.kind with
  | .scriptedLogic spec => (Script.checkImports spec.source l.allowedModules).toBool
  | _ => false

end Agents
