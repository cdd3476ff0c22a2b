import Agents.Run.Engine

/-! # Running agents in steps

A pipeline keeps variables: its inputs at first, and then the outputs of each step under the step's
name. Neighbouring concurrent steps form a group and see the variables as they were before the
group. The first failure ends the pipeline.
-/

namespace Agents.Pipeline

/-- The groups of steps that run together. -/
def groups (steps : List PipelineStep) : List (List PipelineStep) :=
  steps.splitBy fun a b => a.concurrent && b.concurrent

def runStep (t : TaskContext) (vars : Json.Fields) (step : PipelineStep) :
    Fallible (String × Json) := do
  return (step.name, ← t.runChild step.agent (.obj (step.inputs.resolve vars)))

/-- Runs groups one after another; returns the variables and the outputs of the last step. How a
group is run may depend on how many groups follow. -/
def runGroupsWith (runGroup : (left : Nat) → Json.Fields → List PipelineStep →
    Fallible (List (String × Json))) (vars : Json.Fields) (last : Json) :
    List (List PipelineStep) → Fallible (Json.Fields × Json)
  | [] => return (vars, last)
  | group :: rest => do
    let outputs ← runGroup rest.length vars group
    runGroupsWith runGroup (Json.Fields.overlay vars outputs)
      ((outputs.getLast?.map (·.2)).getD last) rest

/-- The outputs of a pipeline: what it binds, or else those of its last step. -/
def outputsOf (spec : PipelineSpec) (vars : Json.Fields) (last : Json) : Json :=
  if spec.outputs.isEmpty then last else .obj (spec.outputs.resolve vars)

def processWith (t : TaskContext) (runGroup : (left : Nat) → Json.Fields → List PipelineStep →
    Fallible (List (String × Json))) (spec : PipelineSpec) (inputs : Json) : Fallible Json := do
  let (vars, last) ← runGroupsWith runGroup (inputFields inputs) .null (groups spec.steps)
  t.validated (outputsOf spec vars last)

/-! ## Steps one after another -/

/-- Runs a group; returns the outputs of its steps. -/
def runGroup (t : TaskContext) (vars : Json.Fields) (group : List PipelineStep) :
    Fallible (List (String × Json)) := group.mapM (runStep t vars)

def runGroups (t : TaskContext) (vars : Json.Fields) (last : Json)
    (groups : List (List PipelineStep)) : Fallible (Json.Fields × Json) :=
  runGroupsWith (fun _ => runGroup t) vars last groups

def process (t : TaskContext) (spec : PipelineSpec) (inputs : Json) : Fallible Json :=
  processWith t (fun _ => runGroup t) spec inputs

end Agents.Pipeline
