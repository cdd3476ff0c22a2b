import Agents.Error

/-! # The life of a task

A task is created, started and closed, in this order and once each.
-/

namespace Agents

inductive TaskPhase where
  | created
  | running
  | closed (stopped : Bool)
deriving DecidableEq, Repr, Inhabited

/-- The phase as an error message names it. -/
def TaskPhase.text : TaskPhase → String
  | .created => "Created"
  | .running => "Running"
  | .closed stopped => "Closed \x7b stopped: " ++ (if stopped then "true" else "false") ++ " \x7d"

inductive TaskAction where
  | start
  | close (stopped : Bool)
deriving DecidableEq, Repr, Inhabited

def TaskAction.verb : TaskAction → String
  | .start => "start"
  | .close _ => "close"

def TaskPhase.step? : TaskPhase → TaskAction → Option TaskPhase
  | .created, .start => some .running
  | .running, .close stopped => some (.closed stopped)
  | _, _ => none

/-- Performs an action on the task with this id. -/
def TaskPhase.step (taskId : String) (phase : TaskPhase) (action : TaskAction) :
    Except Error TaskPhase :=
  match phase.step? action with
  | some next => .ok next
  | none =>
    .error (.stateMachine
      ("task " ++ taskId ++ " cannot " ++ action.verb ++ " from " ++ phase.text))

end Agents
