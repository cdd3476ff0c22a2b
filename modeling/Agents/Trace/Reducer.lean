import Agents.Trace.TaskTree

/-! # Reducing events to a task tree

`TaskTree.reduce` applies one event. It reads no clock and mints no ids, so the same events always
give the same tree. The first piece of output decides which task is the main one; an ERROR freezes
the tree, and so does cancelling.
-/

namespace Agents.TaskTree

/-! ## Tables -/

/-- Changes the trace of a task, after adding a fresh one if the task was not seen before. A fresh
trace stands one below its parent's, if that exists by now; a parent that was unknown is kept. -/
def updateTrace (taskId : TaskId) (parent : Option TaskId) (assistantId : String)
    (change : Trace → Trace) (t : TaskTree) : TaskTree :=
  let withParent (trace : Trace) : Trace :=
    { trace with parentTaskId := trace.parentTaskId.or parent }
  if t.traces.any (·.taskId = taskId) then
    { t with traces := t.traces.map fun trace =>
        if trace.taskId = taskId then change (withParent trace) else trace }
  else
    let deep := ((parent.bind t.trace?).map (·.deep + 1)).getD 0
    { t with traces := t.traces ++ [change { taskId, parentTaskId := parent, assistantId, deep }] }

def appendSubMessage (taskId : TaskId) (assistantId : String) (delta : ChunkDelta)
    (t : TaskTree) : TaskTree :=
  if t.subMessages.any (·.taskId = taskId) then
    { t with subMessages := t.subMessages.map fun s =>
        if s.taskId = taskId then { s with output := s.output.append delta } else s }
  else
    { t with subMessages :=
        t.subMessages ++ [{ taskId, assistantId, output := OutputBuffer.append {} delta }] }

def addUsage (total : Option Usage) (u : Usage) : Option Usage :=
  some (total.getD ⟨0, 0, 0⟩ + u)

/-! ## Events -/

def applyPhase (phase : ExecutePhase) (timestamp : Option Timestamp) (trace : Trace) : Trace :=
  match phase with
  | .start => { trace with startTime := timestamp.or trace.startTime }
  | .finish => { trace with endTime := timestamp.or trace.endTime }
  | .stop => { trace with endTime := timestamp.or trace.endTime, stop := true }

/-- A piece of output: the main task's goes to the answer, another task's to its trace and, unless
the task keeps silent, to its sub-message. -/
def applyChunk (taskId : TaskId) (assistantId : String) (delta : ChunkDelta)
    (respondAs : Option RespondAs) (t : TaskTree) : TaskTree :=
  let main := t.mainTaskId.getD taskId
  let t := { t with mainTaskId := some main }
  if main = taskId then { t with answer := t.answer.append delta }
  else
    let t := if respondAs = some .none then t else t.appendSubMessage taskId assistantId delta
    t.updateTrace taskId none assistantId fun trace =>
      { trace with output := trace.output.append delta }

/-- The effect of an event on a tree that is not frozen. -/
def apply (t : TaskTree) : Event → TaskTree
  | .inputParameter content => { t with userContent := content }
  | .input taskId parent assistantId name inputs prompt =>
    t.updateTrace taskId parent assistantId fun trace =>
      { trace with
        assistantId
        assistantName := name
        inputParameters := inputs
        promptMessages := prompt.or trace.promptMessages }
  | .chunk taskId assistantId delta respondAs => t.applyChunk taskId assistantId delta respondAs
  | .execute taskId parent assistantId name phase timestamp =>
    t.updateTrace taskId parent assistantId fun trace =>
      applyPhase phase timestamp
        { trace with
          assistantName :=
            if trace.assistantName = "" then name.getD "" else trace.assistantName }
  | .usage taskId assistantId u =>
    let t := t.updateTrace taskId none assistantId fun trace =>
      { trace with usage := addUsage trace.usage u }
    { t with usage := addUsage t.usage u }
  | .log taskId assistantId message timestamp =>
    t.updateTrace taskId none assistantId fun trace =>
      { trace with logs := trace.logs ++ [{ message, timestamp }] }
  | .error report => { t with error := some report }
  | .progress _ => t

/-- Applies one event; a frozen tree stays as it is. -/
def reduce (t : TaskTree) (e : Event) : TaskTree := if t.isFrozen then t else t.apply e

def reduceAll (t : TaskTree) (es : List Event) : TaskTree := es.foldl reduce t

def cancel (t : TaskTree) : TaskTree := { t with cancelled := true }

@[simp] theorem reduceAll_nil (t : TaskTree) : t.reduceAll [] = t := rfl

@[simp] theorem reduceAll_cons (t : TaskTree) (e : Event) (es : List Event) :
    t.reduceAll (e :: es) = (t.reduce e).reduceAll es := rfl

theorem reduceAll_append (t : TaskTree) (es fs : List Event) :
    t.reduceAll (es ++ fs) = (t.reduceAll es).reduceAll fs := List.foldl_append

theorem reduce_of_isFrozen {t : TaskTree} (h : t.isFrozen = true) (e : Event) :
    t.reduce e = t := by simp [reduce, h]

end Agents.TaskTree
