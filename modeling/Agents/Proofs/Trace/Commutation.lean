import Agents.Proofs.Trace.Tables
import Mathlib.Data.List.Pairwise
import Mathlib.Data.List.Perm.Basic

/-! # Announcements in any order

What a task says of itself is its INPUT and the phases of its execution. They all name the task, its
parent and its agent, so any of them may be the first to make its trace, and two of them are one
change of that trace (`updateTrace_updateTrace`). Two whose changes may be swapped may therefore
themselves be swapped (`Announces.swaps`), in a tree that has the trace or its parent already
as well as in one that does not.

The changes of an INPUT and of a phase both concern the agent's name, which one overwrites and the
other fills in: they may be swapped because both give the same name. A START and a closing phase set
different times.
-/

namespace Agents

/-! ## Changing a trace twice -/

theorem Trace.adopt_of_parentTaskId {parent : Option TaskId} {old new : Trace}
    (h : new.parentTaskId = (old.adopt parent).parentTaskId) : new.adopt parent = new := by
  have hparent : new.parentTaskId.or parent = new.parentTaskId := by
    rw [h, adopt, Option.or_assoc, Option.or_self]
  rw [adopt, hparent]

namespace TaskTree

/-- Two changes of a trace, for the same parent and agent, are one. -/
theorem updateTrace_updateTrace (t : TaskTree) (id : TaskId) (parent : Option TaskId)
    (assistantId : String) {change : Trace → Trace}
    (htask : ∀ trace, (change trace).taskId = trace.taskId)
    (hparent : ∀ trace, (change trace).parentTaskId = trace.parentTaskId)
    (change' : Trace → Trace) :
    (t.updateTrace id parent assistantId change).updateTrace id parent assistantId change' =
      t.updateTrace id parent assistantId fun trace => change' (change trace) := by
  have hkey : ∀ trace : Trace, (change (trace.adopt parent)).taskId = trace.taskId :=
    fun trace => htask (trace.adopt parent)
  have hadopt : ∀ trace : Trace,
      (change (trace.adopt parent)).adopt parent = change (trace.adopt parent) :=
    fun trace => Trace.adopt_of_parentTaskId (hparent (trace.adopt parent))
  have htraces :
      ((t.updateTrace id parent assistantId change).updateTrace id parent assistantId
        change').traces =
      (t.updateTrace id parent assistantId fun trace => change' (change trace)).traces := by
    rw [traces_updateTrace, traces_updateTrace t, traces_updateTrace t]
    refine (upsert_upsert hkey ?_ _ _ _).trans ?_
    · rfl
    · simp only [hadopt]
  rw [updateTrace_eq, htraces, updateTrace_eq t id parent assistantId change]
  exact (updateTrace_eq t id parent assistantId _).symm

theorem isFrozen_updateTrace (t : TaskTree) (id : TaskId) (parent : Option TaskId)
    (assistantId : String) (change : Trace → Trace) :
    (t.updateTrace id parent assistantId change).isFrozen = t.isFrozen := by
  rw [updateTrace_eq]
  rfl

end TaskTree

namespace Event

/-! ## What a task says of itself -/

/-- The two events may come in either order, whatever came before. -/
def Swaps (e e' : Event) : Prop :=
  ∀ t : TaskTree, (t.reduce e).reduce e' = (t.reduce e').reduce e

instance : Std.Symm Swaps := ⟨fun _ _ h t => (h t).symm⟩

/-- The event is an INPUT or a phase of the task, for this parent and agent. -/
inductive Announces (id : TaskId) (parent : Option TaskId) (assistantId : String) : Event → Prop
  | input (name : String) (inputs : Json) (prompt : Option (List ChatMessage)) :
    Announces id parent assistantId (.input id parent assistantId name inputs prompt)
  | execute (name : Option String) (phase : ExecutePhase) (timestamp : Option Timestamp) :
    Announces id parent assistantId (.execute id parent assistantId name phase timestamp)

namespace Announces

variable {id : TaskId} {parent : Option TaskId} {assistantId : String} {e e' : Event}

theorem apply_eq (h : e.Announces id parent assistantId) (t : TaskTree) :
    t.apply e = t.updateTrace id parent assistantId e.change := by
  cases h with
  | input => rfl
  | execute => rfl

theorem reduce_reduce (h : e.Announces id parent assistantId)
    (h' : e'.Announces id parent assistantId) {t : TaskTree} (hlive : t.isFrozen = false) :
    (t.reduce e).reduce e' =
      t.updateTrace id parent assistantId fun trace => e'.change (e.change trace) := by
  have hreduce : t.reduce e = t.updateTrace id parent assistantId e.change := by
    rw [TaskTree.reduce, hlive, h.apply_eq]
    rfl
  have hlive' : (t.reduce e).isFrozen = false := by
    rw [hreduce, TaskTree.isFrozen_updateTrace, hlive]
  rw [TaskTree.reduce, hlive', h'.apply_eq, hreduce,
    TaskTree.updateTrace_updateTrace _ _ _ _ e.taskId_change e.parentTaskId_change]
  rfl

/-- Two announcements may be swapped if their changes of a trace may. -/
theorem swaps (h : e.Announces id parent assistantId) (h' : e'.Announces id parent assistantId)
    (hswap : ∀ trace, e'.change (e.change trace) = e.change (e'.change trace)) : e.Swaps e' := by
  intro t
  cases hfrozen : t.isFrozen with
  -- a frozen tree takes neither, and a live one stays live between the two
  | true =>
    have hstays := TaskTree.reduce_of_isFrozen hfrozen
    rw [hstays e, hstays e', hstays e]
  | false =>
    rw [h.reduce_reduce h' hfrozen, h'.reduce_reduce h hfrozen]
    simp only [hswap]

end Announces

section Swap

variable (id : TaskId) (parent : Option TaskId) (assistantId : String)

/-- An INPUT writes the name that a phase fills in where there is none. -/
theorem change_input_execute (name : String) (inputs : Json) (prompt : Option (List ChatMessage))
    (phase : ExecutePhase) (timestamp : Option Timestamp) (trace : Trace) :
    let input := Event.input id parent assistantId name inputs prompt
    let execute := Event.execute id parent assistantId (some name) phase timestamp
    execute.change (input.change trace) = input.change (execute.change trace) := by
  show TaskTree.applyPhase phase timestamp
      { trace with
        assistantId
        assistantName := if name = "" then name else name
        inputParameters := inputs
        promptMessages := prompt.or trace.promptMessages } = _
  -- where the INPUT wrote an empty name, the phase fills in the same one
  rw [ite_self]
  cases phase with
  | start | finish | stop => rfl

theorem change_start_closing (name : Option String) {phase : ExecutePhase} (hphase : phase ≠ .start)
    (started ended : Option Timestamp) (trace : Trace) :
    let start := Event.execute id parent assistantId name .start started
    let closing := Event.execute id parent assistantId name phase ended
    closing.change (start.change trace) = start.change (closing.change trace) := by
  cases phase with
  | start => exact absurd rfl hphase
  | finish | stop => rfl

end Swap

end Event

namespace TaskTree

/-! ## Any order -/

theorem reduceAll_perm {es fs : List Event} (h : es.Perm fs) (hswap : fs.Pairwise Event.Swaps)
    (t : TaskTree) : t.reduceAll es = t.reduceAll fs := by
  refine (h.symm.foldl_eq' ?_ t).symm
  intro e he e' he' t
  exact hswap.forall_of_forall (fun _ _ _ => rfl) he he' t

/-- The INPUT of a task may be swapped with any phase of the task that gives the same parent, agent
and name, and its START with the phase that closes it, in any tree: a frozen one, and one that knows
the task, or its parent, or neither. So the three may come in any order. -/
theorem reduce_announces_comm (id : TaskId) (parent : Option TaskId) (assistantId name : String)
    (inputs : Json) (prompt : Option (List ChatMessage)) :
    let input := Event.input id parent assistantId name inputs prompt
    let execute := Event.execute id parent assistantId
    (∀ phase timestamp, input.Swaps (execute (some name) phase timestamp)) ∧
    ∀ phase ≠ ExecutePhase.start, ∀ started ended,
      (∀ name?, (execute name? .start started).Swaps (execute name? phase ended)) ∧
      let announced := [input, execute (some name) .start started, execute (some name) phase ended]
      ∀ es, es.Perm announced → ∀ t : TaskTree, t.reduceAll es = t.reduceAll announced := by
  intro input execute
  have hinput : input.Announces id parent assistantId := .input name inputs prompt
  have hexecute (name? phase timestamp) :
      (execute name? phase timestamp).Announces id parent assistantId :=
    .execute name? phase timestamp
  have hphase (phase timestamp) : input.Swaps (execute (some name) phase timestamp) :=
    hinput.swaps (hexecute (some name) phase timestamp)
      (Event.change_input_execute id parent assistantId name inputs prompt phase timestamp)
  refine ⟨hphase, ?_⟩
  intro phase hclosing started ended
  have hclose (name?) : (execute name? .start started).Swaps (execute name? phase ended) :=
    (hexecute name? .start started).swaps (hexecute name? phase ended)
      (Event.change_start_closing id parent assistantId name? hclosing started ended)
  refine ⟨hclose, ?_⟩
  intro announced es hperm t
  refine reduceAll_perm hperm ?_ t
  simp [announced, hphase, hclose]

/-- A poet who ends before it is known to have started, in a run that has heard it already. -/
theorem reduce_announces_comm_poet :
    let input := Event.input "poet" (some "main") "writer" "Poet" (.str "rain") none
    let execute := Event.execute "poet" (some "main") "writer" (some "Poet")
    let announced := [input, execute .start none, execute .stop (some default)]
    let heard := (new "user" "assistant").reduceAll
      [.chunk "main" "studio" (.ofText "A poem: ") none,
        .chunk "poet" "writer" (.ofText "it rains") none]
    ExecutePhase.stop ≠ .start ∧
      [execute .stop (some default), input, execute .start none].Perm announced ∧
      heard.reduceAll [execute .stop (some default), input, execute .start none] =
        heard.reduceAll announced := by
  intro input execute announced heard
  have hperm : [execute .stop (some default), input, execute .start none].Perm announced :=
    (List.Perm.swap _ _ _).trans (.cons _ (.swap _ _ _))
  have hclosing : ExecutePhase.stop ≠ .start := by decide
  obtain ⟨-, hany⟩ := reduce_announces_comm "poet" (some "main") "writer" "Poet" (.str "rain") none
  exact ⟨hclosing, hperm, (hany .stop hclosing none (some default)).2 _ hperm heard⟩

end TaskTree

end Agents
