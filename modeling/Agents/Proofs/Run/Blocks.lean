import Agents.Proofs.Run.Outcome

/-! # Tasks inside tasks

While a task is open its children come and go. `Inside` says what there is between the start and
the end of a task: output of the tasks that are open, and the whole blocks of its children, inside
of which the same holds with one more open task.

- The work of every task is of this form (`inside_of_ran`). What a task adds to the events of a
  child it only adds after the child's own output, so it stays inside the child's block.
- Every block has a place, and what is around it belongs to the open tasks and to others
  (`Inside.place`). None of this needs ids to be distinct.
-/

namespace Agents

open Activity

/-- The task `c` is a run that the task `p` started, with this exchange. -/
def Engine.Starts (e : Engine) (p c : TaskRun) (log : List Exchange) : Prop :=
  ∃ (depth : Nat) (agentRef : String) (inputs : Json) (said : List Event),
    e.Performs depth p.context.identity.projectId agentRef inputs
      { parentTaskId := some p.id, deadline := p.context.options.deadline,
        maxRetries := p.context.options.maxRetries } c log said

/-- What goes on in the task `p` while the tasks `live` are open: its exchange, the events, and the
tasks that begin and end. -/
inductive Inside (e : Engine) :
    List TaskId → TaskRun → List Exchange → List Event → List TaskRun → Prop
  | nil {live : List TaskId} {p : TaskRun} : Inside e live p [] [] []
  | exchange (x : Exchange) {live : List TaskId} {p : TaskRun} {log : List Exchange}
      {es : List Event} {tasks : List TaskRun} :
      Inside e live p log es tasks → Inside e live p (x :: log) es tasks
  | output {event : Event} {id : TaskId} {live : List TaskId} {p : TaskRun} {log : List Exchange}
      {es : List Event} {tasks : List TaskRun} :
      event.IsOutputOf id → id ∈ live → Inside e live p log es tasks →
      Inside e live p log (event :: es) tasks
  | child {c : TaskRun} {live : List TaskId} {p : TaskRun} {started log : List Exchange}
      {inner es : List Event} {within tasks : List TaskRun} :
      e.Starts p c started → Inside e (c.id :: live) c c.log inner within →
      Inside e live p log es tasks →
      Inside e live p (started ++ log) (c.block inner ++ es) (c :: (within ++ tasks))

/-! ## Starting a child -/

namespace Engine

variable {work : TaskContext → Json → Fallible TaskResult} {e : Engine} {p c r : TaskRun}
  {log : List Exchange}

theorem PerformsWith.id_eq {depth : Nat} {projectId agentRef : String} {inputs : Json}
    {options : RunOptions} {es : List Event}
    (h : e.PerformsWith work depth projectId agentRef inputs options r log es) :
    r.parent = options.parentTaskId := by
  rw [TaskRun.parent, h.context]
  rfl

/-- The ids that are minted in the run of a task: its own, and those of its work. -/
theorem PerformsWith.minted {depth : Nat} {projectId agentRef : String} {inputs : Json}
    {options : RunOptions} {es : List Event}
    (h : e.PerformsWith work depth projectId agentRef inputs options r log es) :
    (r.id :: mintedIds r.log).Sublist (mintedIds log) := by
  obtain ⟨finding, before, _, _, rfl⟩ := h.found
  have htask : mintedIds [⟨.newTask, r.id⟩] = [r.id] := rfl
  have hwork : (mintedIds r.log).Sublist (mintedIds (before ++ ⟨.clock, r.started⟩ ::
      (r.log ++ ⟨.clock, r.ended⟩ :: r.remembering))) := by
    refine List.Sublist.filterMap _ ?_
    exact ((List.sublist_append_left _ _).cons _).trans (List.sublist_append_right _ _)
  have hafter : (r.id :: mintedIds r.log).Sublist (mintedIds (⟨.newTask, r.id⟩ ::
      (before ++ ⟨.clock, r.started⟩ :: (r.log ++ ⟨.clock, r.ended⟩ :: r.remembering)))) :=
    hwork.cons_cons r.id
  rw [mintedIds_append]
  exact hafter.trans (List.sublist_append_right _ _)

theorem Starts.parent_eq (h : e.Starts p c log) : c.parent = some p.id := by
  obtain ⟨depth, agentRef, inputs, said, hperforms⟩ := h
  exact hperforms.id_eq

theorem Starts.ran (h : e.Starts p c log) : c.Ran := by
  obtain ⟨depth, agentRef, inputs, said, hperforms⟩ := h
  exact hperforms.ran

theorem Starts.minted (h : e.Starts p c log) :
    (c.id :: mintedIds c.log).Sublist (mintedIds log) := by
  obtain ⟨depth, agentRef, inputs, said, hperforms⟩ := h
  exact hperforms.minted

end Engine

/-! ## Passing events on -/

namespace Relayed

variable {id : TaskId} {es₁ es₂ es' : List Event}

theorem of_append (h : Relayed id (es₁ ++ es₂) es') : ∃ es₁' es₂', es' = es₁' ++ es₂' ∧
    Relayed id es₁ es₁' ∧ Relayed id es₂ es₂' := by
  induction es₁ generalizing es' with
  | nil => exact ⟨[], es', rfl, .nil, h⟩
  | cons event rest ih =>
    cases h with
    | plain _ hrest =>
      obtain ⟨es₁', es₂', rfl, h₁, h₂⟩ := ih hrest
      exact ⟨event :: es₁', es₂', rfl, .plain event h₁, h₂⟩
    | @chunk taskId assistantId delta respondAs own _ _ hown hrest =>
      obtain ⟨es₁', es₂', rfl, h₁, h₂⟩ := ih hrest
      exact ⟨_ :: (own ++ es₁'), es₂', by simp, .chunk taskId assistantId delta respondAs hown h₁,
        h₂⟩

theorem of_input {r : TaskRun} (h : Relayed id (r.inputEvent :: es₁) es') :
    ∃ es₁', es' = r.inputEvent :: es₁' ∧ Relayed id es₁ es₁' := by
  cases h with
  | plain _ hrest => exact ⟨_, rfl, hrest⟩

theorem of_phase {r : TaskRun} {phase : ExecutePhase} {now : Timestamp}
    (h : Relayed id (r.phaseEvent phase now :: es₁) es') :
    ∃ es₁', es' = r.phaseEvent phase now :: es₁' ∧ Relayed id es₁ es₁' := by
  cases h with
  | plain _ hrest => exact ⟨_, rfl, hrest⟩

/-- A block that is passed on is still a block: nothing is put before, between or after its INPUT,
its start and its end. -/
theorem of_block {r : TaskRun} {inner : List Event} (h : Relayed id (r.block inner) es') :
    ∃ inner', es' = r.block inner' ∧ Relayed id inner inner' := by
  obtain ⟨es₁, rfl, h₁⟩ := of_input h
  obtain ⟨es₂, rfl, h₂⟩ := of_phase h₁
  obtain ⟨inner', es₃, rfl, hinner, h₃⟩ := of_append h₂
  obtain ⟨es₄, rfl, h₄⟩ := of_phase h₃
  cases h₄
  exact ⟨inner', rfl, hinner⟩

end Relayed

/-! ## The work of a task -/

namespace Inside

variable {e : Engine} {p : TaskRun} {live : List TaskId} {log : List Exchange} {es : List Event}
  {tasks : List TaskRun}

theorem exchanges (before : List Exchange) (h : Inside e live p log es tasks) :
    Inside e live p (before ++ log) es tasks := by
  induction before with
  | nil => exact h
  | cons x rest ih => exact .exchange x ih

theorem outputs {own : List Event} {id : TaskId} (hown : ∀ event ∈ own, event.IsOutputOf id)
    (hid : id ∈ live) (h : Inside e live p log es tasks) :
    Inside e live p log (own ++ es) tasks := by
  induction own with
  | nil => exact h
  | cons event rest ih =>
    have hrest := ih fun event he => hown event (List.mem_cons_of_mem _ he)
    exact .output (hown event List.mem_cons_self) hid hrest

theorem mono {live' : List TaskId} (hlive : live ⊆ live') (h : Inside e live p log es tasks) :
    Inside e live' p log es tasks := by
  induction h generalizing live' with
  | nil => exact .nil
  | exchange x _ ih => exact .exchange x (ih hlive)
  | output hevent hid _ ih => exact .output hevent (hlive hid) (ih hlive)
  | child hstarts _ _ ihinner ih =>
    exact .child hstarts (ihinner (List.cons_subset_cons _ hlive)) (ih hlive)

/-- A task that passes the events on stays inside the blocks of the others. -/
theorem relayed {id : TaskId} {es' : List Event} (hid : id ∈ live)
    (h : Inside e live p log es tasks) (hes : Relayed id es es') :
    Inside e live p log es' tasks := by
  induction h generalizing es' with
  | nil =>
    cases hes
    exact .nil
  | exchange x _ ih => exact .exchange x (ih hid hes)
  | output hevent hlive _ ih =>
    cases hes with
    | plain _ hrest => exact .output hevent hlive (ih hid hrest)
    | chunk taskId assistantId delta respondAs hown hrest =>
      exact .output hevent hlive ((ih hid hrest).outputs hown hid)
  | child hstarts _ _ ihinner ih =>
    obtain ⟨es₁, es₂, rfl, h₁, h₂⟩ := hes.of_append
    obtain ⟨inner, rfl, hinner⟩ := h₁.of_block
    exact .child hstarts (ihinner (List.mem_cons_of_mem _ hid) hinner) (ih hid h₂)

end Inside

/-- A run of a child has no task and no events, or it is the run of one task. -/
theorem Engine.childRun_cases {e : Engine} {depth : Nat} {projectId agentRef : String}
    {options : RunOptions} {parent : TaskId} {inputs : Json} {log : List Exchange}
    {es : List Event} {res : Except Error Json}
    (h : Runs (e.childRun depth projectId options parent agentRef inputs).run log es res) :
    (es = [] ∧ ∃ res', e.Skips projectId agentRef inputs true log res') ∨
      ∃ (depth' : Nat) (c : TaskRun), depth' < depth ∧
      e.Performs depth' projectId agentRef inputs
        { parentTaskId := some parent, deadline := options.deadline,
          maxRetries := options.maxRetries } c log es := by
  obtain ⟨res', hrun, _⟩ := runs_adapt.mp h
  cases depth with
  | zero => exact absurd hrun not_runs_tooDeep
  | succ depth =>
    rcases run_cases hrun with ⟨hes, hskips⟩ | ⟨c, hperforms, _⟩
    · exact .inl ⟨hes, res', hskips⟩
    · exact .inr ⟨depth, c, depth.lt_succ_self, hperforms⟩

/-- The work of every task goes on inside of it. The induction is on how deep agents may still be
nested: a child has one level less. -/
theorem inside_of_ran {e : Engine} (depth : Nat) {p : TaskRun} {identity : Identity}
    {d : Definition} {options : RunOptions}
    (hcontext : p.context = e.taskContext depth identity d options p.id) (hran : p.Ran) :
    ∃ tasks, Inside e [p.id] p p.log p.events tasks := by
  induction depth using Nat.strongRecOn generalizing p identity d options with
  | ind depth ih =>
  have hwork : Work p.context p.log p.events := process_work p.context p.inputs hran
  generalize p.log = log, p.events = es at hwork
  -- within one level, by what the task does one thing after the other
  induction hwork with
  | nil => exact ⟨[], .nil⟩
  | @exchange x _ _ _ _ ihwork =>
    obtain ⟨tasks, htasks⟩ := ihwork
    exact ⟨tasks, .exchange x htasks⟩
  | output hevent _ ihwork =>
    obtain ⟨tasks, htasks⟩ := ihwork
    exact ⟨tasks, .output hevent List.mem_cons_self htasks⟩
  | @silent agentRef inputs r inner _ _ _ _ _ ihwork =>
    -- a child in silence leaves its exchanges in the log, and no block
    obtain ⟨tasks, htasks⟩ := ihwork
    exact ⟨tasks, htasks.exchanges inner⟩
  | @child agentRef inputs r inner _ said passed _ hrun hrelayed _ ihwork =>
    obtain ⟨tasks, htasks⟩ := ihwork
    have hrun' : Runs (e.childRun depth p.context.identity.projectId p.context.options p.id
        agentRef inputs).run inner said r := by
      rw [hcontext] at hrun ⊢
      exact hrun
    rcases Engine.childRun_cases hrun' with ⟨rfl, _⟩ | ⟨depth', c, hdepth, hperforms⟩
    · cases hrelayed
      exact ⟨tasks, htasks.exchanges inner⟩
    · obtain ⟨within, hwithin⟩ := ih depth' hdepth hperforms.context hperforms.ran
      have hsaid : said = c.block c.events := hperforms.events
      rw [hsaid] at hrelayed
      obtain ⟨events, rfl, hinner⟩ := hrelayed.of_block
      have hopen : Inside e [c.id, p.id] c c.log c.events within :=
        hwithin.mono (List.cons_subset_cons _ (List.nil_subset _))
      exact ⟨c :: (within ++ tasks), .child ⟨depth', agentRef, inputs, said, hperforms⟩
        (hopen.relayed (List.mem_cons_of_mem _ List.mem_cons_self) hinner) htasks⟩

/-! ## Whose events they are -/

/-- What is in the block of a task and not the task's own is inside of it. -/
theorem TaskRun.mem_block {r : TaskRun} {inner : List Event} {event : Event}
    (h : event ∈ r.block inner) : event ∈ inner ∨ event.taskId? = some r.id := by
  unfold block at h
  rcases List.mem_cons.mp h with rfl | h₁
  · exact .inr rfl
  rcases List.mem_cons.mp h₁ with rfl | h₂
  · exact .inr rfl
  rcases List.mem_append.mp h₂ with hinner | hend
  · exact .inl hinner
  · rw [List.mem_singleton.mp hend]
    exact .inr rfl

/-- Every event that belongs to a task belongs to one of these. -/
def Owned (ids : List TaskId) (es : List Event) : Prop :=
  ∀ event ∈ es, ∀ id, event.taskId? = some id → id ∈ ids

def Free (id : TaskId) (es : List Event) : Prop := ∀ event ∈ es, event.taskId? ≠ some id

/-- The events of one of two tasks come before those of the other. -/
def Apart (id id' : TaskId) (es : List Event) : Prop :=
  ∃ es₁ es₂, es = es₁ ++ es₂ ∧ ((Free id es₂ ∧ Free id' es₁) ∨ (Free id es₁ ∧ Free id' es₂))

def taskIds (tasks : List TaskRun) : List TaskId := tasks.map TaskRun.id

@[simp] theorem taskIds_nil : taskIds [] = [] := rfl

@[simp, grind =] theorem taskIds_cons (r : TaskRun) (tasks : List TaskRun) :
    taskIds (r :: tasks) = r.id :: taskIds tasks := rfl

@[simp, grind =] theorem taskIds_append (tasks more : List TaskRun) :
    taskIds (tasks ++ more) = taskIds tasks ++ taskIds more := List.map_append

theorem mem_taskIds {r : TaskRun} {tasks : List TaskRun} (h : r ∈ tasks) : r.id ∈ taskIds tasks :=
  List.mem_map_of_mem h

def Parented (ids : List TaskId) (tasks : List TaskRun) : Prop :=
  ∀ c ∈ tasks, ∃ parent ∈ ids, c.parent = some parent

section Ownership

variable {ids ids' : List TaskId} {es es' : List Event} {id : TaskId}

theorem Owned.nil : Owned ids [] := fun _ h => absurd h List.not_mem_nil

theorem Owned.cons {event : Event} (hid : id ∈ ids) (hevent : event.taskId? = some id)
    (h : Owned ids es) : Owned ids (event :: es) := by
  intro event' hevent' id' howner
  rcases List.mem_cons.mp hevent' with rfl | hrest
  · rw [hevent] at howner
    cases howner
    exact hid
  · exact h event' hrest id' howner

theorem Owned.append (h : Owned ids es) (h' : Owned ids es') : Owned ids (es ++ es') := by
  intro event hevent
  rcases List.mem_append.mp hevent with hl | hr
  · exact h event hl
  · exact h' event hr

theorem Owned.mono (hids : ids ⊆ ids') (h : Owned ids es) : Owned ids' es := by
  intro event hevent id howner
  exact hids (h event hevent id howner)

theorem Owned.of_none (h : ∀ event ∈ es, event.taskId? = none) : Owned ids es := by
  intro event hevent id howner
  rw [h event hevent] at howner
  cases howner

theorem Owned.free (h : Owned ids es) (hid : id ∉ ids) : Free id es := by
  intro event hevent howner
  exact hid (h event hevent id howner)

theorem Owned.block {r : TaskRun} (hr : r.id ∈ ids) (h : Owned ids es) : Owned ids (r.block es) :=
  .cons hr rfl (.cons hr rfl (h.append (.cons hr rfl .nil)))

theorem Parented.nil : Parented ids [] := fun _ h => absurd h List.not_mem_nil

theorem Parented.cons {c : TaskRun} {tasks : List TaskRun} (hid : id ∈ ids)
    (hc : c.parent = some id) (h : Parented ids tasks) : Parented ids (c :: tasks) := by
  intro k hk
  rcases List.mem_cons.mp hk with rfl | hrest
  · exact ⟨id, hid, hc⟩
  · exact h k hrest

theorem Parented.append {tasks more : List TaskRun} (h : Parented ids tasks)
    (h' : Parented ids more) : Parented ids (tasks ++ more) := by
  intro k hk
  rcases List.mem_append.mp hk with hl | hr
  · exact h k hl
  · exact h' k hr

theorem Parented.mono {tasks : List TaskRun} (hids : ids ⊆ ids') (h : Parented ids tasks) :
    Parented ids' tasks := by
  intro k hk
  obtain ⟨parent, hparent, hkparent⟩ := h k hk
  exact ⟨parent, hids hparent, hkparent⟩

theorem Free.append (h : Free id es) (h' : Free id es') : Free id (es ++ es') := by
  intro event hevent
  rcases List.mem_append.mp hevent with hl | hr
  · exact h event hl
  · exact h' event hr

theorem Free.singleton {event : Event} {owner : TaskId} (hevent : event.taskId? = some owner)
    (hne : owner ≠ id) : Free id [event] := by
  intro event' hevent'
  rw [List.mem_singleton.mp hevent', hevent]
  exact fun heq => hne (Option.some.inj heq)

theorem Apart.symm {id' : TaskId} (h : Apart id id' es) : Apart id' id es := by
  obtain ⟨es₁, es₂, rfl, hfirst | hsecond⟩ := h
  · exact ⟨es₁, es₂, rfl, .inr ⟨hfirst.2, hfirst.1⟩⟩
  · exact ⟨es₁, es₂, rfl, .inl ⟨hsecond.2, hsecond.1⟩⟩

theorem Apart.after {id' : TaskId} {before : List Event} (h : Apart id id' es)
    (hid : Free id before) (hid' : Free id' before) : Apart id id' (before ++ es) := by
  obtain ⟨es₁, es₂, rfl, hfirst | hsecond⟩ := h
  · exact ⟨before ++ es₁, es₂, by simp, .inl ⟨hfirst.1, hid'.append hfirst.2⟩⟩
  · exact ⟨before ++ es₁, es₂, by simp, .inr ⟨hid.append hsecond.1, hsecond.2⟩⟩

theorem Apart.before {id' : TaskId} {after : List Event} (h : Apart id id' es)
    (hid : Free id after) (hid' : Free id' after) : Apart id id' (es ++ after) := by
  obtain ⟨es₁, es₂, rfl, hfirst | hsecond⟩ := h
  · exact ⟨es₁, es₂ ++ after, by simp, .inl ⟨hfirst.1.append hid, hfirst.2⟩⟩
  · exact ⟨es₁, es₂ ++ after, by simp, .inr ⟨hsecond.1, hsecond.2.append hid'⟩⟩

theorem Apart.block {id' : TaskId} {r : TaskRun} (h : Apart id id' es) (hid : r.id ≠ id)
    (hid' : r.id ≠ id') : Apart id id' (r.block es) := by
  have hend : Apart id id' (es ++ [r.endEvent]) :=
    h.before (.singleton rfl hid) (.singleton rfl hid')
  have hstart : Apart id id' ([r.startEvent] ++ (es ++ [r.endEvent])) :=
    hend.after (.singleton rfl hid) (.singleton rfl hid')
  have hinput : Free id [r.inputEvent] := .singleton rfl hid
  have hinput' : Free id' [r.inputEvent] := .singleton rfl hid'
  exact hstart.after hinput hinput'

end Ownership

namespace Inside

variable {e : Engine} {p : TaskRun} {live : List TaskId} {log : List Exchange} {es : List Event}
  {tasks : List TaskRun}

theorem minted (h : Inside e live p log es tasks) :
    (taskIds tasks).Sublist (mintedIds log) := by
  induction h with
  | nil => exact List.Sublist.refl _
  | exchange x _ ih =>
    show List.Sublist _ (mintedIds ([x] ++ _))
    rw [mintedIds_append]
    exact ih.trans (List.sublist_append_right _ _)
  | output _ _ _ ih => exact ih
  | child hstarts _ _ ihinner ih =>
    have hstarted := (ihinner.cons_cons _).trans hstarts.minted
    simpa [taskIds] using hstarted.append ih

theorem owned (h : Inside e live p log es tasks) : Owned (live ++ taskIds tasks) es := by
  induction h with
  | nil => exact .nil
  | exchange x _ ih => exact ih
  | output hevent hid _ ih => exact .cons (List.mem_append_left _ hid) hevent.taskId_eq ih
  | child hstarts _ _ ihinner ih =>
    refine .append (.block (by simp) (ihinner.mono fun id hid => ?_)) (ih.mono fun id hid => ?_)
    · grind
    · grind

theorem isOutputOf {id : TaskId} (h : Inside e live p log es tasks) (hid : id ∉ taskIds tasks) :
    ∀ event ∈ es, event.taskId? = some id → event.IsOutputOf id := by
  induction h with
  | nil => exact fun _ hevent => absurd hevent List.not_mem_nil
  | exchange x _ ih => exact ih hid
  | @output event id' _ _ _ _ _ houtput _ _ ih =>
    intro event' hevent' howner
    rcases List.mem_cons.mp hevent' with rfl | hrest
    · rw [houtput.taskId_eq] at howner
      cases howner
      exact houtput
    · exact ih hid event' hrest howner
  | @child c _ _ _ _ inner es within tasks _ _ _ ihinner ih =>
    simp only [taskIds_cons, taskIds_append, List.mem_cons, List.mem_append, not_or] at hid
    obtain ⟨hc, hwithin, htasks⟩ := hid
    intro event hevent howner
    rcases List.mem_append.mp hevent with hblock | hrest
    · rcases TaskRun.mem_block hblock with hinner | hown
      · exact ihinner hwithin event hinner howner
      · rw [hown] at howner
        exact absurd (Option.some.inj howner).symm hc
    · exact ih htasks event hrest howner

theorem parented (h : Inside e live p log es tasks) : Parented (p.id :: taskIds tasks) tasks := by
  induction h with
  | nil => exact .nil
  | exchange x _ ih => exact ih
  | output _ _ _ ih => exact ih
  | child hstarts _ _ ihinner ih =>
    refine .cons (by simp) hstarts.parent_eq
      (.append (ihinner.mono fun id hid => ?_) (ih.mono fun id hid => ?_))
    · grind
    · grind

/-- Where the block of a task is. What is around it belongs to the open tasks and to others, and
the others have no parent in it. -/
theorem place {r : TaskRun} (h : Inside e live p log es tasks) (hr : r ∈ tasks) :
    ∃ (before inner after : List Event) (early within late : List TaskRun) (live' : List TaskId),
      es = before ++ r.block inner ++ after ∧ tasks = early ++ r :: (within ++ late) ∧
      Inside e live' r r.log inner within ∧ Owned (live ++ taskIds (early ++ late)) before ∧
      Owned (live ++ taskIds (early ++ late)) after ∧
      Parented (p.id :: taskIds (early ++ late)) (early ++ late) ∧
      ∃ parent ∈ p.id :: taskIds early, r.parent = some parent := by
  induction h with
  | nil => cases hr
  | exchange x _ ih => exact ih hr
  | output houtput hid _ ih =>
    obtain ⟨before, inner, after, early, within, late, live', rfl, rfl, hinside, hbefore, hafter,
      hothers, hparent⟩ := ih hr
    exact ⟨_ :: before, inner, after, early, within, late, live', rfl, rfl, hinside,
      .cons (List.mem_append_left _ hid) houtput.taskId_eq hbefore, hafter, hothers, hparent⟩
  | @child c live p started log inner es inside tasks hstarts hinner hrest ihinner ih =>
    rcases List.mem_cons.mp hr with rfl | hlater
    -- the task is the child itself, is inside of the child, or comes after it
    · exact ⟨[], inner, es, [], inside, tasks, _, rfl, rfl, hinner, .nil, hrest.owned,
        hrest.parented, p.id, List.mem_cons_self, hstarts.parent_eq⟩
    rcases List.mem_append.mp hlater with hinside | htasks
    · obtain ⟨before, inner', after, early, within, late, live', rfl, rfl, hr', hbefore, hafter,
        hothers, parent, hparent, hrparent⟩ := ihinner hinside
      refine ⟨c.inputEvent :: c.startEvent :: before, inner', after ++ c.endEvent :: es, c :: early,
        within, late ++ tasks, live', by simp [TaskRun.block], by simp, hr', ?_, ?_, ?_, parent,
        by grind, hrparent⟩
      · refine .cons (by simp) rfl (.cons (by simp) rfl (hbefore.mono fun id hid => ?_))
        grind
      · refine .append (hafter.mono fun id hid => ?_)
          (.cons (by simp) rfl (hrest.owned.mono fun id hid => ?_))
        · grind
        · grind
      · rw [List.cons_append, ← List.append_assoc]
        refine .cons (by simp) hstarts.parent_eq
          (.append (hothers.mono fun id hid => ?_) (hrest.parented.mono fun id hid => ?_))
        · grind
        · grind
    · obtain ⟨before, inner', after, early, within, late, live', rfl, rfl, hr', hbefore, hafter,
        hothers, parent, hparent, hrparent⟩ := ih htasks
      refine ⟨c.block inner ++ before, inner', after, c :: (inside ++ early), within, late, live',
        by simp, by simp, hr', ?_, ?_, ?_, parent, by grind, hrparent⟩
      · refine .append (.block (by simp) (hinner.owned.mono fun id hid => ?_))
          (hbefore.mono fun id hid => ?_)
        · grind
        · grind
      · refine hafter.mono fun id hid => ?_
        grind
      · rw [List.cons_append, List.append_assoc]
        refine .cons (by simp) hstarts.parent_eq
          (.append (hinner.parented.mono fun id hid => ?_) (hothers.mono fun id hid => ?_))
        · grind
        · grind

/-- Every task was started in the exchange of another one, or in this one. -/
theorem started (h : Inside e live p log es tasks) : ∀ c ∈ tasks, ∃ starting,
    (e.Starts p c starting ∧ starting <:+: log) ∨
      ∃ p' ∈ tasks, e.Starts p' c starting ∧ starting <:+: p'.log := by
  induction h with
  | nil => exact fun c hc => absurd hc List.not_mem_nil
  | exchange x _ ih =>
    intro c hc
    obtain ⟨starting, ⟨hstarts, hlog⟩ | hother⟩ := ih c hc
    · exact ⟨starting, .inl ⟨hstarts, hlog.trans (List.suffix_cons x _).isInfix⟩⟩
    · exact ⟨starting, .inr hother⟩
  | output _ _ _ ih => exact ih
  | @child c _ _ _ _ _ _ _ _ hstarts _ _ ihinner ih =>
    intro k hk
    rcases List.mem_cons.mp hk with rfl | hrest
    · exact ⟨_, .inl ⟨hstarts, (List.prefix_append _ _).isInfix⟩⟩
    rcases List.mem_append.mp hrest with hwithin | htasks
    · obtain ⟨starting, ⟨hk', hlog⟩ | ⟨p', hp', hk', hlog⟩⟩ := ihinner k hwithin
      · exact ⟨starting, .inr ⟨c, List.mem_cons_self, hk', hlog⟩⟩
      · refine ⟨starting, .inr ⟨p', ?_, hk', hlog⟩⟩
        exact List.mem_cons_of_mem _ (List.mem_append_left _ hp')
    · obtain ⟨starting, ⟨hk', hlog⟩ | ⟨p', hp', hk', hlog⟩⟩ := ih k htasks
      · exact ⟨starting, .inl ⟨hk', hlog.trans (List.suffix_append _ _).isInfix⟩⟩
      · refine ⟨starting, .inr ⟨p', ?_, hk', hlog⟩⟩
        exact List.mem_cons_of_mem _ (List.mem_append_right _ hp')

/-- Two children of one parent are one before the other. This is where ids have to be distinct: the
parent of a task tells how deep in the blocks it is. -/
theorem apart (h : Inside e live p log es tasks) (hp : p.id ∈ live)
    (hnodup : (taskIds tasks).Nodup) (hlive : ∀ id ∈ live, id ∉ taskIds tasks) :
    ∀ c ∈ tasks, ∀ c' ∈ tasks, c.id ≠ c'.id → c.parent = c'.parent → Apart c.id c'.id es := by
  induction h with
  | nil => exact fun c hc => absurd hc List.not_mem_nil
  | exchange x _ ih => exact ih hp hnodup hlive
  | @output event id live _ _ _ tasks houtput hid _ ih =>
    intro c hc c' hc' hne hparent
    have hevent : Owned live [event] := .cons hid houtput.taskId_eq .nil
    have hfree : ∀ r ∈ tasks, Free r.id [event] := fun r hr =>
      hevent.free fun hmem => hlive r.id hmem (mem_taskIds hr)
    exact (ih hp hnodup hlive c hc c' hc' hne hparent).after (hfree c hc) (hfree c' hc')
  | @child k live p started log inner es within tasks hstarts hinner hrest ihinner ih =>
    rw [taskIds_cons, taskIds_append, List.nodup_cons, List.nodup_append] at hnodup
    obtain ⟨hk, hwithin, htasks, hdisjoint⟩ := hnodup
    have hblock : Owned (k.id :: (live ++ taskIds within)) (k.block inner) :=
      .block List.mem_cons_self hinner.owned
    have hafter : Owned (live ++ taskIds tasks) es := hrest.owned
    -- the tasks inside of the new block have their parents there, the others have not
    have hlevel : ∀ c ∈ within, ∀ parent ∈ p.id :: taskIds tasks, c.parent ≠ some parent := by
      intro c hc parent hparent hcparent
      obtain ⟨parent', hparent', hcparent'⟩ := hinner.parented c hc
      rw [hcparent] at hcparent'
      cases hcparent'
      grind
    have houter : ∀ c ∈ k :: tasks, ∃ parent ∈ p.id :: taskIds tasks, c.parent = some parent := by
      intro c hc
      rcases List.mem_cons.mp hc with rfl | hlater
      · exact ⟨p.id, List.mem_cons_self, hstarts.parent_eq⟩
      · exact hrest.parented c hlater
    have hacross : ∀ c ∈ within, ∀ c' ∈ k :: tasks, c.parent ≠ c'.parent := by
      intro c hc c' hc' hparent
      obtain ⟨parent, hmem, hc'parent⟩ := houter c' hc'
      exact hlevel c hc parent hmem (hparent.trans hc'parent)
    have hfirst : ∀ c ∈ tasks, Apart k.id c.id (k.block inner ++ es) := by
      intro c hc
      have hmem := mem_taskIds hc
      have hkfree : Free k.id es := hafter.free (by grind)
      have hcfree : Free c.id (k.block inner) := hblock.free (by grind)
      exact ⟨k.block inner, es, rfl, .inl ⟨hkfree, hcfree⟩⟩
    intro c hc c' hc' hne hparent
    -- each of the two is the child, inside of it, or after it; mixed cases have other parents
    rcases List.mem_cons.mp hc with rfl | hlater <;> rcases List.mem_cons.mp hc' with rfl | hlater'
    · exact absurd rfl hne
    · rcases List.mem_append.mp hlater' with hin' | hout'
      · exact absurd hparent.symm (hacross c' hin' c List.mem_cons_self)
      · exact hfirst c' hout'
    · rcases List.mem_append.mp hlater with hin | hout
      · exact absurd hparent (hacross c hin c' List.mem_cons_self)
      · exact (hfirst c hout).symm
    · rcases List.mem_append.mp hlater with hin | hout <;>
        rcases List.mem_append.mp hlater' with hin' | hout'
      · have hmem := mem_taskIds hin
        have hmem' := mem_taskIds hin'
        have hinside := ihinner List.mem_cons_self hwithin (by grind) c hin c' hin' hne hparent
        exact (hinside.block (by grind) (by grind)).before
          (hafter.free (by grind)) (hafter.free (by grind))
      · exact absurd hparent (hacross c hin c' (List.mem_cons_of_mem _ hout'))
      · exact absurd hparent.symm (hacross c' hin' c (List.mem_cons_of_mem _ hout))
      · have hmem := mem_taskIds hout
        have hmem' := mem_taskIds hout'
        exact (ih hp htasks (by grind) c hout c' hout' hne hparent).after
          (hblock.free (by grind)) (hblock.free (by grind))

end Inside

end Agents
