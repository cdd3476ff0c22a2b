import Agents.Proofs.Run.Course
import Agents.Proofs.Run.Together

/-! # Tasks that may be dropped

A task of a group may be dropped in the middle of its work. As far as it came, it has reported the
beginning of its block (`advances_childRun`): its INPUT, its start, what its work reported, and its
end, and all of it if its run came to its end.

Inside of a task other tasks begin and end, but never that task itself (`Nested`). So a task ends at
most once, even if the tasks around it are dropped.
-/

namespace Agents

open Activity

/-! ## Events that begin and end a task -/

namespace Event

/-- The event begins the task `id` as a child of `parent`. -/
def BeginsChild (parent id : TaskId) : Event → Prop
  | .input taskId parentTaskId .. => taskId = id ∧ parentTaskId = some parent
  | _ => False

def closes (id : TaskId) : Event → Bool
  | .execute taskId _ _ _ phase _ => taskId = id && phase ≠ .start
  | _ => false

/-- The event may be seen inside of the task `owner` while the tasks `ids` begin: what begins or
ends a task is about one of these, its parent is the owner or one of these, and so is the task of
any other event. An event without a task is not seen there. -/
def IsInside (owner : TaskId) (ids : List TaskId) : Event → Prop
  | .input taskId parentTaskId .. => taskId ∈ ids ∧ ∃ p ∈ owner :: ids, parentTaskId = some p
  | .execute taskId .. => taskId ∈ ids
  | .chunk taskId .. | .usage taskId .. | .log taskId .. => taskId ∈ owner :: ids
  | _ => False

variable {owner id : TaskId} {ids ids' : List TaskId} {event : Event}

theorem IsInside.mono (hids : ids ⊆ ids') (h : event.IsInside owner ids) :
    event.IsInside owner ids' := by
  cases event with
  | input taskId parentTaskId _ _ _ _ =>
    obtain ⟨hid, p, hp, hparent⟩ := h
    exact ⟨hids hid, p, List.cons_subset_cons owner hids hp, hparent⟩
  | execute taskId _ _ _ _ _ => exact hids h
  | chunk | usage | log => exact List.cons_subset_cons owner hids h
  | inputParameter | error | progress => exact h

theorem IsInside.outer {parent : TaskId} (h : event.IsInside owner ids) :
    event.IsInside parent (owner :: ids) := by
  cases event with
  | input taskId parentTaskId _ _ _ _ =>
    obtain ⟨hid, p, hp, hparent⟩ := h
    exact ⟨List.mem_cons_of_mem _ hid, p, List.mem_cons_of_mem _ hp, hparent⟩
  | execute taskId _ _ _ _ _ => exact List.mem_cons_of_mem _ h
  | chunk | usage | log => exact List.mem_cons_of_mem _ h
  | inputParameter | error | progress => exact h

theorem IsOutputOf.isInside (h : event.IsOutputOf owner) : event.IsInside owner ids := by
  cases event with
  | chunk | usage | log =>
    obtain rfl := h
    exact List.mem_cons_self
  | _ => exact h.elim

theorem IsInside.taskId?_ne_none (h : event.IsInside owner ids) : event.taskId? ≠ none := by
  cases event with
  | input | execute | chunk | usage | log => exact Option.some_ne_none _
  | inputParameter | error | progress => exact h.elim

theorem IsInside.taskId_mem (h : event.IsInside owner ids) (hid : event.taskId? = some id) :
    id ∈ owner :: ids := by
  cases event with
  | input taskId parentTaskId _ _ _ _ =>
    cases hid
    exact List.mem_cons_of_mem _ h.1
  | execute taskId _ _ _ _ _ =>
    cases hid
    exact List.mem_cons_of_mem _ h
  | chunk | usage | log =>
    cases hid
    exact h
  | inputParameter | error | progress => cases hid

theorem IsInside.mem_of_closes (h : event.IsInside owner ids) (hcloses : event.closes id = true) :
    id ∈ ids := by
  cases event with
  | execute taskId _ _ _ phase _ =>
    simp only [closes, Bool.and_eq_true, decide_eq_true_eq] at hcloses
    exact hcloses.1 ▸ h
  | _ => cases hcloses

theorem IsInside.parent_mem {parent : TaskId} (h : event.IsInside owner ids)
    (hbegins : event.BeginsChild parent id) : parent ∈ owner :: ids := by
  cases event with
  | input taskId parentTaskId _ _ _ _ =>
    obtain ⟨_, p, hp, hparent⟩ := h
    obtain ⟨_, rfl⟩ := hbegins
    cases hparent
    exact hp
  | _ => cases hbegins

end Event

/-! ## What is seen inside of a task -/

/-- Inside of the task `owner` no tasks but those that the exchange begins are seen to begin or to
end. -/
def Nested (owner : TaskId) (log : List Exchange) (es : List Event) : Prop :=
  ∀ event ∈ es, event.IsInside owner (mintedIds log)

theorem Nested.composable (owner : TaskId) : Composable (Nested owner) where
  nil := fun _ hevent => absurd hevent List.not_mem_nil
  append := by
    intro log₁ log₂ es₁ es₂ h₁ h₂ event hevent
    rw [mintedIds_append]
    rcases List.mem_append.mp hevent with hevent | hevent
    · exact (h₁ event hevent).mono (List.subset_append_left _ _)
    · exact (h₂ event hevent).mono (List.subset_append_right _ _)

/-- What is passed on is an event of the child, or output of the task itself. -/
theorem PassesOn.mem_passAll {ω : Type} {emitter : TaskEmitter}
    {step : ω → Event → List Event × ω} (h : PassesOn emitter step) (said : List Event) (s : ω) :
    ∀ event ∈ (passAll step s said).1, event ∈ said ∨ event.IsOutputOf emitter.taskId := by
  induction said generalizing s with
  | nil => exact fun _ hevent => absurd hevent List.not_mem_nil
  | cons first rest ih =>
    intro event hevent
    obtain ⟨own, hstep, hown, _, _⟩ := h s first
    change event ∈ (step s first).1 ++ (passAll step (step s first).2 rest).1 at hevent
    rw [hstep, List.append_assoc] at hevent
    rcases List.mem_append.mp hevent with hpassed | hlater
    · refine .inl (List.mem_cons.mpr (.inl ?_))
      unfold TaskEmitter.emit at hpassed
      split at hpassed
      · cases hpassed
      · exact List.mem_singleton.mp hpassed
    rcases List.mem_append.mp hlater with hmem | hrest
    · exact .inr (hown event hmem)
    · rcases ih _ event hrest with hsaid | houtput
      · exact .inl (List.mem_cons_of_mem _ hsaid)
      · exact .inr houtput

section Work

variable {t : TaskContext} {owner : TaskId} {α : Type}

/-- If no child is seen outside of its own run, then the work of the task stays inside of it. -/
theorem TaskContext.Does.nested {a : Activity α} (h : t.Does a)
    (hchild : ∀ agentRef inputs,
      Always (Nested t.emitter.taskId) (t.runChild agentRef inputs).run) :
    Always (Nested t.emitter.taskId) a := by
  have hL := (Nested.composable t.emitter.taskId).always
  induction h with
  | pure a => exact hL.pure a
  | bind _ _ iha ihf => exact hL.bind iha ihf
  | query _ =>
    intro log es left h
    obtain ⟨rfl, _⟩ := advances_query h
    exact fun _ hevent => absurd hevent List.not_mem_nil
  | reportAll hes =>
    intro log es left h
    obtain ⟨_, hbegun⟩ := advances_reportAll h
    exact fun event hevent => (hes event (hbegun.subset hevent)).isInside
  | runChild agentRef inputs => exact hchild agentRef inputs
  | through hemitter hstep s agentRef inputs =>
    intro log es left h event hevent
    obtain ⟨said, left', hadvances, hes⟩ := advances_through h
    rcases hstep.mem_passAll said s event (hes.subset hevent) with hsaid | houtput
    · exact hchild agentRef inputs hadvances event hsaid
    · rw [hemitter] at houtput
      exact houtput.isInside

theorem nested_together {turns : List Turn} {runs : List (Fallible α)}
    (h : ∀ run ∈ runs, Always (Nested owner) run.run) :
    Always (Nested owner) (together turns runs).run := by
  intro log es left hadvances event hevent
  obtain ⟨courses, hcourses, _⟩ := advances_together hadvances
  obtain ⟨c, hc, hevent⟩ := List.mem_flatMap.mp (hcourses.events_perm.mem_iff.mp hevent)
  obtain ⟨run, hrun, hof⟩ := hcourses.exists_run hc
  refine (h run hrun hof event hevent).mono fun id hid => ?_
  have hlog : c.log ⊆ log := fun x hx =>
    hcourses.log_perm.mem_iff.mpr (List.mem_flatMap.mpr ⟨c, hc, hx⟩)
  exact List.filterMap_subset _ hlog hid

/-- What always holds of whatever does the work of the task, and of runs that take turns if it holds
of each of them, always holds of the work in which the steps of a pipeline overlap. -/
theorem Overlap.always_process {L : List Exchange → List Event → Prop} (overlap : Overlap)
    (hL : Composable L) (hdoes : ∀ {α : Type} {a : Activity α}, t.Does a → Always L a)
    (htogether : ∀ {turns : List Turn} {runs : List (Fallible (String × Json))},
      (∀ run ∈ runs, Always L run.run) → Always L (together turns runs).run) (inputs : Json) :
    Always L (overlap.process t inputs).run := by
  have hgroups : ∀ groups vars last, Always L
      (Pipeline.runGroupsWith (Pipeline.runGroupIn overlap t) vars last groups).run := by
    intro groups
    induction groups with
    | nil => exact fun _ _ => hL.always.ok _
    | cons group rest ih =>
      intro vars last
      refine hL.always.andThen (htogether fun run hrun => ?_) fun outputs => ih _ _
      obtain ⟨step, _, rfl⟩ := List.mem_map.mp hrun
      exact hL.always.andThen (hdoes (.runChild _ _)) fun _ => hL.always.ok _
  unfold process
  split
  · exact hL.always.mapOk _ (hL.always.andThen (hgroups _ _ _) fun _ => hdoes (does_validated _))
  · exact hdoes (does_process t inputs)

theorem Overlap.nested_process (overlap : Overlap) (inputs : Json)
    (hchild : ∀ agentRef inputs,
      Always (Nested t.emitter.taskId) (t.runChild agentRef inputs).run) :
    Always (Nested t.emitter.taskId) (overlap.process t inputs).run :=
  overlap.always_process (Nested.composable _) (fun h => h.nested hchild) nested_together inputs

end Work

/-! ## Parts that begin no task -/

/-- No task begins, and nothing is reported. -/
def Idle (log : List Exchange) (es : List Event) : Prop := mintedIds log = [] ∧ es = []

theorem Idle.composable : Composable Idle where
  nil := ⟨rfl, rfl⟩
  append := by
    rintro log₁ log₂ _ _ ⟨h₁, rfl⟩ ⟨h₂, rfl⟩
    exact ⟨by rw [mintedIds_append, h₁, h₂]; rfl, rfl⟩

theorem idle_query {q : Query} (hq : q ≠ .newTask) : Always Idle (query q) := by
  intro log es left h
  obtain ⟨rfl, rfl | ⟨answer, rfl⟩⟩ := advances_query h
  · exact ⟨rfl, rfl⟩
  · cases q with
    | newTask => exact absurd rfl hq
    | _ => exact ⟨rfl, rfl⟩

theorem idle_prompt (t : TaskContext) (inputs : Json) : Always Idle (t.prompt inputs).run := by
  have hL := Idle.composable.always
  have hmemory : Always Idle t.memory.run := hL.mapOk _ (idle_query nofun)
  unfold TaskContext.prompt
  split
  · exact hL.mapOk _ (hL.andThen hmemory fun _ => hL.ok _)
  all_goals exact hL.ok _

theorem Engine.idle_resolve (e : Engine) (projectId agentRef : String) :
    Always Idle (e.resolve projectId agentRef).run := by
  have hL := Idle.composable.always
  unfold resolve
  dsimp only
  split
  · exact hL.ok _
  · exact hL.andThen (idle_query nofun) fun _ => hL.ok _

section Idle

variable {α β ε : Type} {x : ExceptT ε Activity α} {f : α → ExceptT ε Activity β}
  {log : List Exchange} {es : List Event} {left : Activity (Except ε β)}

/-- After a part that begins no task, all that is seen is that of the rest. -/
theorem advances_afterIdle (hx : Always Idle x.run) (h : Advances (x >>= f).run log es left) :
    es = [] ∨ ∃ a log', mintedIds log = mintedIds log' ∧ Advances (f a).run log' es left := by
  rcases advances_andThen h with
    ⟨left', hadvances, _, _⟩ | ⟨e, rfl, hruns⟩ | ⟨log₁, es₁, a, log₂, es₂, rfl, rfl, hruns, hf⟩
  · exact .inl (hx hadvances).2
  · exact .inl (hx (runs_iff_advances.mp hruns)).2
  · obtain ⟨hminted, rfl⟩ := hx (runs_iff_advances.mp hruns)
    exact .inr ⟨a, log₂, by rw [mintedIds_append, hminted]; rfl, hf⟩

/-- Before a part that begins no task, all that is seen is that of the first part. -/
theorem advances_beforeIdle (hf : ∀ a, Always Idle (f a).run)
    (h : Advances (x >>= f).run log es left) : ∃ log' left', mintedIds log = mintedIds log' ∧
      Advances x.run log' es left' ∧ (left.Finished → left'.Finished) := by
  rcases advances_andThen h with
    ⟨left', hx, _, hopen⟩ | ⟨e, rfl, hruns⟩ | ⟨log₁, es₁, a, log₂, es₂, rfl, rfl, hruns, hrest⟩
  · exact ⟨log, left', rfl, hx, fun hdone => absurd hdone hopen⟩
  · exact ⟨log, _, rfl, runs_iff_advances.mp hruns, fun _ => finished_done _⟩
  · obtain ⟨hminted, rfl⟩ := hf a hrest
    refine ⟨log₁, _, ?_, by simpa using runs_iff_advances.mp hruns, fun _ => finished_done _⟩
    rw [mintedIds_append, hminted, List.append_nil]

theorem advances_adapt {ε' : Type} {g : ε' → ε} {y : ExceptT ε' Activity α}
    {left : Activity (Except ε α)} (h : Advances (y.adapt g).run log es left) :
    ∃ left', Advances y.run log es left' ∧ (left.Finished → left'.Finished) := by
  obtain ⟨left', hadvances, rfl⟩ := advances_map (f := Except.mapError g) h
  rw [map_eq_pure_bind]
  exact ⟨left', hadvances, finished_of_bind⟩

end Idle

/-! ## A task as far as it came -/

/-- The task `r` as far as its run came: what was seen of it is the beginning of its block. -/
structure SeenOf (r : TaskRun) (log : List Exchange) (es : List Event) (whole : Prop) : Prop where
  minted : mintedIds log = r.id :: mintedIds r.log
  nested : Nested r.id r.log r.events
  begun : es <+: r.block r.events
  ended : whole → es = r.block r.events

theorem advances_reportPhase {r : TaskRun} (hmuted : r.context.emitter.muted = false)
    {phase : ExecutePhase} {log : List Exchange} {es : List Event} {left : Activity Unit}
    (h : Advances (r.context.reportPhase phase) log es left) :
    mintedIds log = [] ∧ ∃ now, es <+: [r.phaseEvent phase now] := by
  rcases advances_bind h with ⟨_, hnow, _, _⟩ | ⟨_, _, now, _, _, rfl, rfl, hnow, hreport⟩
  · obtain ⟨hminted, rfl⟩ := idle_query (q := .clock) nofun hnow
    exact ⟨hminted, ⟨0, 0⟩, List.nil_prefix⟩
  · obtain ⟨rfl, rfl⟩ := runs_query (q := .clock).mp hnow
    obtain ⟨rfl, hes⟩ := advances_reportAll hreport
    rw [TaskEmitter.execute, TaskEmitter.emit_of_not_muted hmuted] at hes
    exact ⟨rfl, now, hes⟩

theorem advances_end {r : TaskRun} (hmuted : r.context.emitter.muted = false)
    {phase : ExecutePhase} {res : Except Error Json} {log : List Exchange} {es : List Event}
    {left : Activity (Except Error Json)}
    (h : Advances (r.context.reportPhase phase >>= fun _ => .done res) log es left) :
    mintedIds log = [] ∧ ∃ now, es <+: [r.phaseEvent phase now] ∧
      (left.Finished → es = [r.phaseEvent phase now]) := by
  rcases advances_bind h with ⟨_, hend, hopen, rfl⟩ | ⟨_, _, _, _, _, rfl, rfl, hend, hret⟩
  · obtain ⟨hminted, now, hes⟩ := advances_reportPhase hmuted hend
    exact ⟨hminted, now, hes, fun hdone => absurd (finished_of_bind hdone) hopen⟩
  · obtain ⟨now, rfl, rfl⟩ := runs_reportPhase hmuted hend
    obtain ⟨rfl, rfl, rfl⟩ := advances_done hret
    exact ⟨rfl, now, List.prefix_refl _, fun _ => rfl⟩

theorem advances_performWith {t : TaskContext} (hmuted : t.emitter.muted = false)
    {work : Json → Fallible TaskResult} {inputs : Json}
    (hwork : Always (Nested t.emitter.taskId) (work inputs).run) {log : List Exchange}
    {es : List Event} {left : Activity (Except Error Json)}
    (h : Advances (t.performWith work inputs).run log es left) :
    ∃ r : TaskRun, r.context = t ∧ mintedIds log = mintedIds r.log ∧ Nested r.id r.log r.events ∧
      es <+: r.block r.events ∧ (left.Finished → es = r.block r.events) := by
  have hnil : Nested t.emitter.taskId [] [] := fun _ hevent => absurd hevent List.not_mem_nil
  rcases advances_liftThen h with ⟨_, hprompt, hopen⟩ | ⟨_, _, shown, _, _, rfl, rfl, hprompt, h₁⟩
  · obtain ⟨hminted, rfl⟩ := idle_prompt t inputs hprompt
    exact ⟨⟨t, inputs, none, ⟨0, 0⟩, ⟨0, 0⟩, [], [], .ok default⟩, rfl, hminted, hnil,
      List.nil_prefix, fun hdone => absurd hdone hopen⟩
  obtain ⟨hminted, rfl⟩ := idle_prompt t inputs (runs_iff_advances.mp hprompt)
  rw [mintedIds_append, hminted, List.nil_append, List.nil_append]
  -- from here on the task is seen
  let r : TaskRun := ⟨t, inputs, shown.toOption.join, ⟨0, 0⟩, ⟨0, 0⟩, [], [], .ok default⟩
  rcases advances_liftThen h₁ with ⟨_, hinput, hopen⟩ | ⟨_, _, _, _, _, rfl, rfl, hinput, h₂⟩
  · obtain ⟨rfl, hes⟩ := advances_reportAll hinput
    rw [TaskEmitter.input, TaskEmitter.emit_of_not_muted hmuted] at hes
    exact ⟨r, rfl, rfl, hnil, hes.trans (List.prefix_append [r.inputEvent] _),
      fun hdone => absurd hdone hopen⟩
  obtain ⟨rfl, rfl⟩ := runs_reportAll.mp hinput
  rw [TaskEmitter.input, TaskEmitter.emit_of_not_muted hmuted, List.nil_append]
  rcases advances_liftThen h₂ with ⟨_, hstart, hopen⟩ | ⟨_, _, _, log₃, es₃, rfl, rfl, hstart, h₃⟩
  · obtain ⟨hminted, now, hes⟩ := advances_reportPhase (r := r) hmuted hstart
    refine ⟨{ r with started := now }, rfl, hminted, hnil, ?_, fun hdone => absurd hdone hopen⟩
    exact (List.prefix_append_right_inj [_]).mpr (hes.trans (List.prefix_append _ _))
  obtain ⟨started, rfl, rfl⟩ := runs_reportPhase hmuted hstart
  rcases advances_liftThen h₃ with
    ⟨_, hworks, hopen⟩ | ⟨inner, said, result, log₄, es₄, rfl, rfl, hworks, h₄⟩
  · refine ⟨{ r with started, log := log₃, events := es₃ }, rfl, rfl, hwork hworks, ?_,
      fun hdone => absurd hdone hopen⟩
    exact (List.prefix_append_right_inj [_, _]).mpr (List.prefix_append _ _)
  -- how the task ends depends on the result of its work
  let r : TaskRun := { r with started, log := inner, events := said, result }
  have hends : mintedIds log₄ = [] ∧ ∃ now, es₄ <+: [r.phaseEvent r.phase now] ∧
      (left.Finished → es₄ = [r.phaseEvent r.phase now]) := by
    cases result with
    | ok result => exact advances_end (r := r) hmuted (run_liftThen ▸ h₄)
    | error e => exact advances_end (r := r) hmuted (run_liftThen ▸ h₄)
  obtain ⟨hminted, ended, hes, hend⟩ := hends
  refine ⟨{ r with ended }, rfl, ?_, hwork (runs_iff_advances.mp hworks), ?_, fun hdone => ?_⟩
  · show mintedIds ([_] ++ (inner ++ _)) = mintedIds inner
    rw [mintedIds_append, mintedIds_append, hminted, List.append_nil]
    rfl
  · exact (List.prefix_append_right_inj ([_, _] ++ said)).mpr hes
  · rw [hend hdone]
    rfl

theorem SeenOf.imp {r : TaskRun} {log log' : List Exchange} {es : List Event}
    {whole whole' : Prop} (h : SeenOf r log' es whole') (hminted : mintedIds log = mintedIds log')
    (hwhole : whole → whole') : SeenOf r log es whole :=
  ⟨hminted.trans h.minted, h.nested, h.begun, fun hdone => h.ended (hwhole hdone)⟩

theorem SeenOf.nested_parent {r : TaskRun} {parent : TaskId} {log : List Exchange}
    {es : List Event} {whole : Prop} (h : SeenOf r log es whole)
    (hparent : r.parent = some parent) :
    Nested parent log es := by
  intro event hevent
  rw [h.minted]
  have hblock : event ∈ r.block r.events := h.begun.subset hevent
  simp only [TaskRun.block, List.mem_cons, List.mem_append, List.not_mem_nil, or_false] at hblock
  rcases hblock with rfl | rfl | hinner | rfl
  · exact ⟨List.mem_cons_self, parent, List.mem_cons_self, hparent⟩
  · exact List.mem_cons_self
  · exact (h.nested event hinner).outer
  · exact List.mem_cons_self

/-! ## A child as far as it came -/

namespace Engine

variable {overlap : Overlap} {e : Engine} {d : Definition} {identity : Identity}
  {options : RunOptions} {parent : TaskId} {runChild : TaskId → String → Json → Fallible Json}
  {inputs : Json} {log : List Exchange} {es : List Event}

theorem advances_performTask {left : Activity (Except Error Json)}
    (hparent : options.parentTaskId = some parent)
    (hchild : ∀ id agentRef inputs, Always (Nested id) (runChild id agentRef inputs).run)
    (h : Advances (e.performTaskWith overlap.process identity d options runChild inputs).run
      log es left) :
    es = [] ∨ ∃ r : TaskRun, r.parent = some parent ∧ SeenOf r log es left.Finished := by
  have hgreeting : Always Idle (TaskContext.report ((if options.parentTaskId.isNone then
      options.userMessage else none).map Event.inputParameter).toList).run := by
    rw [hparent]
    refine Idle.composable.always.lift fun log es left h => ?_
    obtain ⟨rfl, hes⟩ := advances_reportAll h
    exact ⟨rfl, List.prefix_nil.mp hes⟩
  rcases advances_afterIdle hgreeting h with hes | ⟨_, log', hminted, h₁⟩
  · exact .inl hes
  rcases advances_liftThen h₁ with ⟨_, hid, _⟩ | ⟨_, _, id, log₂, _, rfl, rfl, hid, h₂⟩
  · exact .inl (advances_query (q := .newTask) hid).1
  obtain ⟨rfl, rfl⟩ := runs_query (q := .newTask).mp hid
  let t : TaskContext := { engine := e, definition := d, identity, options,
                           emitter := .forAgent d id options.parentTaskId, runChild := runChild id }
  have hwork : Always (Nested t.emitter.taskId) (overlap.process t inputs).run :=
    overlap.nested_process inputs (hchild id)
  obtain ⟨r, hcontext, hwork, hnested, hbegun, hended⟩ :=
    advances_performWith (t := t) rfl hwork h₂
  refine .inr ⟨r, ?_, ?_, hnested, hbegun, hended⟩
  · rw [TaskRun.parent, hcontext]
    exact hparent
  · rw [hminted, TaskRun.id, hcontext, ← hwork]
    rfl

theorem advances_runDefinition {left : Activity (Except RunFailure Json)}
    (hparent : options.parentTaskId = some parent)
    (hchild : ∀ id agentRef inputs, Always (Nested id) (runChild id agentRef inputs).run)
    (h : Advances (e.runDefinitionWith overlap.process identity d options runChild inputs).run
      log es left) :
    es = [] ∨ ∃ r : TaskRun, r.parent = some parent ∧ SeenOf r log es left.Finished := by
  have hL := Idle.composable.always
  rcases advances_afterIdle (hL.map _ (hL.ofExcept _)) h with hes | ⟨prepared, _, hminted₁, h₁⟩
  · exact .inl hes
  rcases advances_afterIdle (hL.lift (idle_query (q := .recall _) nofun)) h₁ with
    hes | ⟨recalled, _, hminted₂, h₂⟩
  · exact .inl hes
  cases recalled with
  | some outputs => exact .inl (advances_done h₂).2.1
  | none =>
    have hremember : ∀ outputs, Always Idle (do
        Activity.query (.remember (fingerprint identity prepared) outputs)
        return outputs : ExceptT RunFailure Activity Json).run := fun outputs =>
      hL.andThen (hL.lift (idle_query nofun)) fun _ => hL.ok outputs
    obtain ⟨_, _, hminted₃, h₃, hfinished⟩ := advances_beforeIdle hremember h₂
    obtain ⟨_, h₄, hfinished'⟩ := advances_adapt h₃
    rcases advances_performTask hparent hchild h₄ with hes | ⟨r, hr, hseen⟩
    · exact .inl hes
    · exact .inr ⟨r, hr, hseen.imp (hminted₁.trans (hminted₂.trans hminted₃))
        fun hdone => hfinished' (hfinished hdone)⟩

theorem nested_of_seen {whole : Prop}
    (h : es = [] ∨ ∃ r : TaskRun, r.parent = some parent ∧ SeenOf r log es whole) :
    Nested parent log es := by
  rcases h with rfl | ⟨r, hr, hseen⟩
  · exact fun _ hevent => absurd hevent List.not_mem_nil
  · exact hseen.nested_parent hr

/-- A child as far as it came: nothing is seen of it, or the beginning of the block of one task. -/
theorem advances_childRun (depth : Nat) {projectId agentRef : String}
    {left : Activity (Except Error Json)}
    (h : Advances (e.childRunWith overlap.process depth projectId options parent agentRef
      inputs).run log es left) :
    es = [] ∨ ∃ r : TaskRun, r.parent = some parent ∧ SeenOf r log es left.Finished := by
  induction depth generalizing projectId options parent agentRef inputs log es left with
  | zero =>
    obtain ⟨_, h₁, _⟩ := advances_adapt h
    exact .inl (advances_tooDeep h₁).2.1
  | succ depth ih =>
    have hL := Idle.composable.always
    obtain ⟨_, h₁, hfinished⟩ := advances_adapt h
    rcases advances_afterIdle (hL.map _ (e.idle_resolve _ _)) h₁ with
      hes | ⟨found, _, hminted, h₂⟩
    · exact .inl hes
    cases found with
    | none =>
      change Advances (if true then throw _ else pure _ : ExceptT RunFailure Activity Json).run
        _ es _ at h₂
      exact .inl (advances_done h₂).2.1
    | some found =>
      obtain ⟨identity, d⟩ := found
      have hchild : ∀ id agentRef inputs, Always (Nested id) (e.childRunWith overlap.process depth
          identity.projectId { parentTaskId := some parent, deadline := options.deadline,
                               maxRetries := options.maxRetries } id agentRef inputs).run :=
        fun _ _ _ _ _ _ h => nested_of_seen (ih h)
      rcases advances_runDefinition rfl hchild h₂ with hes | ⟨r, hr, hseen⟩
      · exact .inl hes
      · exact .inr ⟨r, hr, hseen.imp hminted hfinished⟩

/-- The work of a task that is performed stays inside of the task. -/
theorem PerformsWith.nested {depth : Nat} {projectId agentRef : String} {r : TaskRun}
    (h : e.PerformsWith overlap.process depth projectId agentRef inputs options r log es) :
    Nested r.id r.log r.events := by
  refine overlap.nested_process r.inputs (fun agentRef inputs log es left hchild => ?_)
    (runs_iff_advances.mp h.ran)
  rw [h.context] at hchild
  exact nested_of_seen (advances_childRun depth hchild)

end Engine

end Agents
