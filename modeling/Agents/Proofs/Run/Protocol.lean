import Agents.Proofs.Run.Blocks

/-! # The event protocol of a run

What a reader may rely on who sees the events of a run from outside, whatever the services answer
and whether the tasks succeed or fail, as long as the ids of tasks are fresh:

- each task has its INPUT, its start, its output and its end, once each and in this order;
- a task ends by stopping exactly if it is a decision that selected a case without a successor;
- a child is started by a task that is open, and everything that the child reports comes between
  the start and the end of that task; two children of one task are one after the other;
- a run that fails from outside ends with one ERROR, and a run without a task has no events.
-/

namespace Agents

open Activity

structure Protocol (tasks : List TaskRun) (es : List Event) : Prop where
  /-- No id is used twice. -/
  distinct : (taskIds tasks).Nodup
  /-- Every event of a task is that of one of these. -/
  complete : Owned (taskIds tasks) es
  /-- The events of each task are its INPUT, its start, its output and its end. -/
  lifecycle : ∀ r ∈ tasks, ∃ outputs : List Event,
    es.filter (·.taskId? = some r.id) = r.inputEvent :: r.startEvent :: (outputs ++ [r.endEvent]) ∧
    ∀ event ∈ outputs, event.IsOutputOf r.id
  /-- A task that chose to stop ends by stopping, and every other one as finished. -/
  phases : ∀ r ∈ tasks, (r.phase = .stop ↔ r.context.ChoseToStop r.inputs r.log) ∧
    (r.phase = .finish ↔ ¬ r.context.ChoseToStop r.inputs r.log)
  /-- All that is seen of a child comes between the start and the end of its parent. -/
  nested : ∀ r ∈ tasks, ∃ before inner after : List Event,
    es = before ++ r.inputEvent :: r.startEvent :: (inner ++ r.endEvent :: after) ∧
    ∀ c ∈ tasks, c.parent = some r.id → Free c.id (before ++ after)
  /-- The children of a task are one after the other. -/
  apart : ∀ c ∈ tasks, ∀ c' ∈ tasks, c.id ≠ c'.id → c.parent = c'.parent → Apart c.id c'.id es

/-! ## Blocks -/

/-- A task has one block in the events, with all that is seen of it and of its children. -/
def HasBlock (tasks : List TaskRun) (es : List Event) (r : TaskRun) : Prop :=
  ∃ before inner after, es = before ++ r.block inner ++ after ∧
    (∀ event ∈ inner, event.taskId? = some r.id → event.IsOutputOf r.id) ∧
    Free r.id (before ++ after) ∧ ∀ c ∈ tasks, c.parent = some r.id → Free c.id (before ++ after)

section Blocks

variable {tasks : List TaskRun} {es : List Event} {r : TaskRun}

theorem Free.filter_eq_nil {id : TaskId} (h : Free id es) :
    es.filter (·.taskId? = some id) = [] := by
  rw [List.filter_eq_nil_iff]
  intro event hevent howner
  exact h event hevent (of_decide_eq_true howner)

theorem HasBlock.lifecycle (h : HasBlock tasks es r) : ∃ outputs : List Event,
    es.filter (·.taskId? = some r.id) = r.inputEvent :: r.startEvent :: (outputs ++ [r.endEvent]) ∧
    ∀ event ∈ outputs, event.IsOutputOf r.id := by
  obtain ⟨before, inner, after, rfl, houtput, hfree, _⟩ := h
  have hbefore : Free r.id before := fun event he => hfree event (List.mem_append_left _ he)
  have hafter : Free r.id after := fun event he => hfree event (List.mem_append_right _ he)
  refine ⟨inner.filter (·.taskId? = some r.id), ?_, fun event hevent => ?_⟩
  · rw [List.filter_append, List.filter_append, hbefore.filter_eq_nil, hafter.filter_eq_nil]
    simp [TaskRun.block]
  · obtain ⟨hmem, howner⟩ := List.mem_filter.mp hevent
    exact houtput event hmem (of_decide_eq_true howner)

theorem HasBlock.nested (h : HasBlock tasks es r) : ∃ before inner after : List Event,
    es = before ++ r.inputEvent :: r.startEvent :: (inner ++ r.endEvent :: after) ∧
    ∀ c ∈ tasks, c.parent = some r.id → Free c.id (before ++ after) := by
  obtain ⟨before, inner, after, rfl, _, _, hchildren⟩ := h
  exact ⟨before, inner, after, by simp [TaskRun.block], hchildren⟩

end Blocks

/-! ## From blocks to the protocol -/

section Whole

variable {e : Engine} {p : TaskRun} {inner before after : List Event} {tasks : List TaskRun}

theorem hasBlock_self (h : Inside e [p.id] p p.log inner tasks) (hp : p.id ∉ taskIds tasks)
    (hbefore : Owned [] before) (hafter : Owned [] after) :
    HasBlock (p :: tasks) (before ++ p.block inner ++ after) p := by
  have hfree : ∀ id, Free id (before ++ after) := fun id =>
    (hbefore.append hafter).free List.not_mem_nil
  exact ⟨before, inner, after, rfl, h.isOutputOf hp, hfree p.id, fun c _ _ => hfree c.id⟩

theorem hasBlock_of_mem {r : TaskRun} (h : Inside e [p.id] p p.log inner tasks)
    (hnodup : (p.id :: taskIds tasks).Nodup)
    (hparent : ∀ id, p.parent = some id → id ∉ p.id :: taskIds tasks)
    (hbefore : Owned [] before) (hafter : Owned [] after) (hr : r ∈ tasks) :
    HasBlock (p :: tasks) (before ++ p.block inner ++ after) r := by
  obtain ⟨before', inner', after', early, within, late, live', rfl, rfl, hinside, hbefore',
    hafter', hothers, parent, hearly, hrparent⟩ := h.place hr
  have hnodup' : (p.id :: (taskIds early ++ r.id :: (taskIds within ++ taskIds late))).Nodup := by
    simpa using hnodup
  rw [List.nodup_cons, List.nodup_append, List.nodup_cons, List.nodup_append] at hnodup'
  obtain ⟨hp, _, ⟨hr', _, _, hlate⟩, hearly'⟩ := hnodup'
  let around : List Event := (before ++ p.inputEvent :: p.startEvent :: before') ++
    (after' ++ p.endEvent :: after)
  -- what is around the block belongs to the tasks around it
  have hwhole : Owned (p.id :: taskIds (early ++ late)) around := by
    refine .append (.append (hbefore.mono (List.nil_subset _)) ?_) (.append hafter' ?_)
    · exact .cons List.mem_cons_self rfl (.cons List.mem_cons_self rfl hbefore')
    · exact .cons List.mem_cons_self rfl (hafter.mono (List.nil_subset _))
  refine ⟨before ++ p.inputEvent :: p.startEvent :: before', inner', after' ++ p.endEvent :: after,
    by simp [TaskRun.block], hinside.isOutputOf fun hmem => hr' (List.mem_append_left _ hmem),
    hwhole.free (by grind), fun c hc hcparent => hwhole.free ?_⟩
  have haround : ∀ c' ∈ early ++ late, c'.parent ≠ some r.id := by
    intro c' hc' hcparent'
    obtain ⟨parent', hmem', hparent'⟩ := hothers c' hc'
    rw [hcparent'] at hparent'
    cases hparent'
    grind
  -- a child of the task is inside of it, since the tasks around it have other parents
  have hcwithin : c ∈ within := by
    rcases List.mem_cons.mp hc with rfl | hmem
    · exact absurd (by simp) (hparent r.id hcparent)
    rcases List.mem_append.mp hmem with hc' | hc'
    · exact absurd hcparent (haround c (List.mem_append_left _ hc'))
    rcases List.mem_cons.mp hc' with rfl | hc''
    · rw [hcparent] at hrparent
      cases hrparent
      grind
    rcases List.mem_append.mp hc'' with hin | hout
    · exact hin
    · exact absurd hcparent (haround c (List.mem_append_right _ hout))
  have hmem := mem_taskIds hcwithin
  grind

/-- What goes on inside a task follows the protocol, if the ids are fresh. -/
theorem protocol_of_inside (h : Inside e [p.id] p p.log inner tasks) (hran : p.Ran)
    (hnodup : (p.id :: mintedIds p.log).Nodup)
    (hparent : ∀ id, p.parent = some id → id ∉ p.id :: mintedIds p.log)
    (hbefore : Owned [] before) (hafter : Owned [] after) :
    Protocol (p :: tasks) (before ++ p.block inner ++ after) := by
  have hminted : (p.id :: taskIds tasks).Sublist (p.id :: mintedIds p.log) := h.minted.cons_cons _
  have hdistinct : (p.id :: taskIds tasks).Nodup := hminted.nodup hnodup
  have houter : ∀ id, p.parent = some id → id ∉ p.id :: taskIds tasks := fun id hid hmem =>
    hparent id hid (hminted.subset hmem)
  have hp : p.id ∉ taskIds tasks := (List.nodup_cons.mp hdistinct).1
  have hblocks : ∀ r ∈ p :: tasks, HasBlock (p :: tasks) (before ++ p.block inner ++ after) r := by
    intro r hr
    rcases List.mem_cons.mp hr with rfl | hmem
    · exact hasBlock_self h hp hbefore hafter
    · exact hasBlock_of_mem h hdistinct houter hbefore hafter hmem
  have hraninside : ∀ r ∈ p :: tasks, r.Ran := by
    intro r hr
    rcases List.mem_cons.mp hr with rfl | hmem
    · exact hran
    · obtain ⟨_, ⟨hstarts, _⟩ | ⟨_, _, hstarts, _⟩⟩ := h.started r hmem
      · exact hstarts.ran
      · exact hstarts.ran
  have hall : Owned (p.id :: taskIds tasks) (p.block inner) :=
    .block List.mem_cons_self h.owned
  refine ⟨hdistinct, ?_, fun r hr => (hblocks r hr).lifecycle, fun r hr => ?_,
    fun r hr => (hblocks r hr).nested, ?_⟩
  · exact ((hbefore.mono (List.nil_subset _)).append hall).append (hafter.mono (List.nil_subset _))
  · have hstop := TaskRun.phase_eq_stop_iff (hraninside r hr)
    refine ⟨hstop, ?_⟩
    rw [← hstop]
    rcases r.phase_eq_finish_or_stop with hphase | hphase <;> simp [hphase]
  -- the task itself has no sibling inside: its parent is out of reach
  · have hinner : ∀ c ∈ tasks, p.parent ≠ c.parent := by
      intro c hc heq
      obtain ⟨parent, hmem, hcparent⟩ := h.parented c hc
      exact houter parent (heq.trans hcparent) hmem
    intro c hc c' hc' hne heq
    rcases List.mem_cons.mp hc with rfl | hmem <;> rcases List.mem_cons.mp hc' with rfl | hmem'
    · exact absurd rfl hne
    · exact absurd heq (hinner c' hmem')
    · exact absurd heq.symm (hinner c hmem)
    · have hc := mem_taskIds hmem
      have hc' := mem_taskIds hmem'
      have hapart : Apart c.id c'.id inner :=
        h.apart List.mem_cons_self (List.nodup_cons.mp hdistinct).2 (by simpa using hp) c hmem c'
          hmem' hne heq
      have hout : ∀ {es id}, Owned [] es → Free id es := fun hes => hes.free List.not_mem_nil
      exact ((hapart.block (by grind) (by grind)).after (hout hbefore) (hout hbefore)).before
        (hout hafter) (hout hafter)

end Whole

/-! ## Runs from outside -/

/-- The events of a run from outside, whatever the services answer: there are none, because the run
has no task, or they are those of a task and of what goes on inside of it, in the order of the
protocol. -/
theorem execute_events {e : Engine} {depth : Nat} {projectId agentRef : String} {inputs : Json}
    {options : RunOptions} {log : List Exchange} {es : List Event} {res : Except Error Json}
    (h : Runs (e.execute depth projectId agentRef inputs options).run log es res)
    (hfresh : (mintedIds log).Nodup)
    (hparent : ∀ id, options.parentTaskId = some id → id ∉ mintedIds log) :
    (es = [] ∧ ∃ failed, e.Skips projectId agentRef inputs options.isRequired log failed ∧
      res = failed.mapError RunFailure.error) ∨
    ∃ (root : TaskRun) (tasks : List TaskRun) (inner ending : List Event),
      Protocol (root :: tasks) es ∧ root.parent = options.parentTaskId ∧ res = root.outcome ∧
      (∃ depth' log' said, e.Performs depth' projectId agentRef inputs options root log' said ∧
        log' <+: log) ∧
      (∀ c ∈ tasks, ∃ p ∈ root :: tasks, c.parent = some p.id ∧
        ∃ starting, e.Starts p c starting ∧ starting <:+: p.log) ∧
      es = Engine.greeting options ++ root.block inner ++ ending ∧
      ((∃ failure now, options.parentTaskId = none ∧ res = .error failure ∧
          ending = [.error (.ofError failure now)]) ∨
        ((options.parentTaskId = none → ∃ outputs, res = .ok outputs) ∧ ending = [])) := by
  obtain ⟨log₁, es₁, log₂, ending, res', rfl, rfl, hrun, hending, rfl⟩ := Engine.runs_execute h
  cases depth with
  | zero => exact absurd hrun not_runs_tooDeep
  | succ depth =>
  rcases Engine.run_cases hrun with ⟨rfl, hskips⟩ | ⟨root, hperforms, rfl⟩
  · left
    -- without a task there is no ERROR to report
    cases hending with
    | error now hres _ hstarted =>
      rw [hres] at hskips
      have hnot := hskips.started_eq_false
      rw [hstarted] at hnot
      cases hnot
    | silent _ => exact ⟨rfl, res', by simpa using hskips, rfl⟩
  · right
    obtain ⟨tasks, hinside⟩ := inside_of_ran depth hperforms.context hperforms.ran
    have hminted : (root.id :: mintedIds root.log).Sublist (mintedIds (log₁ ++ log₂)) := by
      rw [mintedIds_append]
      exact hperforms.minted.trans (List.sublist_append_left _ _)
    have hroot : root.parent = options.parentTaskId := hperforms.id_eq
    refine ⟨root, tasks, root.events, ending, ?_, hroot, Engine.error_mapError _ true,
      ⟨depth, log₁, es₁, hperforms, List.prefix_append _ _⟩, ?_, by rw [hperforms.events], ?_⟩
    · rw [hperforms.events]
      refine protocol_of_inside hinside hperforms.ran (hminted.nodup hfresh) ?_
        (.of_none (Engine.taskId?_greeting options)) (.of_none hending.taskId?_eq_none)
      intro id hid hmem
      exact hparent id (hroot ▸ hid) (hminted.subset hmem)
    · intro c hc
      obtain ⟨starting, ⟨hstarts, hlog⟩ | ⟨p, hp, hstarts, hlog⟩⟩ := hinside.started c hc
      · exact ⟨root, List.mem_cons_self, hstarts.parent_eq, starting, hstarts, hlog⟩
      · exact ⟨p, List.mem_cons_of_mem _ hp, hstarts.parent_eq, starting, hstarts, hlog⟩
    · rw [Engine.error_mapError]
      exact hending.of_task

/-- An engine without agents of its own, and without a model for images. -/
def gallery : Engine := { project := { id := "gallery" } }

def painter : Definition :=
  { id := "painter", name := "Painter", kind := .imageGeneration { prompt := "a tree" } }

def studio : Definition :=
  { id := "studio", name := "Studio"
    kind := .pipeline { steps := [{ name := "draw", agent := "painter" }] } }

/-- A child fails, and then its parent. -/
theorem execute_events_studio : ∃ log es res root tasks,
    Runs (gallery.execute 2 "gallery" "studio" .null {}).run log es res ∧
    mintedIds log = ["a", "b"] ∧ es.filterMap Event.taskId? = ["a", "a", "b", "b", "b", "a"] ∧
    Protocol (root :: tasks) es ∧ (∀ c ∈ tasks, ∃ p ∈ root :: tasks, c.parent = some p.id) ∧
    ∃ inner failure now, es = root.block inner ++ [.error (.ofError failure now)] := by
  have hnone (agentId : String) : gallery.project.agent? agentId = none := rfl
  have hruns : ∃ log es e,
      Runs (gallery.execute 2 "gallery" "studio" .null {}).run log es (.error e) ∧
      mintedIds log = ["a", "b"] ∧ es.filterMap Event.taskId? = ["a", "a", "b", "b", "b", "a"] := by
    simp only [Engine.execute_eq, Engine.run_succ, Engine.resolve_eq_query, hnone, implies_true]
    exact ⟨_, _, _, .answered ⟨.agent _, .ok (some studio)⟩ <| .answered ⟨.recall _, none⟩ <|
      .answered ⟨.newTask, "a"⟩ <| .report _ <| .answered ⟨.clock, ⟨0, 0⟩⟩ <| .report _ <|
      .answered ⟨.agent _, .ok (some painter)⟩ <| .answered ⟨.recall _, none⟩ <|
      .answered ⟨.newTask, "b"⟩ <| .report _ <| .answered ⟨.clock, ⟨0, 0⟩⟩ <| .report _ <|
      .answered ⟨.clock, ⟨0, 0⟩⟩ <| .report _ <| .answered ⟨.clock, ⟨0, 0⟩⟩ <| .report _ <|
      .answered ⟨.clock, ⟨0, 0⟩⟩ <| .report _ <| .done _, rfl, rfl⟩
  obtain ⟨log, es, e, hrun, hids, hes⟩ := hruns
  have hfresh : (mintedIds log).Nodup := by
    rw [hids]
    decide
  have htop : ∀ id, (none : Option TaskId) = some id → id ∉ mintedIds log := by
    intro id hid
    cases hid
  rcases execute_events hrun hfresh htop with
    ⟨rfl, _⟩ | ⟨root, tasks, inner, ending, hprotocol, _, _, _, hstarted, rfl, hending⟩
  · cases hes
  refine ⟨log, _, .error e, root, tasks, hrun, hids, hes, hprotocol, fun c hc => ?_, inner, ?_⟩
  · obtain ⟨p, hp, hparent, _⟩ := hstarted c hc
    exact ⟨p, hp, hparent⟩
  · rcases hending with ⟨failure, now, _, _, rfl⟩ | ⟨hok, _⟩
    · exact ⟨failure, now, rfl⟩
    · obtain ⟨outputs, houtputs⟩ := hok rfl
      cases houtputs

end Agents
