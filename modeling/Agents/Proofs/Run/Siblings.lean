import Agents.Proofs.Run.Nesting
import Mathlib.Data.List.SplitBy

/-! # Tasks of a group

The tasks that a pipeline runs side by side end before the pipeline does. Each of them ends exactly
once, unless another one of its group fails before: then its run is dropped, and what has begun is
not ended.

`Overlap.child_ends_once` says so for every way in which the tasks may take turns. The ids of tasks
have to be distinct, which is what keeps the events of two tasks apart.
-/

namespace Agents

open Activity

/-! ## How often a task ends -/

section Ends

variable {owner id : TaskId} {log : List Exchange} {es : List Event} {r : TaskRun}

theorem Nested.countP_closes (h : Nested owner log es) (hid : id ∉ mintedIds log) :
    es.countP (Event.closes id) = 0 := by
  rw [List.countP_eq_zero]
  intro event hevent hcloses
  exact hid ((h event hevent).mem_of_closes hcloses)

theorem TaskRun.countP_closes_block {inner : List Event}
    (h : inner.countP (Event.closes r.id) = 0) :
    (r.block inner).countP (Event.closes r.id) = 1 := by
  have hphase : r.phase ≠ .start := by
    unfold phase
    split
    · unfold TaskResult.phase
      split <;> decide
    · decide
  have hinput : Event.closes r.id r.inputEvent = false := rfl
  have hstart : Event.closes r.id r.startEvent = false := by
    simp [startEvent, phaseEvent, Event.closes]
  have hend : Event.closes r.id r.endEvent = true := by
    simp [endEvent, phaseEvent, Event.closes, hphase]
  simp [block, List.countP_append, h, hinput, hstart, hend]

/-- A child as far as it came ends at most once, and exactly once if its run came to its end. -/
theorem SeenOf.countP_closes {whole : Prop} (h : SeenOf r log es whole)
    (hfresh : (mintedIds log).Nodup) : es.countP (Event.closes r.id) ≤ 1 ∧
      (whole → es.countP (Event.closes r.id) = 1) := by
  rw [h.minted, List.nodup_cons] at hfresh
  have hblock := r.countP_closes_block (h.nested.countP_closes hfresh.1)
  refine ⟨hblock ▸ h.begun.sublist.countP_le, fun hwhole => ?_⟩
  rw [h.ended hwhole]
  exact hblock

/-- The one task that is seen of a child is the one that begins as a child. -/
theorem SeenOf.begins {parent : TaskId} {whole : Prop} (h : SeenOf r log es whole)
    (hparent : parent ∉ mintedIds log) {event : Event} (hevent : event ∈ es)
    (hbegins : event.BeginsChild parent id) : id = r.id := by
  have hblock : event ∈ r.block r.events := h.begun.subset hevent
  simp only [TaskRun.block, List.mem_cons, List.mem_append, List.not_mem_nil, or_false] at hblock
  rcases hblock with rfl | rfl | hinner | rfl
  · exact hbegins.1.symm
  · exact hbegins.elim
  · have hmem := (h.nested event hinner).parent_mem hbegins
    rw [← h.minted] at hmem
    exact absurd hmem hparent
  · exact hbegins.elim

end Ends

/-! ## Groups -/

namespace Pipeline

theorem concurrent_of_several {steps group : List PipelineStep} (hgroup : group ∈ groups steps)
    (hseveral : 2 ≤ group.length) : ∀ step ∈ group, step.concurrent = true := by
  have hchain := List.isChain_of_mem_splitBy hgroup
  intro step hstep
  obtain ⟨i, hi, rfl⟩ := List.getElem_of_mem hstep
  have hpair (j : Nat) (hj : j + 1 < group.length) :
      group[j].concurrent = true ∧ group[j + 1].concurrent = true := by
    simpa using List.isChain_iff_getElem.mp hchain j hj
  cases i with
  | zero => exact (hpair 0 hseveral).1
  | succ j => exact (hpair j hi).2

variable {t : TaskContext} {overlap : Overlap} {vars : Json.Fields} {log : List Exchange}
  {es : List Event}

/-- The course of the child of a step of the group. -/
def IsChildCourse (t : TaskContext) (group : List PipelineStep) (c : Course (String × Json)) :
    Prop :=
  ∃ step ∈ group, ∃ inputs left, Advances (t.runChild step.agent inputs).run c.log c.events left ∧
    (c.left.Finished → left.Finished)

/-- A child of the group is dropped, because another one failed with `e`. -/
structure IsDropped (t : TaskContext) (group : List PipelineStep)
    (c failed : Course (String × Json)) (e : Error) : Prop where
  several : 2 ≤ group.length
  other : failed ≠ c
  child : IsChildCourse t group c
  failure : ∃ step ∈ group, ∃ inputs,
    Runs (t.runChild step.agent inputs).run failed.log failed.events (.error e)

/-- What is exchanged and reported in the groups of a pipeline is that of its children, and every
child comes to its end unless another one of its group fails. -/
structure Children {α : Type} (t : TaskContext) (groups : List (List PipelineStep))
    (log : List Exchange) (es : List Event) (res : Except Error α)
    (courses : List (Course (String × Json))) : Prop where
  exchanged : log.Perm (courses.flatMap Course.log)
  reported : es.Perm (courses.flatMap Course.events)
  part : ∀ c ∈ courses, c.events.Sublist es
  child : ∀ c ∈ courses, ∃ group ∈ groups, IsChildCourse t group c
  ended : ∀ c ∈ courses, c.left.Finished ∨
    ∃ group ∈ groups, ∃ failed ∈ courses, ∃ e, res = .error e ∧ IsDropped t group c failed e

theorem Children.finished {α : Type} {groups : List (List PipelineStep)} {a : α}
    {courses : List (Course (String × Json))} (h : Children t groups log es (.ok a) courses) :
    ∀ c ∈ courses, c.left.Finished := by
  intro c hc
  rcases h.ended c hc with hfinished | ⟨_, _, _, _, _, hres, _⟩
  · exact hfinished
  · cases hres

/-- There may be further groups, and more to do where the groups end well. -/
theorem Children.mono {α β : Type} {groups groups' : List (List PipelineStep)}
    {res : Except Error α} {res' : Except Error β} {courses : List (Course (String × Json))}
    (hgroups : groups ⊆ groups') (hres : ∀ e, res = .error e → res' = .error e)
    (h : Children t groups log es res courses) : Children t groups' log es res' courses where
  exchanged := h.exchanged
  reported := h.reported
  part := h.part
  child := by
    intro c hc
    obtain ⟨group, hgroup, hchild⟩ := h.child c hc
    exact ⟨group, hgroups hgroup, hchild⟩
  ended := by
    intro c hc
    refine (h.ended c hc).imp_right ?_
    rintro ⟨group, hgroup, failed, hfailed, e, he, hdropped⟩
    exact ⟨group, hgroups hgroup, failed, hfailed, e, hres e he, hdropped⟩

/-- The children of further groups come after those of the first. -/
theorem Children.append {α β : Type} {groups groups' : List (List PipelineStep)} {a : α}
    {res : Except Error β} {log' : List Exchange} {es' : List Event}
    {courses courses' : List (Course (String × Json))}
    (h : Children t groups log es (.ok a) courses) (h' : Children t groups' log' es' res courses') :
    Children t (groups ++ groups') (log ++ log') (es ++ es') res (courses ++ courses') where
  exchanged := by
    rw [List.flatMap_append]
    exact h.exchanged.append h'.exchanged
  reported := by
    rw [List.flatMap_append]
    exact h.reported.append h'.reported
  part := by
    intro c hc
    rcases List.mem_append.mp hc with hc | hc
    · exact (h.part c hc).trans (List.sublist_append_left _ _)
    · exact (h'.part c hc).trans (List.sublist_append_right _ _)
  child := by
    intro c hc
    rcases List.mem_append.mp hc with hc | hc
    · obtain ⟨group, hgroup, hchild⟩ := h.child c hc
      exact ⟨group, List.mem_append_left _ hgroup, hchild⟩
    · obtain ⟨group, hgroup, hchild⟩ := h'.child c hc
      exact ⟨group, List.mem_append_right _ hgroup, hchild⟩
  ended := by
    intro c hc
    rcases List.mem_append.mp hc with hc | hc
    · exact .inl (h.finished c hc)
    · refine (h'.ended c hc).imp_right ?_
      rintro ⟨group, hgroup, failed, hfailed, hdropped⟩
      exact ⟨group, List.mem_append_right _ hgroup, failed, List.mem_append_right _ hfailed,
        hdropped⟩

theorem advances_runStep {step : PipelineStep} {c : Course (String × Json)}
    (h : c.IsOf (runStep t vars step)) : ∃ inputs left,
      Advances (t.runChild step.agent inputs).run c.log c.events left ∧
      (c.left.Finished → left.Finished) ∧
      ∀ e, c.left = .done (.error e) → left = .done (.error e) := by
  refine ⟨.obj (step.inputs.resolve vars), ?_⟩
  rcases advances_andThen h with
    ⟨left, hchild, _, hopen⟩ | ⟨e, hleft, hruns⟩ | ⟨log₁, es₁, a, _, _, hlog, hes, hruns, hret⟩
  · exact ⟨left, hchild, fun hdone => absurd hdone hopen, fun e he => absurd ⟨_, he⟩ hopen⟩
  · refine ⟨_, runs_iff_advances.mp hruns, fun _ => finished_done _, fun e' he' => ?_⟩
    rw [hleft] at he'
    cases he'
    rfl
  · obtain ⟨rfl, rfl, hleft⟩ := advances_done hret
    rw [hlog, hes, List.append_nil, List.append_nil]
    refine ⟨_, runs_iff_advances.mp hruns, fun _ => finished_done _, fun e he => ?_⟩
    rw [hleft] at he
    cases he

theorem two_le_length {α : Type} {xs : List α} {x y : α} (hx : x ∈ xs) (hy : y ∈ xs)
    (hne : x ≠ y) : 2 ≤ xs.length := by
  match xs, hx, hy with
  | [only], hx, hy =>
    exact absurd ((List.mem_singleton.mp hx).trans (List.mem_singleton.mp hy).symm) hne
  | _ :: _ :: _, _, _ => exact Nat.le_add_left 2 _

theorem runs_runGroupIn {left : Nat} {group : List PipelineStep}
    {res : Except Error (List (String × Json))}
    (h : Runs (runGroupIn overlap t left vars group).run log es res) :
    ∃ courses, Children t [group] log es res courses := by
  obtain ⟨courses, hcourses, hends⟩ := advances_together (runs_iff_advances.mp h)
  have hstep : ∀ c ∈ courses, ∃ step ∈ group, c.IsOf (runStep t vars step) := by
    intro c hc
    obtain ⟨run, hrun, hof⟩ := hcourses.exists_run hc
    obtain ⟨step, hstep, rfl⟩ := List.mem_map.mp hrun
    exact ⟨step, hstep, hof⟩
  have hchild : ∀ c ∈ courses, IsChildCourse t group c := by
    intro c hc
    obtain ⟨step, hmem, hof⟩ := hstep c hc
    obtain ⟨inputs, left, hadvances, hfinished, _⟩ := advances_runStep hof
    exact ⟨step, hmem, inputs, left, hadvances, hfinished⟩
  refine ⟨courses, hcourses.log_perm, hcourses.events_perm, fun c hc => (hcourses.sublist hc).2,
    fun c hc => ⟨group, List.mem_singleton_self group, hchild c hc⟩, fun c hc => ?_⟩
  cases res with
  | ok outputs => exact .inl (hends.finished _ (List.mem_map_of_mem hc))
  | error e =>
    obtain ⟨failed, hfailed, hleft⟩ := List.mem_map.mp (hends.2 e rfl)
    by_cases hfinished : c.left.Finished
    · exact .inl hfinished
    -- the course that failed is another one, so there are two steps at least
    have hne : failed ≠ c := by
      rintro rfl
      exact hfinished ⟨_, hleft⟩
    have hseveral : 2 ≤ group.length := by
      rw [← List.length_map (runStep t vars), ← hcourses.length_eq]
      exact two_le_length hfailed hc hne
    obtain ⟨step, hmem, hof⟩ := hstep failed hfailed
    obtain ⟨inputs, left, hadvances, _, herror'⟩ := advances_runStep hof
    rw [herror' e hleft] at hadvances
    exact .inr ⟨group, List.mem_singleton_self group, failed, hfailed, e, rfl, hseveral, hne,
      hchild c hc, step, hmem, inputs, runs_iff_advances.mpr hadvances⟩

theorem runs_runGroupsWith {groups : List (List PipelineStep)} {last : Json}
    {res : Except Error (Json.Fields × Json)}
    (h : Runs (runGroupsWith (runGroupIn overlap t) vars last groups).run log es res) :
    ∃ courses, Children t groups log es res courses := by
  induction groups generalizing vars last log es with
  | nil =>
    obtain ⟨rfl, rfl, rfl⟩ := runs_ok.mp h
    exact ⟨[], List.Perm.nil, List.Perm.nil, nofun, nofun, nofun⟩
  | cons group rest ih =>
    rcases runs_andThen.mp h with ⟨e, rfl, hgroup⟩ | ⟨_, _, outputs, _, _, rfl, rfl, hgroup, hrest⟩
    · obtain ⟨courses, hchildren⟩ := runs_runGroupIn hgroup
      refine ⟨courses, hchildren.mono (List.cons_subset_cons group (List.nil_subset rest)) ?_⟩
      rintro _ ⟨⟩
      rfl
    · obtain ⟨courses, hchildren⟩ := runs_runGroupIn hgroup
      obtain ⟨courses', hchildren'⟩ := ih hrest
      exact ⟨courses ++ courses', hchildren.append hchildren'⟩

theorem runs_validated {outputs : Json} {res : Except Error Json}
    (h : Runs (t.validated outputs).run log es res) :
    log = [] ∧ es = [] ∧ res = (t.validate outputs).map fun _ => outputs := by
  rcases runs_andThen.mp h with ⟨e, rfl, hcheck⟩ | ⟨_, _, _, _, _, rfl, rfl, hcheck, hret⟩
  · obtain ⟨rfl, rfl, hinvalid⟩ := runs_ofExcept.mp hcheck
    rw [← hinvalid]
    exact ⟨rfl, rfl, rfl⟩
  · obtain ⟨rfl, rfl, hvalid⟩ := runs_ofExcept.mp hcheck
    obtain ⟨rfl, rfl, rfl⟩ := runs_ok.mp hret
    rw [← hvalid]
    exact ⟨rfl, rfl, rfl⟩

theorem runs_process {spec : PipelineSpec} {inputs : Json} {res : Except Error TaskResult}
    (hkind : t.definition.kind = .pipeline spec)
    (h : Runs (overlap.process t inputs).run log es res) :
    ∃ courses, Children t (groups spec.steps) log es res courses := by
  unfold Overlap.process at h
  split at h
  · next spec' hkind' =>
    obtain rfl : spec = spec' := AgentKind.pipeline.inj (hkind.symm.trans hkind')
    obtain ⟨res', hprocess, rfl⟩ := runs_mapOk.mp h
    rcases runs_andThen.mp hprocess with
      ⟨e, rfl, hgroups⟩ | ⟨_, _, outputs, _, _, rfl, rfl, hgroups, hvalidated⟩
    · obtain ⟨courses, hchildren⟩ := runs_runGroupsWith hgroups
      refine ⟨courses, hchildren.mono (List.Subset.refl _) ?_⟩
      rintro _ ⟨⟩
      rfl
    · obtain ⟨courses, hchildren⟩ := runs_runGroupsWith hgroups
      obtain ⟨rfl, rfl, -⟩ := runs_validated hvalidated
      rw [List.append_nil, List.append_nil]
      refine ⟨courses, hchildren.mono (List.Subset.refl _) ?_⟩
      rintro _ ⟨⟩
  · next hother => exact absurd hkind (hother spec)

section Minted

variable {α : Type} {groups : List (List PipelineStep)} {res : Except Error α} {owner id : TaskId}
  {c c' : Course (String × Json)} {courses : List (Course (String × Json))}

theorem Children.minted (h : Children t groups log es res courses) (hc : c ∈ courses) :
    mintedIds c.log ⊆ mintedIds log ∧ ((mintedIds log).Nodup → (mintedIds c.log).Nodup) := by
  have hpart : c.log.Sublist (courses.flatMap Course.log) :=
    List.sublist_flatten_of_mem (List.mem_map_of_mem hc)
  have hids : (mintedIds c.log).Sublist (mintedIds (courses.flatMap Course.log)) :=
    hpart.filterMap _
  have hperm : (mintedIds log).Perm (mintedIds (courses.flatMap Course.log)) :=
    h.exchanged.filterMap _
  exact ⟨fun id hid => hperm.mem_iff.mpr (hids.subset hid),
    fun hnodup => (hperm.nodup_iff.mp hnodup).sublist hids⟩

/-- The tasks of a course are in no course before it and in none after it. -/
theorem Children.not_minted {before after : List (Course (String × Json))}
    (h : Children t groups log es res (before ++ c :: after)) (hfresh : (mintedIds log).Nodup)
    (hid : id ∈ mintedIds c.log) (hc' : c' ∈ before ++ after) : id ∉ mintedIds c'.log := by
  have hnodup : ((before ++ c :: after).flatMap fun c => mintedIds c.log).Nodup := by
    have hperm := (h.exchanged.filterMap Exchange.minted?).nodup_iff.mp hfresh
    simpa only [mintedIds, List.filterMap_flatMap] using hperm
  rw [(List.perm_middle.flatMap_right _).nodup_iff, List.flatMap_cons, List.nodup_append] at hnodup
  exact fun hmem => hnodup.2.2 id hid id (List.mem_flatMap.mpr ⟨c', hc', hmem⟩) rfl

/-- All events that end a task are in the course that begins it. -/
theorem Children.countP_closes (h : Children t groups log es res courses)
    (hnested : ∀ c ∈ courses, Nested owner c.log c.events) (hc : c ∈ courses)
    (hid : id ∈ mintedIds c.log) (hfresh : (mintedIds log).Nodup) :
    es.countP (Event.closes id) = c.events.countP (Event.closes id) := by
  obtain ⟨before, after, rfl⟩ := List.append_of_mem hc
  have hothers : ((before ++ after).flatMap Course.events).countP (Event.closes id) = 0 := by
    rw [List.countP_eq_zero]
    intro event hevent hcloses
    obtain ⟨c', hc', hevent⟩ := List.mem_flatMap.mp hevent
    have hmem : c' ∈ before ++ c :: after :=
      List.perm_middle.mem_iff.mpr (List.mem_cons_of_mem c hc')
    exact h.not_minted hfresh hid hc' ((hnested c' hmem event hevent).mem_of_closes hcloses)
  rw [h.reported.countP_eq, (List.perm_middle.flatMap_right _).countP_eq, List.flatMap_cons,
    List.countP_append, hothers, Nat.add_zero]

end Minted

/-! ## The tasks of a pipeline -/

/-- The child is left open, as another step of its group failed with `e` before it came to its
end. -/
structure LeftOpen (t : TaskContext) (group : List PipelineStep) (es : List Event) (child : TaskId)
    (e : Error) : Prop where
  concurrent : ∀ step ∈ group, step.concurrent = true
  begun : ∃ step ∈ group, ∃ inputs log es' left,
    Advances (t.runChild step.agent inputs).run log es' left ∧ es'.Sublist es ∧
    ∃ event ∈ es', event.BeginsChild t.emitter.taskId child
  failed : ∃ step ∈ group, ∃ inputs log es',
    Runs (t.runChild step.agent inputs).run log es' (.error e) ∧ es'.Sublist es ∧
    ∀ event ∈ es', ¬ event.BeginsChild t.emitter.taskId child

section Tasks

variable {α : Type} {e : Engine} {depth : Nat} {identity : Identity} {d : Definition}
  {options : RunOptions} {id child : TaskId} {groups : List (List PipelineStep)}
  {group : List PipelineStep} {res : Except Error α} {c failed : Course (String × Json)}
  {courses : List (Course (String × Json))} {event : Event}

/-- Of a child one task is seen, as far as its course came, or nothing at all. -/
theorem Children.seen (ht : t = e.taskContextWith overlap.process depth identity d options id)
    (h : Children t groups log es res courses) (hc : c ∈ courses) :
    c.events = [] ∨ ∃ r : TaskRun, r.parent = some id ∧
      SeenOf r c.log c.events c.left.Finished := by
  subst ht
  obtain ⟨_, _, step, _, inputs, left, hadvances, hfinished⟩ := h.child c hc
  rcases Engine.advances_childRun depth hadvances with hnone | ⟨r, hparent, hseen⟩
  · exact .inl hnone
  · exact .inr ⟨r, hparent, hseen.imp rfl hfinished⟩

theorem Children.nested (ht : t = e.taskContextWith overlap.process depth identity d options id)
    (h : Children t groups log es res courses) (hc : c ∈ courses) : Nested id c.log c.events := by
  rcases h.seen ht hc with hnone | ⟨r, hparent, hseen⟩
  · rw [hnone]
    exact fun _ hevent => absurd hevent List.not_mem_nil
  · exact hseen.nested_parent hparent

/-- A child is a task of the course in which it begins. There it ends at most once, and exactly once
if the course came to its end. -/
theorem Children.begun (ht : t = e.taskContextWith overlap.process depth identity d options id)
    (h : Children t groups log es res courses) (hfresh : (id :: mintedIds log).Nodup)
    (hc : c ∈ courses) (hevent : event ∈ c.events) (hbegins : event.BeginsChild id child) :
    child ∈ mintedIds c.log ∧ c.events.countP (Event.closes child) ≤ 1 ∧
      (c.left.Finished → c.events.countP (Event.closes child) = 1) := by
  obtain ⟨hid, hnodup⟩ := List.nodup_cons.mp hfresh
  obtain ⟨hsub, hcourse⟩ := h.minted hc
  rcases h.seen ht hc with hnone | ⟨r, _, hseen⟩
  · rw [hnone] at hevent
    cases hevent
  obtain rfl := hseen.begins (fun hmem => hid (hsub hmem)) hevent hbegins
  exact ⟨hseen.minted ▸ List.mem_cons_self, hseen.countP_closes (hcourse hnodup)⟩

/-- A child that is dropped is left open by the failure of another one. -/
theorem Children.leftOpen {steps : List PipelineStep} {failure : Error}
    (ht : t = e.taskContextWith overlap.process depth identity d options id)
    (h : Children t (Pipeline.groups steps) log es res courses)
    (hfresh : (id :: mintedIds log).Nodup) (hgroup : group ∈ Pipeline.groups steps)
    (hc : c ∈ courses) (hfailed : failed ∈ courses) (hevent : event ∈ c.events)
    (hbegins : event.BeginsChild id child) (hdropped : IsDropped t group c failed failure) :
    LeftOpen t group es child failure := by
  obtain ⟨hmem, _⟩ := h.begun ht hfresh hc hevent hbegins
  obtain ⟨step, hstep, inputs, left, hadvances, _⟩ := hdropped.child
  obtain ⟨step', hstep', inputs', hruns⟩ := hdropped.failure
  have hid : t.emitter.taskId = id := by rw [ht]; rfl
  refine ⟨concurrent_of_several hgroup hdropped.several,
    ⟨step, hstep, inputs, _, _, left, hadvances, h.part c hc, event, hevent, hid ▸ hbegins⟩,
    ⟨step', hstep', inputs', _, _, hruns, h.part failed hfailed, fun event' hevent' hbegins' => ?_⟩⟩
  -- it would begin in two courses
  obtain ⟨hmem', _⟩ := h.begun ht hfresh hfailed hevent' (hid ▸ hbegins')
  obtain ⟨before, after, rfl⟩ := List.append_of_mem hc
  have hother := (List.mem_cons.mp (List.perm_middle.mem_iff.mp hfailed)).resolve_left
    hdropped.other
  exact h.not_minted (List.nodup_cons.mp hfresh).2 hmem hother hmem'

end Tasks

end Pipeline

/-- Every child that a pipeline begins ends exactly once, before the pipeline does, whatever the
turns are; unless another step of its group fails before the child comes to its end. -/
theorem Overlap.child_ends_once {overlap : Overlap} {e : Engine} {depth : Nat}
    {identity : Identity} {d : Definition} {options : RunOptions} {id : TaskId} {t : TaskContext}
    {spec : PipelineSpec} {inputs : Json} {log : List Exchange} {es : List Event}
    {res : Except Error Json}
    (ht : t = e.taskContextWith overlap.process depth identity d options id)
    (hkind : d.kind = .pipeline spec)
    (h : Runs (t.performWith (overlap.process t) inputs).run log es res)
    (hfresh : (id :: mintedIds log).Nodup) :
    ∃ r : TaskRun, r.context = t ∧ es = r.block r.events ∧
      ∀ child, (∃ event ∈ r.events, event.BeginsChild id child) →
        r.events.countP (Event.closes child) = 1 ∨
        (r.events.countP (Event.closes child) = 0 ∧
          ∃ group ∈ Pipeline.groups spec.steps, ∃ failure, res = .error failure ∧
            Pipeline.LeftOpen t group r.events child failure) := by
  have hmuted : t.emitter.muted = false := by rw [ht]; rfl
  have hdefinition : t.definition = d := by rw [ht]; rfl
  obtain ⟨r, before, hcontext, rfl, hran, _, rfl, hes, rfl⟩ := runs_performWith hmuted h
  refine ⟨r, hcontext, hes, ?_⟩
  obtain ⟨courses, hchildren⟩ := Pipeline.runs_process (hdefinition ▸ hkind) hran
  have hfresh : (id :: mintedIds r.log).Nodup := by
    refine hfresh.sublist (List.Sublist.cons_cons id (List.Sublist.filterMap _ ?_))
    exact ((List.sublist_append_left _ _).cons _).trans (List.sublist_append_right _ _)
  rintro child ⟨event, hevent, hbegins⟩
  obtain ⟨c, hc, hevent⟩ := List.mem_flatMap.mp (hchildren.reported.mem_iff.mp hevent)
  obtain ⟨hmem, hle, hwhole⟩ := hchildren.begun ht hfresh hc hevent hbegins
  rw [hchildren.countP_closes (fun c hc => hchildren.nested ht hc) hc hmem
    (List.nodup_cons.mp hfresh).2]
  rcases hchildren.ended c hc with
    hfinished | ⟨group, hgroup, failed, hfailed, failure, hresult, hdropped⟩
  · exact .inl (hwhole hfinished)
  rcases Nat.le_one_iff_eq_zero_or_eq_one.mp hle with hzero | hone
  · exact .inr ⟨hzero, group, hgroup, failure, by rw [TaskRun.outcome, hresult]; rfl,
      hchildren.leftOpen ht hfresh hgroup hc hfailed hevent hbegins hdropped⟩
  · exact .inl hone

/-! ## A group that fails -/

/-- An engine without agents of its own, with a model for text and none for images. -/
def newsroom : Engine := { project := { id := "newsroom" }, model := some {} }

def writer : Definition :=
  { id := "writer", name := "Writer", kind := .modelPrompt { messages := [] } }

def illustrator : Definition :=
  { id := "illustrator", name := "Illustrator", kind := .imageGeneration { prompt := "a tree" } }

def page : Definition :=
  { id := "page", name := "Page"
    kind := .pipeline { steps := [{ name := "text", agent := "writer", concurrent := true },
      { name := "picture", agent := "illustrator", concurrent := true }] } }

/-- The first step starts, and then the second goes on to its end. -/
def secondFirst : Overlap where
  turns _ _ _ := [⟨0, fun
    | .report (.execute _ _ _ _ .start _) => true
    | _ => false⟩, ⟨1, fun _ => false⟩]

/-- The illustrator fails while the writer is at work: the page ends, and the writer never does. -/
theorem Overlap.writer_left_open : ∃ log es failure,
    Runs (newsroom.executeWith secondFirst.process 2 "newsroom" "page" .null {}).run log es
      (.error failure) ∧ mintedIds log = ["a", "b", "c"] ∧
    (∃ event ∈ es, event.BeginsChild "a" "b") ∧
    es.countP (Event.closes "a") = 1 ∧ es.countP (Event.closes "b") = 0 := by
  have hnone (agentId : String) : newsroom.project.agent? agentId = none := rfl
  simp only [Engine.executeWith, Engine.runWith, Engine.resolve_eq_query, hnone, implies_true]
  refine ⟨_, _, _, .answered ⟨.agent _, .ok (some page)⟩ <| .answered ⟨.recall _, none⟩ <|
    .answered ⟨.newTask, "a"⟩ <| .report _ <| .answered ⟨.clock, ⟨0, 0⟩⟩ <| .report _ <|
    .answered ⟨.agent _, .ok (some writer)⟩ <| .answered ⟨.recall _, none⟩ <|
    .answered ⟨.newTask, "b"⟩ <| .answered ⟨.memory _, .ok []⟩ <| .report _ <|
    .answered ⟨.clock, ⟨0, 0⟩⟩ <| .report _ <|
    .answered ⟨.agent _, .ok (some illustrator)⟩ <| .answered ⟨.recall _, none⟩ <|
    .answered ⟨.newTask, "c"⟩ <| .report _ <| .answered ⟨.clock, ⟨0, 0⟩⟩ <| .report _ <|
    .answered ⟨.clock, ⟨0, 0⟩⟩ <| .report _ <| .answered ⟨.clock, ⟨0, 0⟩⟩ <| .report _ <|
    .answered ⟨.clock, ⟨0, 0⟩⟩ <| .report _ <| .done _, rfl,
    ⟨_, .tail _ <| .tail _ <| .head _, rfl, rfl⟩, ?_, ?_⟩
  · rfl
  · rfl

def pageTask : TaskContext :=
  newsroom.taskContextWith secondFirst.process 1 (Engine.referent "newsroom" "page") page {} "a"

/-- The writer and the illustrator begin side by side, and each of them ends once or not at all. -/
theorem Overlap.child_ends_once_page : ∃ log es failure,
    Runs (pageTask.performWith (secondFirst.process pageTask) .null).run log es (.error failure) ∧
    (∃ event ∈ es, event.BeginsChild "a" "b") ∧ (∃ event ∈ es, event.BeginsChild "a" "c") ∧
    ∃ r : TaskRun, r.context = pageTask ∧ es = r.block r.events ∧
      ∀ child, (∃ event ∈ r.events, event.BeginsChild "a" child) →
        r.events.countP (Event.closes child) = 1 ∨ r.events.countP (Event.closes child) = 0 := by
  have hnone (agentId : String) : newsroom.project.agent? agentId = none := rfl
  have hruns : ∃ log es failure,
      Runs (pageTask.performWith (secondFirst.process pageTask) .null).run log es
        (.error failure) ∧ mintedIds log = ["b", "c"] ∧
      (∃ event ∈ es, event.BeginsChild "a" "b") ∧ (∃ event ∈ es, event.BeginsChild "a" "c") := by
    delta pageTask Engine.taskContextWith Engine.childRunWith
    simp only [Engine.runWith, Engine.resolve_eq_query, hnone, implies_true]
    exact ⟨_, _, _, .report _ <| .answered ⟨.clock, ⟨0, 0⟩⟩ <| .report _ <|
      .answered ⟨.agent _, .ok (some writer)⟩ <| .answered ⟨.recall _, none⟩ <|
      .answered ⟨.newTask, "b"⟩ <| .answered ⟨.memory _, .ok []⟩ <| .report _ <|
      .answered ⟨.clock, ⟨0, 0⟩⟩ <| .report _ <|
      .answered ⟨.agent _, .ok (some illustrator)⟩ <| .answered ⟨.recall _, none⟩ <|
      .answered ⟨.newTask, "c"⟩ <| .report _ <| .answered ⟨.clock, ⟨0, 0⟩⟩ <| .report _ <|
      .answered ⟨.clock, ⟨0, 0⟩⟩ <| .report _ <| .answered ⟨.clock, ⟨0, 0⟩⟩ <| .report _ <|
      .done _, rfl, ⟨_, .tail _ <| .tail _ <| .head _, rfl, rfl⟩,
      ⟨_, .tail _ <| .tail _ <| .tail _ <| .tail _ <| .head _, rfl, rfl⟩⟩
  obtain ⟨log, es, failure, hrun, hids, hwriter, hillustrator⟩ := hruns
  have hfresh : ("a" :: mintedIds log).Nodup := by
    rw [hids]
    decide
  obtain ⟨r, hcontext, hes, hends⟩ := Overlap.child_ends_once rfl rfl hrun hfresh
  exact ⟨log, es, failure, hrun, hwriter, hillustrator, r, hcontext, hes, fun child hchild =>
    (hends child hchild).imp_right And.left⟩

end Agents
