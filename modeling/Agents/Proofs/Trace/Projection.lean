import Agents.Proofs.Trace.Tables

/-! # The tree as a projection of the events

A reducer takes events one at a time, and may be cancelled at any point. Whatever it takes, the tree
shows the events up to the first ERROR or cancelling and nothing else: every piece of output stands
in one place of the answer or of a trace, in the order it came, and again in the sub-message of its
task unless the task keeps silent.

`stepAll_projects` is the whole statement. It rests on one lemma per view of the tree, and on
`stepAll_eq`, which cuts the events off where the tree freezes.
-/

namespace Agents

/-! ## Output in a row -/

namespace OutputBuffer

def ofDeltas (deltas : List ChunkDelta) : OutputBuffer where
  content := String.join (deltas.filterMap ChunkDelta.content)
  objects := deltas.filterMap ChunkDelta.object
  images := (deltas.filterMap ChunkDelta.images).flatten

theorem ofDeltas_append (deltas : List ChunkDelta) (d : ChunkDelta) :
    ofDeltas (deltas ++ [d]) = (ofDeltas deltas).append d := by
  obtain ⟨content, object, images⟩ := d
  unfold ofDeltas append
  rw [OutputBuffer.mk.injEq]
  refine ⟨?_, ?_, ?_⟩
  · cases content <;> simp [String.join_append]
  · cases object <;> simp
  · cases images <;> simp

theorem ofDeltas_append_toList (deltas : List ChunkDelta) (d : Option ChunkDelta) :
    ofDeltas (deltas ++ d.toList) = d.elim (ofDeltas deltas) (ofDeltas deltas).append := by
  cases d with
  | none => rw [Option.toList_none, List.append_nil, Option.elim_none]
  | some d => exact ofDeltas_append deltas d

end OutputBuffer

namespace Event

def ofTask (id : TaskId) (es : List Event) : List Event := es.filter fun e => e.taskId? = some id

def deltasOf (id : TaskId) (es : List Event) : List ChunkDelta := (ofTask id es).filterMap delta?

/-- The output of a task that does not keep silent. -/
def saidOf (id : TaskId) (es : List Event) : List ChunkDelta :=
  (es.filter fun e => e.Says id).filterMap delta?

def logsOf (id : TaskId) (es : List Event) : List LogEntry := (ofTask id es).filterMap logged?

def lastParameter? (es : List Event) : Option String := (es.filterMap parameter?).getLast?

end Event

/-! ## Views of a tree -/

open Event in
/-- The tree shows these events: each view of it is made of the events of one kind. -/
structure TaskTree.Projects (es : List Event) (t : TaskTree) : Prop where
  main : t.mainTaskId = mainTask? es
  answer : t.answer = .ofDeltas ((mainTask? es).elim [] fun main => deltasOf main es)
  userContent : t.userContent = (lastParameter? es).getD ""
  traceIds : (t.traces.map Trace.taskId).Nodup
  /-- Which tasks have a trace: those with an event, or for the main task one that is no output. -/
  traced : ∀ id, id ∈ t.traces.map Trace.taskId ↔ ∃ e ∈ es, e.IsTraced (mainTask? es) id
  outputs : ∀ trace ∈ t.traces, trace.output =
    if mainTask? es = some trace.taskId then {} else .ofDeltas (deltasOf trace.taskId es)
  logs : ∀ trace ∈ t.traces, trace.logs = logsOf trace.taskId es
  subMessageIds : (t.subMessages.map SubMessage.taskId).Nodup
  /-- Which tasks have a sub-message: those other than the main one that said something. -/
  voiced : ∀ id, id ∈ t.subMessages.map SubMessage.taskId ↔
    mainTask? es ≠ some id ∧ ∃ e ∈ es, e.Says id
  said : ∀ s ∈ t.subMessages, s.output = .ofDeltas (saidOf s.taskId es)

namespace Event

theorem delta?_of_mainTask?_eq_none {es : List Event} (h : mainTask? es = none) {e : Event}
    (he : e ∈ es) : e.delta? = none := by
  have hsilent : e.speaker? = none := List.findSome?_eq_none_iff.mp h e he
  cases e with
  | chunk => cases hsilent
  | _ => rfl

theorem deltasOf_of_mainTask?_eq_none {es : List Event} (h : mainTask? es = none) (id : TaskId) :
    deltasOf id es = [] := by
  rw [deltasOf, List.filterMap_eq_nil_iff]
  intro e he
  exact delta?_of_mainTask?_eq_none h (List.mem_of_mem_filter he)

theorem deltasOf_append (id : TaskId) (es : List Event) (e : Event) : deltasOf id (es ++ [e]) =
    deltasOf id es ++ if e.taskId? = some id then e.delta?.toList else [] := by
  unfold deltasOf ofTask
  rw [List.filter_append, List.filterMap_append]
  congr 1
  by_cases he : e.taskId? = some id
  · cases hdelta : e.delta? <;> simp [he, hdelta]
  · simp [he]

/-- An event adds its output to that of the main task, if it is one of the main task. -/
theorem mainDeltas_append (es : List Event) (e : Event) :
    ((mainTask? (es ++ [e])).elim [] fun main => deltasOf main (es ++ [e])) =
      ((mainTask? es).elim [] fun main => deltasOf main es) ++
        (if mainTask? (es ++ [e]) = e.taskId? then e.delta? else none).toList := by
  rw [mainTask?_append]
  cases hmain : mainTask? es with
  | some main =>
    rw [Option.some_or, Option.elim_some, Option.elim_some, deltasOf_append]
    by_cases he : e.taskId? = some main
    · rw [if_pos he, if_pos he.symm]
    · rw [if_neg he, if_neg (Ne.symm he), Option.toList_none]
  | none =>
    -- if this is the first piece of output, its task becomes the main one
    rw [Option.none_or, Option.elim_none, List.nil_append]
    cases e with
    | chunk id =>
      show deltasOf id (es ++ [_]) = _
      rw [deltasOf_append, deltasOf_of_mainTask?_eq_none hmain]
      simp [speaker?, taskId?]
    | _ =>
      show [] = Option.toList (if none = _ then none else none)
      rw [ite_self, Option.toList_none]

theorem deltas_traced (id : TaskId) (es : List Event) : (traced id es).filterMap delta? =
    if mainTask? es = some id then [] else deltasOf id es := by
  by_cases hmain : mainTask? es = some id
  · rw [if_pos hmain, List.filterMap_eq_nil_iff]
    intro e he
    have htraced : e.IsTraced (mainTask? es) id := by simpa using List.of_mem_filter he
    obtain ⟨hid, hother⟩ := htraced
    cases e with
    | chunk => exact absurd ⟨hid, hmain⟩ hother
    | _ => rfl
  · rw [if_neg hmain, deltasOf, traced, ofTask]
    congr 1
    refine List.filter_congr fun e _ => ?_
    simp [IsTraced, hmain]

theorem logs_traced (id : TaskId) (es : List Event) :
    (traced id es).filterMap logged? = logsOf id es := by
  rw [logsOf, traced, ofTask, List.filterMap_filter, List.filterMap_filter]
  refine List.filterMap_congr fun e _ => ?_
  cases e with
  | log => simp [IsTraced, speaker?]
  | _ => simp [logged?]

theorem deltas_voiced {id : TaskId} {es : List Event} (hmain : mainTask? es ≠ some id) :
    (voiced id es).filterMap delta? = saidOf id es := by
  rw [saidOf, voiced]
  congr 1
  refine List.filter_congr fun e _ => ?_
  simp [IsVoiced, hmain]

end Event

/-- What every event adds its output to, holds the output of all of them. -/
theorem output_of_entryOf {γ : Type} {fresh : Event → γ} {change : γ → Event → γ}
    (output : γ → OutputBuffer) (hfresh : ∀ e, output (fresh e) = {})
    (hchange : ∀ entry e, output (change entry e) =
      e.delta?.elim (output entry) (output entry).append)
    {es : List Event} {entry : γ} (h : entryOf fresh change es = some entry) :
    output entry = .ofDeltas (es.filterMap Event.delta?) := by
  refine view_of_entryOf output (fun es => .ofDeltas (es.filterMap Event.delta?)) hfresh ?_ h
  intro entry e es hview
  rw [hchange, hview, ← OutputBuffer.ofDeltas_append_toList, List.filterMap_append]
  cases hdelta : e.delta? <;> simp [hdelta]

theorem Trace.output_touch (trace : Trace) (e : Event) :
    (trace.touch e).output = e.delta?.elim trace.output trace.output.append := by
  cases e with
  | execute _ _ _ _ phase => cases phase <;> rfl
  | _ => rfl

theorem Trace.logs_touch (trace : Trace) (e : Event) :
    (trace.touch e).logs = trace.logs ++ e.logged?.toList := by
  cases e with
  | log => rfl
  | execute _ _ _ _ phase => cases phase <;> exact (List.append_nil _).symm
  | _ => exact (List.append_nil _).symm

theorem SubMessage.output_hear (s : SubMessage) (e : Event) :
    (s.hear e).output = e.delta?.elim s.output s.output.append := by
  cases e <;> rfl

namespace TaskTree

section New

variable (userId assistantId : String)

theorem answer_applyAll (es : List Event) : ((new userId assistantId).applyAll es).answer =
    .ofDeltas ((Event.mainTask? es).elim [] fun main => Event.deltasOf main es) := by
  induction es using List.reverseRecOn with
  | nil => rfl
  | append_singleton es e ih =>
    rw [applyAll_append, apply_eq]
    dsimp only
    rw [mainTaskId_applyAll, ih, ← Event.mainTask?_append, Event.mainDeltas_append,
      OutputBuffer.ofDeltas_append_toList]
    split <;> rfl

theorem userContent_applyAll (es : List Event) :
    ((new userId assistantId).applyAll es).userContent = (Event.lastParameter? es).getD "" := by
  induction es using List.reverseRecOn with
  | nil => rfl
  | append_singleton es e ih =>
    rw [applyAll_append, apply_eq]
    dsimp only
    rw [ih]
    unfold Event.lastParameter?
    rw [List.filterMap_append]
    cases h : e.parameter? with
    | none => simp [h]
    | some content => simp [h]

/-- A trace holds the output of its task, unless that is the main one. -/
theorem output_applyAll {es : List Event} {id : TaskId} {trace : Trace}
    (h : ((new userId assistantId).applyAll es).trace? id = some trace) : trace.output =
      .ofDeltas (if Event.mainTask? es = some id then [] else Event.deltasOf id es) := by
  obtain ⟨deep, hentry⟩ := trace?_applyAll userId assistantId es id
  rw [← Event.deltas_traced]
  exact output_of_entryOf Trace.output (fun _ => rfl) Trace.output_touch (hentry.symm.trans h)

theorem logs_applyAll {es : List Event} {id : TaskId} {trace : Trace}
    (h : ((new userId assistantId).applyAll es).trace? id = some trace) :
    trace.logs = Event.logsOf id es := by
  obtain ⟨deep, hentry⟩ := trace?_applyAll userId assistantId es id
  rw [← Event.logs_traced]
  refine view_of_entryOf Trace.logs (fun es => es.filterMap Event.logged?) (fun _ => rfl) ?_
    (hentry.symm.trans h)
  intro entry e es hview
  rw [Trace.logs_touch, hview, List.filterMap_append]
  cases hlogged : e.logged? <;> simp [hlogged]

theorem said_applyAll {es : List Event} {id : TaskId} {s : SubMessage}
    (h : ((new userId assistantId).applyAll es).subMessage? id = some s) :
    s.output = .ofDeltas (Event.saidOf id es) := by
  rw [subMessage?_applyAll] at h
  have hmain : Event.mainTask? es ≠ some id := by
    intro hmain
    have hnil : Event.voiced id es = [] := by simp [Event.voiced, Event.IsVoiced, hmain]
    rw [hnil] at h
    cases h
  rw [← Event.deltas_voiced hmain]
  exact output_of_entryOf SubMessage.output (fun _ => rfl) SubMessage.output_hear h

/-- A task has a trace if an event changes it. -/
theorem mem_traces_applyAll (es : List Event) (id : TaskId) :
    id ∈ ((new userId assistantId).applyAll es).traces.map Trace.taskId ↔
      ∃ e ∈ es, e.IsTraced (Event.mainTask? es) id := by
  obtain ⟨deep, hentry⟩ := trace?_applyAll userId assistantId es id
  rw [mem_map_key_iff, ← trace?, hentry, entryOf_isSome, Event.traced]
  simp

theorem mem_subMessages_applyAll (es : List Event) (id : TaskId) :
    id ∈ ((new userId assistantId).applyAll es).subMessages.map SubMessage.taskId ↔
      Event.mainTask? es ≠ some id ∧ ∃ e ∈ es, e.Says id := by
  rw [mem_map_key_iff, ← subMessage?, subMessage?_applyAll, entryOf_isSome, Event.voiced]
  simp only [ne_eq, List.filter_eq_nil_iff, decide_eq_true_eq, not_forall, not_not]
  constructor
  · rintro ⟨e, he, hsays, hmain⟩
    exact ⟨hmain, e, he, hsays⟩
  · rintro ⟨hmain, e, he, hsays⟩
    exact ⟨e, he, hsays, hmain⟩

/-- Events that are applied one after the other, whether there is an ERROR among them or not, are
what the tree shows. -/
theorem projects_applyAll (es : List Event) :
    Projects es ((new userId assistantId).applyAll es) where
  main := mainTaskId_applyAll userId assistantId es
  answer := answer_applyAll userId assistantId es
  userContent := userContent_applyAll userId assistantId es
  traceIds := (keyed_applyAll userId assistantId es).traces
  traced := mem_traces_applyAll userId assistantId es
  outputs trace htrace := by
    have hfound := (mem_iff_find?_key (keyed_applyAll userId assistantId es).traces).mp htrace
    rw [output_applyAll userId assistantId hfound]
    split <;> rfl
  logs trace htrace :=
    logs_applyAll userId assistantId
      ((mem_iff_find?_key (keyed_applyAll userId assistantId es).traces).mp htrace)
  subMessageIds := (keyed_applyAll userId assistantId es).subMessages
  voiced := mem_subMessages_applyAll userId assistantId es
  said s hs :=
    said_applyAll userId assistantId
      ((mem_iff_find?_key (keyed_applyAll userId assistantId es).subMessages).mp hs)

end New

/-! ## Freezing -/

inductive Step where
  | event (e : Event)
  | cancel

namespace Step

def event? : Step → Option Event
  | event e => some e
  | cancel => none

/-- The tree takes no event after this step. -/
def freezes : Step → Bool
  | event e => e.error?.isSome
  | cancel => true

/-- The events before the first ERROR or cancelling. -/
def live (steps : List Step) : List Event :=
  (steps.takeWhile fun s => !s.freezes).filterMap event?

end Step

def step (t : TaskTree) : Step → TaskTree
  | .event e => t.reduce e
  | .cancel => t.cancel

def stepAll (t : TaskTree) (steps : List Step) : TaskTree := steps.foldl step t

variable {t : TaskTree}

theorem stepAll_append (t : TaskTree) (before after : List Step) :
    t.stepAll (before ++ after) = (t.stepAll before).stepAll after := List.foldl_append

theorem isFrozen_step_of_isFrozen (h : t.isFrozen = true) (s : Step) :
    (t.step s).isFrozen = true := by
  cases s with
  | event e =>
    show (t.reduce e).isFrozen = true
    rw [reduce_of_isFrozen h]
    exact h
  | cancel => rfl

theorem isFrozen_step_of_freezes (t : TaskTree) {s : Step} (hs : s.freezes = true) :
    (t.step s).isFrozen = true := by
  cases s with
  | cancel => rfl
  | event e =>
    by_cases h : t.isFrozen = true
    · exact isFrozen_step_of_isFrozen h _
    · cases e with
      | error report =>
        show (t.reduce (.error report)).isFrozen = true
        rw [reduce, if_neg h]
        exact Bool.or_true _
      | _ => cases hs

/-- Of what comes after the tree froze, only the cancels count. -/
theorem stepAll_of_isFrozen (h : t.isFrozen = true) (steps : List Step) :
    t.stepAll steps = t.stepAll (steps.filter fun s => s.event?.isNone) := by
  induction steps generalizing t with
  | nil => rfl
  | cons s rest ih =>
    cases s with
    | event e =>
      show (t.reduce e).stepAll rest = _
      rw [reduce_of_isFrozen h]
      exact ih h
    | cancel => exact ih (isFrozen_step_of_isFrozen h .cancel)

theorem isFrozen_stepAll {before : List Step} (hbefore : before.any Step.freezes = true)
    (t : TaskTree) : (t.stepAll before).isFrozen = true := by
  induction before using List.reverseRecOn with
  | nil => cases hbefore
  | append_singleton before s ih =>
    rw [stepAll_append]
    show ((t.stepAll before).step s).isFrozen = true
    rw [List.any_append, Bool.or_eq_true] at hbefore
    rcases hbefore with hbefore | hs
    · exact isFrozen_step_of_isFrozen (ih hbefore) s
    · exact isFrozen_step_of_freezes _ (by simpa using hs)

/-- A frozen tree stays as it is, whether it is cancelled again or not. -/
theorem exists_stepAll_of_isFrozen (h : t.isFrozen = true) (steps : List Step) :
    ∃ cancelled, t.stepAll steps = { t with cancelled } := by
  induction steps generalizing t with
  | nil => exact ⟨t.cancelled, rfl⟩
  | cons s rest ih =>
    obtain ⟨cancelled, hrest⟩ := ih (isFrozen_step_of_isFrozen h s)
    refine ⟨cancelled, hrest.trans ?_⟩
    cases s with
    | event e =>
      show { t.reduce e with cancelled } = { t with cancelled }
      rw [reduce_of_isFrozen h]
    | cancel => rfl

/-- What a reducer takes comes down to the events before the tree froze. -/
theorem exists_stepAll (h : t.isFrozen = false) (steps : List Step) :
    ∃ error cancelled, t.stepAll steps =
      { t.applyAll (Step.live steps) with error, cancelled } := by
  induction steps generalizing t with
  | nil => exact ⟨t.error, t.cancelled, rfl⟩
  | cons s rest ih =>
    by_cases hs : s.freezes = true
    -- the step freezes the tree, so that no event counts from here on
    · have hlive : Step.live (s :: rest) = [] := by simp [Step.live, hs]
      obtain ⟨cancelled, hrest⟩ := exists_stepAll_of_isFrozen (isFrozen_step_of_freezes t hs) rest
      refine ⟨(t.step s).error, cancelled, ?_⟩
      rw [hlive]
      refine hrest.trans ?_
      cases s with
      | cancel => rfl
      | event e =>
        cases e with
        | error report =>
          have hstep : t.step (.event (.error report)) = t.apply (.error report) :=
            if_neg (by simp [h])
          rw [hstep]
          rfl
        | _ => cases hs
    · cases s with
      | cancel => exact absurd rfl hs
      | event e =>
        have herror : e.error? = none := by simpa [Step.freezes] using hs
        have hlive : Step.live (.event e :: rest) = e :: Step.live rest := by
          simp [Step.live, hs, Step.event?]
        have hstep : t.step (.event e) = t.apply e := if_neg (by simp [h])
        have hframe : (t.apply e).isFrozen = false := by
          rw [apply_eq, herror]
          exact h
        obtain ⟨error, cancelled, hrest⟩ := ih hframe
        refine ⟨error, cancelled, ?_⟩
        show (t.step (.event e)).stepAll rest = _
        rw [hlive, hstep, hrest]
        rfl

/-- The tree of a reducer shows the events before the first ERROR or cancelling, and what comes
after that changes nothing. -/
theorem stepAll_projects (userId assistantId : String) (steps : List Step) :
    Projects (Step.live steps) ((new userId assistantId).stepAll steps) ∧
      ∀ before after, steps = before ++ after → before.any Step.freezes = true →
        (new userId assistantId).stepAll steps =
          (new userId assistantId).stepAll (before ++ after.filter fun s => s.event?.isNone) := by
  constructor
  · obtain ⟨error, cancelled, hsteps⟩ := exists_stepAll (t := new userId assistantId) rfl steps
    have h := projects_applyAll userId assistantId (Step.live steps)
    rw [hsteps]
    exact ⟨h.main, h.answer, h.userContent, h.traceIds, h.traced, h.outputs, h.logs,
      h.subMessageIds, h.voiced, h.said⟩
  · rintro before after rfl hbefore
    rw [stepAll_append, stepAll_append]
    exact stepAll_of_isFrozen (isFrozen_stepAll hbefore _) after

end TaskTree

end Agents
