import Agents.Proofs.Run.Work

/-! # The course of a run

A run of an agent either ends before any task began, because the agent cannot be had, its inputs
are refused or its outputs are known, or it is the run of one task. `run_cases` tells these apart
and says what is asked, reported and returned in each of them; it is the only place that looks
into the engine's recursion.

A `TaskRun` is one task as it went: its context, what its work exchanged and reported, and its
result. Whether the task ends by stopping is decided by its work (`TaskRun.phase_eq_stop_iff`).
-/

namespace Agents

open Activity

/-! ## Tasks -/

/-- One task as it went. -/
structure TaskRun where
  context : TaskContext
  inputs : Json
  /-- The prompt on the task's INPUT. -/
  shown : Option (List ChatMessage)
  started : Timestamp
  ended : Timestamp
  /-- What the task's work exchanged. -/
  log : List Exchange
  /-- What the task's work reported, as the task itself reported it. -/
  events : List Event
  result : Except Error TaskResult

namespace TaskRun

def id (r : TaskRun) : TaskId := r.context.emitter.taskId

def parent (r : TaskRun) : Option TaskId := r.context.emitter.parentTaskId

/-- The work of the task, done in this way, went as recorded. -/
def RanAs (work : TaskContext → Json → Fallible TaskResult) (r : TaskRun) : Prop :=
  Runs (work r.context r.inputs).run r.log r.events r.result

/-- The work of the task went as recorded, one thing after the other. -/
abbrev Ran (r : TaskRun) : Prop := r.RanAs TaskContext.process

/-- What the task gives to whoever ran it. -/
def outcome (r : TaskRun) : Except Error Json := r.result.map TaskResult.outputs

def phase (r : TaskRun) : ExecutePhase :=
  match r.result with
  | .ok result => result.phase
  | .error _ => .finish

def inputEvent (r : TaskRun) : Event :=
  .input r.id r.parent r.context.emitter.assistantId r.context.emitter.assistantName
    (redact r.context.definition r.inputs) r.shown

def phaseEvent (r : TaskRun) (phase : ExecutePhase) (now : Timestamp) : Event :=
  .execute r.id r.parent r.context.emitter.assistantId (some r.context.emitter.assistantName)
    phase (some now)

def startEvent (r : TaskRun) : Event := r.phaseEvent .start r.started

def endEvent (r : TaskRun) : Event := r.phaseEvent r.phase r.ended

@[simp] theorem taskId?_inputEvent (r : TaskRun) : r.inputEvent.taskId? = some r.id := rfl

@[simp] theorem taskId?_startEvent (r : TaskRun) : r.startEvent.taskId? = some r.id := rfl

@[simp] theorem taskId?_endEvent (r : TaskRun) : r.endEvent.taskId? = some r.id := rfl

/-- The events of the task around some others. -/
def block (r : TaskRun) (inner : List Event) : List Event :=
  r.inputEvent :: r.startEvent :: (inner ++ [r.endEvent])

def key (r : TaskRun) : String := fingerprint r.context.identity r.inputs

/-- What the task leaves in the cache. -/
def entry? (r : TaskRun) : Option (String × Json) :=
  match r.result with
  | .ok result => some (r.key, result.outputs)
  | .error _ => none

def remembering (r : TaskRun) : List Exchange :=
  r.entry?.toList.map fun (key, outputs) => ⟨.remember key outputs, ()⟩

theorem remembering_of_ok (r : TaskRun) {outputs : Json} (h : r.outcome = .ok outputs) :
    r.remembering = [⟨.remember r.key outputs, ()⟩] := by
  unfold outcome at h
  unfold remembering entry?
  cases hresult : r.result with
  | ok result =>
    rw [hresult] at h
    cases h
    rfl
  | error e =>
    rw [hresult] at h
    cases h

theorem remembering_of_error (r : TaskRun) {e : Error} (h : r.outcome = .error e) :
    r.remembering = [] := by
  unfold outcome at h
  unfold remembering entry?
  cases hresult : r.result with
  | ok result =>
    rw [hresult] at h
    cases h
  | error e' => rfl

end TaskRun

/-! ## Performing a task -/

/-- Queries of a task's own, and no events. -/
def Quiet (log : List Exchange) (es : List Event) : Prop := (∀ x ∈ log, x.query.IsOwn) ∧ es = []

theorem Quiet.composable : Composable Quiet where
  nil := ⟨by simp, rfl⟩
  append := by
    rintro log₁ log₂ _ _ ⟨h₁, rfl⟩ ⟨h₂, rfl⟩
    exact ⟨fun x hx => (List.mem_append.mp hx).elim (h₁ x) (h₂ x), rfl⟩

theorem quiet_query {q : Query} (hq : q.IsOwn) : Within Quiet (query q) := by
  intro log es r h
  obtain ⟨rfl, rfl⟩ := runs_query.mp h
  exact ⟨fun x hx => by rw [List.mem_singleton.mp hx]; exact hq, rfl⟩

theorem prompt_quiet (t : TaskContext) (inputs : Json) : Within Quiet (t.prompt inputs).run := by
  have hL := Quiet.composable
  have hmemory : Within Quiet t.memory.run :=
    hL.within.mapOk _ (quiet_query (q := .memory t.identity) trivial)
  unfold TaskContext.prompt
  split
  · exact hL.within.mapOk _ (hL.within.andThen hmemory fun _ => hL.within.ok _)
  all_goals exact hL.within.ok _

theorem runs_reportPhase {t : TaskContext} (hmuted : t.emitter.muted = false)
    {phase : ExecutePhase} {log : List Exchange} {es : List Event} {r : Unit}
    (h : Runs (t.reportPhase phase) log es r) : ∃ now, log = [⟨.clock, now⟩] ∧
      es = [.execute t.emitter.taskId t.emitter.parentTaskId t.emitter.assistantId
        (some t.emitter.assistantName) phase (some now)] := by
  obtain ⟨log₁, es₁, now, log₂, es₂, rfl, rfl, hnow, hreport⟩ := runs_bind.mp h
  obtain ⟨rfl, rfl⟩ := runs_query (q := .clock).mp hnow
  obtain ⟨rfl, rfl⟩ := runs_reportAll.mp hreport
  exact ⟨now, rfl, TaskEmitter.emit_of_not_muted hmuted _⟩

/-- A task that is performed reports its INPUT, its start, what its work reports, and its end. -/
theorem runs_performWith {t : TaskContext} (hmuted : t.emitter.muted = false)
    {work : Json → Fallible TaskResult} {inputs : Json} {log : List Exchange} {es : List Event}
    {res : Except Error Json} (h : Runs (t.performWith work inputs).run log es res) :
    ∃ (r : TaskRun) (before : List Exchange), r.context = t ∧ r.inputs = inputs ∧
      Runs (work inputs).run r.log r.events r.result ∧ (∀ x ∈ before, x.query.IsOwn) ∧
      log = before ++ ⟨.clock, r.started⟩ :: (r.log ++ [⟨.clock, r.ended⟩]) ∧
      es = r.block r.events ∧ res = r.outcome := by
  obtain ⟨before, es₁, shown, log₁, es₂, rfl, rfl, hshown, h₁⟩ := runs_liftThen.mp h
  obtain ⟨hown, rfl⟩ := prompt_quiet t inputs hshown
  obtain ⟨log₂, es₃, _, log₃, es₄, rfl, rfl, hinput, h₂⟩ := runs_liftThen.mp h₁
  obtain ⟨rfl, rfl⟩ := runs_reportAll.mp hinput
  obtain ⟨log₄, es₅, _, log₅, es₆, rfl, rfl, hstart, h₃⟩ := runs_liftThen.mp h₂
  obtain ⟨started, rfl, rfl⟩ := runs_reportPhase hmuted hstart
  obtain ⟨log₆, es₇, result, log₇, es₈, rfl, rfl, hwork, h₄⟩ := runs_liftThen.mp h₃
  cases result with
  | ok result =>
    obtain ⟨log₈, es₉, _, log₉, es₀, rfl, rfl, hend, hret⟩ := runs_liftThen.mp h₄
    obtain ⟨ended, rfl, rfl⟩ := runs_reportPhase hmuted hend
    obtain ⟨rfl, rfl, rfl⟩ := runs_ok.mp hret
    refine ⟨⟨t, inputs, shown.toOption.join, started, ended, log₆, es₇, .ok result⟩, before,
      rfl, rfl, hwork, hown, rfl, ?_, rfl⟩
    rw [TaskEmitter.input, TaskEmitter.emit_of_not_muted hmuted]
    rfl
  | error e =>
    obtain ⟨log₈, es₉, _, log₉, es₀, rfl, rfl, hend, hret⟩ := runs_liftThen.mp h₄
    obtain ⟨ended, rfl, rfl⟩ := runs_reportPhase hmuted hend
    obtain ⟨rfl, rfl, rfl⟩ := runs_throw.mp hret
    refine ⟨⟨t, inputs, shown.toOption.join, started, ended, log₆, es₇, .error e⟩, before,
      rfl, rfl, hwork, hown, rfl, ?_, rfl⟩
    rw [TaskEmitter.input, TaskEmitter.emit_of_not_muted hmuted]
    rfl

theorem runs_perform {t : TaskContext} (hmuted : t.emitter.muted = false) {inputs : Json}
    {log : List Exchange} {es : List Event} {res : Except Error Json}
    (h : Runs (t.perform inputs).run log es res) : ∃ (r : TaskRun) (before : List Exchange),
      r.context = t ∧ r.inputs = inputs ∧ r.Ran ∧ (∀ x ∈ before, x.query.IsOwn) ∧
      log = before ++ ⟨.clock, r.started⟩ :: (r.log ++ [⟨.clock, r.ended⟩]) ∧
      es = r.block r.events ∧ res = r.outcome := by
  obtain ⟨r, before, rfl, rfl, hran, hrest⟩ := runs_performWith hmuted h
  exact ⟨r, before, rfl, rfl, hran, hrest⟩

/-! ## Running an agent -/

namespace Engine

def referent (projectId agentRef : String) : Identity :=
  (AgentRef.parse agentRef).toIdentity projectId

/-- Where the definition of an agent comes from: the engine's own project, or an answer. -/
inductive Finds (e : Engine) (identity : Identity) :
    List Exchange → Except Error (Option Definition) → Prop
  | own {d : Definition} : identity.isLocalTo e.project.id = true →
      e.project.agent? identity.agentId = some d → Finds e identity [] (.ok (some d))
  | asked (answer : Except Error (Option Definition)) :
      (identity.isLocalTo e.project.id = true → e.project.agent? identity.agentId = none) →
      Finds e identity [⟨.agent identity, answer⟩] answer

section Work

variable (work : TaskContext → Json → Fallible TaskResult)

def childRunWith (e : Engine) (depth : Nat) (projectId : String) (options : RunOptions)
    (parent : TaskId) (agentRef : String) (inputs : Json) : Fallible Json :=
  (e.runWith work depth projectId agentRef inputs
    { parentTaskId := some parent, deadline := options.deadline,
      maxRetries := options.maxRetries }).adapt RunFailure.error

def taskContextWith (e : Engine) (depth : Nat) (identity : Identity) (d : Definition)
    (options : RunOptions) (id : TaskId) : TaskContext where
  engine := e
  definition := d
  identity := identity
  emitter := .forAgent d id options.parentTaskId
  options := options
  runChild := e.childRunWith work depth identity.projectId options id

end Work

def childRun (e : Engine) (depth : Nat) (projectId : String) (options : RunOptions)
    (parent : TaskId) (agentRef : String) (inputs : Json) : Fallible Json :=
  e.childRunWith TaskContext.process depth projectId options parent agentRef inputs

def taskContext (e : Engine) (depth : Nat) (identity : Identity) (d : Definition)
    (options : RunOptions) (id : TaskId) : TaskContext :=
  e.taskContextWith TaskContext.process depth identity d options id

def greeting (options : RunOptions) : List Event :=
  ((if options.parentTaskId.isNone then options.userMessage else none).map
    Event.inputParameter).toList

/-- The runs without a task: the agent cannot be had or its inputs are refused, or its outputs are
known already. -/
inductive Skips (e : Engine) (projectId agentRef : String) (inputs : Json) (isRequired : Bool) :
    List Exchange → Except RunFailure Json → Prop
  | unavailable {log : List Exchange} {failure : Error} :
      e.Finds (referent projectId agentRef) log (.error failure) →
      Skips e projectId agentRef inputs isRequired log (.error ⟨failure, false⟩)
  | missing {log : List Exchange} :
      e.Finds (referent projectId agentRef) log (.ok none) → isRequired = true →
      Skips e projectId agentRef inputs isRequired log (.error ⟨.agentNotFound agentRef, false⟩)
  | absent {log : List Exchange} :
      e.Finds (referent projectId agentRef) log (.ok none) → isRequired = false →
      Skips e projectId agentRef inputs isRequired log (.ok .null)
  | refused {log : List Exchange} {d : Definition} {failure : Error} :
      e.Finds (referent projectId agentRef) log (.ok (some d)) →
      prepareInputs d inputs = .error failure →
      Skips e projectId agentRef inputs isRequired log (.error ⟨failure, false⟩)
  | known {log : List Exchange} {d : Definition} {prepared outputs : Json} :
      e.Finds (referent projectId agentRef) log (.ok (some d)) →
      prepareInputs d inputs = .ok prepared →
      Skips e projectId agentRef inputs isRequired
        (log ++ [⟨.recall (fingerprint (referent projectId agentRef) prepared), some outputs⟩])
        (.ok outputs)

/-- The run of an agent that is the run of the task `r`, whose work is done in this way. -/
structure PerformsWith (work : TaskContext → Json → Fallible TaskResult) (e : Engine) (depth : Nat)
    (projectId agentRef : String) (inputs : Json) (options : RunOptions) (r : TaskRun)
    (log : List Exchange) (es : List Event) : Prop where
  found : ∃ (finding before : List Exchange),
    e.Finds (referent projectId agentRef) finding (.ok (some r.context.definition)) ∧
    (∀ x ∈ before, x.query.IsOwn) ∧
    log = finding ++ ⟨.recall r.key, none⟩ :: ⟨.newTask, r.id⟩ ::
      (before ++ ⟨.clock, r.started⟩ :: (r.log ++ ⟨.clock, r.ended⟩ :: r.remembering))
  prepared : prepareInputs r.context.definition inputs = .ok r.inputs
  context : r.context = e.taskContextWith work depth (referent projectId agentRef)
    r.context.definition options r.id
  ran : r.RanAs work
  events : es = greeting options ++ r.block r.events

/-- The run of an agent that is the run of the task `r`, which does one thing after the other. -/
abbrev Performs (e : Engine) (depth : Nat) (projectId agentRef : String) (inputs : Json)
    (options : RunOptions) (r : TaskRun) (log : List Exchange) (es : List Event) : Prop :=
  e.PerformsWith TaskContext.process depth projectId agentRef inputs options r log es

variable {work : TaskContext → Json → Fallible TaskResult} {e : Engine}
  {projectId agentRef : String} {log : List Exchange} {es : List Event}

theorem resolve_eq_pure {d : Definition}
    (hlocal : (referent projectId agentRef).isLocalTo e.project.id = true)
    (hd : e.project.agent? (referent projectId agentRef).agentId = some d) :
    e.resolve projectId agentRef = pure (some (referent projectId agentRef, d)) := by
  have hown : (if (referent projectId agentRef).isLocalTo e.project.id then
      e.project.agent? (referent projectId agentRef).agentId else none) = some d := by
    rw [if_pos hlocal, hd]
  unfold resolve
  dsimp only
  split
  · next d' hd' =>
    cases hown.symm.trans hd'
    rfl
  · next hnone => exact absurd (hown.symm.trans hnone) nofun

theorem resolve_eq_query (h : (referent projectId agentRef).isLocalTo e.project.id = true →
    e.project.agent? (referent projectId agentRef).agentId = none) :
    e.resolve projectId agentRef = (do
      let found ← ExceptT.mk (query (.agent (referent projectId agentRef)))
      return found.map (referent projectId agentRef, ·)) := by
  have hnone : (if (referent projectId agentRef).isLocalTo e.project.id then
      e.project.agent? (referent projectId agentRef).agentId else none) = none := by
    split
    · next hlocal => exact h hlocal
    · rfl
  unfold resolve
  dsimp only
  split
  · next d hown => exact absurd (hnone.symm.trans hown) nofun
  · rfl

theorem runs_resolve {r : Except Error (Option (Identity × Definition))}
    (h : Runs (e.resolve projectId agentRef).run log es r) : es = [] ∧
      ∃ found, e.Finds (referent projectId agentRef) log found ∧
        r = found.map (·.map ((referent projectId agentRef, ·))) := by
  by_cases hown : (referent projectId agentRef).isLocalTo e.project.id = true ∧
      (e.project.agent? (referent projectId agentRef).agentId).isSome
  · obtain ⟨hlocal, hsome⟩ := hown
    obtain ⟨d, hd⟩ := Option.isSome_iff_exists.mp hsome
    rw [resolve_eq_pure hlocal hd] at h
    obtain ⟨rfl, rfl, rfl⟩ := runs_ok.mp h
    exact ⟨rfl, .ok (some d), .own hlocal hd, rfl⟩
  · have hnone : (referent projectId agentRef).isLocalTo e.project.id = true →
        e.project.agent? (referent projectId agentRef).agentId = none := by
      intro hlocal
      simpa [hlocal] using hown
    rw [resolve_eq_query hnone] at h
    rcases runs_andThen.mp h with ⟨failure, rfl, h₁⟩ | ⟨log₁, es₁, d, log₂, es₂, rfl, rfl, h₁, h₂⟩
    · obtain ⟨rfl, rfl⟩ := runs_query.mp h₁
      exact ⟨rfl, _, .asked _ hnone, rfl⟩
    · obtain ⟨rfl, rfl⟩ := runs_query.mp h₁
      obtain ⟨rfl, rfl, rfl⟩ := runs_ok.mp h₂
      exact ⟨rfl, _, .asked _ hnone, rfl⟩

theorem runs_performTask {identity : Identity} {d : Definition} {options : RunOptions}
    {depth : Nat} {prepared : Json} {res : Except Error Json}
    (h : Runs (e.performTaskWith work identity d options
      (e.childRunWith work depth identity.projectId options) prepared).run log es res) :
    ∃ (r : TaskRun) (before : List Exchange),
      r.context = e.taskContextWith work depth identity d options r.id ∧ r.inputs = prepared ∧
      r.RanAs work ∧
      (∀ x ∈ before, x.query.IsOwn) ∧
      log = ⟨.newTask, r.id⟩ :: (before ++ ⟨.clock, r.started⟩ :: (r.log ++ [⟨.clock, r.ended⟩])) ∧
      es = greeting options ++ r.block r.events ∧ res = r.outcome := by
  obtain ⟨log₁, es₁, _, log₂, es₂, rfl, rfl, hgreeting, h₁⟩ := runs_liftThen.mp h
  obtain ⟨rfl, rfl⟩ := runs_reportAll.mp hgreeting
  obtain ⟨log₃, es₃, id, log₄, es₄, rfl, rfl, hid, h₂⟩ := runs_liftThen.mp h₁
  obtain ⟨rfl, rfl⟩ := runs_query (q := .newTask).mp hid
  obtain ⟨r, before, hcontext, rfl, hran, hbefore, rfl, rfl, rfl⟩ := runs_performWith rfl h₂
  rw [← hcontext] at hran
  have hid : r.id = id := by rw [TaskRun.id, hcontext]; rfl
  refine ⟨r, before, ?_, rfl, hran, hbefore, by rw [hid]; rfl, rfl, rfl⟩
  rw [hcontext, hid]
  rfl

/-- A task of a run, with what was exchanged before and after it. -/
theorem performs_of_task {depth : Nat} {d : Definition} {options : RunOptions} {inputs : Json}
    {r : TaskRun} {finding before : List Exchange}
    (hfinds : e.Finds (referent projectId agentRef) finding (.ok (some d)))
    (hprepared : prepareInputs d inputs = .ok r.inputs)
    (hcontext : r.context =
      e.taskContextWith work depth (referent projectId agentRef) d options r.id)
    (hran : r.RanAs work) (hbefore : ∀ x ∈ before, x.query.IsOwn) :
    e.PerformsWith work depth projectId agentRef inputs options r
      (finding ++ ⟨.recall (fingerprint (referent projectId agentRef) r.inputs), none⟩ ::
        ⟨.newTask, r.id⟩ ::
        (before ++ ⟨.clock, r.started⟩ :: (r.log ++ ⟨.clock, r.ended⟩ :: r.remembering)))
      (greeting options ++ r.block r.events) := by
  have hdefinition : r.context.definition = d := by rw [hcontext]; rfl
  have hidentity : r.context.identity = referent projectId agentRef := by rw [hcontext]; rfl
  subst hdefinition
  exact ⟨⟨finding, before, hfinds, hbefore, by rw [TaskRun.key, hidentity]⟩, hprepared, hcontext,
    hran, rfl⟩

theorem runs_runDefinition {d : Definition} {options : RunOptions} {depth : Nat} {inputs : Json}
    {finding : List Exchange} {res : Except RunFailure Json}
    (hfinds : e.Finds (referent projectId agentRef) finding (.ok (some d)))
    (h : Runs (e.runDefinitionWith work (referent projectId agentRef) d options
      (e.childRunWith work depth (referent projectId agentRef).projectId options) inputs).run
        log es res) :
    (es = [] ∧ e.Skips projectId agentRef inputs options.isRequired (finding ++ log) res) ∨
      ∃ r : TaskRun,
        e.PerformsWith work depth projectId agentRef inputs options r (finding ++ log) es ∧
        res = r.outcome.mapError (⟨·, true⟩) := by
  rcases runs_andThen.mp h with
    ⟨failure, rfl, h₁⟩ | ⟨log₁, es₁, prepared, log₂, es₂, rfl, rfl, h₁, h₂⟩
  -- inputs that do not fit are refused before there is a task
  · obtain ⟨r', hprepare, hr'⟩ := runs_adapt.mp h₁
    obtain ⟨rfl, rfl, rfl⟩ := runs_ofExcept.mp hprepare
    cases hprepared : prepareInputs d inputs with
    | ok prepared => rw [hprepared] at hr'; cases hr'
    | error failure' =>
      rw [hprepared] at hr'
      cases hr'
      refine .inl ⟨rfl, ?_⟩
      rw [List.append_nil]
      exact .refused hfinds hprepared
  obtain ⟨r', hprepare, hr'⟩ := runs_adapt.mp h₁
  obtain ⟨rfl, rfl, rfl⟩ := runs_ofExcept.mp hprepare
  have hprepared : prepareInputs d inputs = .ok prepared := by
    cases hcases : prepareInputs d inputs with
    | ok prepared' => rw [hcases] at hr'; cases hr'; rfl
    | error failure' => rw [hcases] at hr'; cases hr'
  obtain ⟨log₃, es₃, recalled, log₄, es₄, rfl, rfl, hrecall, h₃⟩ := runs_liftThen.mp h₂
  obtain ⟨rfl, rfl⟩ := runs_query (q := .recall _).mp hrecall
  cases recalled with
  | some outputs =>
    obtain ⟨rfl, rfl, rfl⟩ := runs_ok.mp h₃
    exact .inl ⟨rfl, .known hfinds hprepared⟩
  | none =>
    rcases runs_andThen.mp h₃ with
      ⟨failure, rfl, h₄⟩ | ⟨log₅, es₅, outputs, log₆, es₆, rfl, rfl, h₄, h₅⟩
    · obtain ⟨res', htask, hres'⟩ := runs_adapt.mp h₄
      obtain ⟨r, before, hcontext, rfl, hran, hbefore, rfl, rfl, rfl⟩ := runs_performTask htask
      have hperforms := performs_of_task hfinds hprepared hcontext hran hbefore
      cases houtcome : r.outcome with
      | ok outputs => rw [houtcome] at hres'; cases hres'
      | error failure' =>
        -- nothing is put into the cache for a task that failed
        rw [r.remembering_of_error houtcome] at hperforms
        exact .inr ⟨r, by simpa using hperforms, by rw [hres', houtcome]⟩
    · obtain ⟨res', htask, hres'⟩ := runs_adapt.mp h₄
      obtain ⟨r, before, hcontext, rfl, hran, hbefore, rfl, rfl, rfl⟩ := runs_performTask htask
      obtain ⟨log₇, es₇, _, log₈, es₈, rfl, rfl, hremember, h₆⟩ := runs_liftThen.mp h₅
      obtain ⟨rfl, rfl⟩ := runs_query (q := .remember _ _).mp hremember
      obtain ⟨rfl, rfl, rfl⟩ := runs_ok.mp h₆
      have hperforms := performs_of_task hfinds hprepared hcontext hran hbefore
      cases houtcome : r.outcome with
      | error failure' => rw [houtcome] at hres'; cases hres'
      | ok outputs' =>
        rw [houtcome] at hres'
        cases hres'
        have hidentity : r.context.identity = referent projectId agentRef := by rw [hcontext]; rfl
        rw [r.remembering_of_ok houtcome, TaskRun.key, hidentity] at hperforms
        exact .inr ⟨r, by simpa using hperforms, by rw [houtcome]; rfl⟩

/-- A run of an agent has no task and no events, or it is the run of one task. -/
theorem run_cases {depth : Nat} {inputs : Json} {options : RunOptions}
    {res : Except RunFailure Json}
    (h : Runs (e.runWith work (depth + 1) projectId agentRef inputs options).run log es res) :
    (es = [] ∧ e.Skips projectId agentRef inputs options.isRequired log res) ∨
      ∃ r : TaskRun, e.PerformsWith work depth projectId agentRef inputs options r log es ∧
        res = r.outcome.mapError (⟨·, true⟩) := by
  rcases runs_andThen.mp h with ⟨failure, rfl, h₁⟩ | ⟨log₁, es₁, found, log₂, es₂, rfl, rfl, h₁, h₂⟩
  -- the search for the agent failed
  · obtain ⟨r', hresolve, hr'⟩ := runs_adapt.mp h₁
    obtain ⟨rfl, answer, hfinds, rfl⟩ := runs_resolve hresolve
    cases answer with
    | error failure' =>
      cases hr'
      exact .inl ⟨rfl, .unavailable hfinds⟩
    | ok d => cases hr'
  obtain ⟨r', hresolve, hr'⟩ := runs_adapt.mp h₁
  obtain ⟨rfl, answer, hfinds, rfl⟩ := runs_resolve hresolve
  cases answer with
  | error failure' => cases hr'
  | ok answer =>
    cases answer with
    | none =>
      cases hr'
      change Runs (if options.isRequired then throw ⟨.agentNotFound agentRef, false⟩
        else pure .null : ExceptT RunFailure Activity Json).run log₂ es₂ res at h₂
      split at h₂
      · next hrequired =>
        obtain ⟨rfl, rfl, rfl⟩ := runs_throw.mp h₂
        refine .inl ⟨rfl, ?_⟩
        rw [List.append_nil]
        exact .missing hfinds hrequired
      · next hrequired =>
        obtain ⟨rfl, rfl, rfl⟩ := runs_ok.mp h₂
        refine .inl ⟨rfl, ?_⟩
        rw [List.append_nil]
        exact .absent hfinds (Bool.eq_false_iff.mpr hrequired)
    | some d =>
      cases hr'
      exact runs_runDefinition hfinds h₂

/-- What follows the events of a run from outside: one ERROR if its task failed, or nothing. -/
inductive Ending (options : RunOptions) (res : Except RunFailure Json) :
    List Exchange → List Event → Prop
  | error {failure : RunFailure} (now : Timestamp) : res = .error failure →
      options.parentTaskId = none → failure.started = true →
      Ending options res [⟨.clock, now⟩] [.error (.ofError failure.error now)]
  | silent : (∀ failure, res = .error failure → options.parentTaskId = none →
      failure.started = false) → Ending options res [] []

theorem runs_execute {depth : Nat} {inputs : Json} {options : RunOptions}
    {res : Except Error Json}
    (h : Runs (e.executeWith work depth projectId agentRef inputs options).run log es res) :
    ∃ log₁ es₁ log₂ es₂ res', log = log₁ ++ log₂ ∧ es = es₁ ++ es₂ ∧
      Runs (e.runWith work depth projectId agentRef inputs options).run log₁ es₁ res' ∧
      Ending options res' log₂ es₂ ∧ res = res'.mapError RunFailure.error := by
  obtain ⟨log₁, es₁, res', log₂, es₂, rfl, rfl, hrun, hrest⟩ := runs_liftThen.mp h
  refine ⟨log₁, es₁, log₂, es₂, res', rfl, rfl, hrun, ?_⟩
  cases res' with
  | ok outputs =>
    obtain ⟨rfl, rfl, rfl⟩ := runs_ok.mp hrest
    exact ⟨.silent (fun failure hfailure => by cases hfailure), rfl⟩
  | error failure =>
    dsimp only at hrest
    split at hrest
    -- only a run that has no parent reports an ERROR, and only if a task was started
    · next hreport =>
      rw [Bool.and_eq_true] at hreport
      obtain ⟨log₃, es₃, _, log₄, es₄, rfl, rfl, herror, hthrow⟩ := runs_liftThen.mp hrest
      obtain ⟨log₅, es₅, now, log₆, es₆, rfl, rfl, hnow, hevent⟩ := runs_bind.mp herror
      obtain ⟨rfl, rfl⟩ := runs_query (q := .clock).mp hnow
      obtain ⟨rfl, rfl⟩ := runs_reportAll.mp hevent
      obtain ⟨rfl, rfl, rfl⟩ := runs_throw.mp hthrow
      exact ⟨.error now rfl (Option.isNone_iff_eq_none.mp hreport.1) hreport.2, rfl⟩
    · next hreport =>
      obtain ⟨rfl, rfl, rfl⟩ := runs_throw.mp hrest
      refine ⟨.silent fun failure' hfailure hparent => ?_, rfl⟩
      cases hfailure
      simpa [hparent] using hreport

theorem Skips.started_eq_false {inputs : Json} {isRequired : Bool} {failure : RunFailure}
    (h : e.Skips projectId agentRef inputs isRequired log (.error failure)) :
    failure.started = false := by
  cases h <;> rfl

theorem error_mapError {α : Type} (res : Except Error α) (started : Bool) :
    (res.mapError fun error => RunFailure.mk error started).mapError RunFailure.error = res := by
  cases res <;> rfl

/-- The run of a task ends with an ERROR exactly if it failed and has no parent. -/
theorem Ending.of_task {options : RunOptions} {res : Except Error Json} {ending : List Event}
    (h : Ending options (res.mapError (⟨·, true⟩)) log ending) :
    (∃ failure now, options.parentTaskId = none ∧ res = .error failure ∧
      ending = [.error (.ofError failure now)]) ∨
    ((options.parentTaskId = none → ∃ outputs, res = .ok outputs) ∧ ending = []) := by
  cases h with
  | error now hres hparent _ =>
    cases res with
    | ok outputs => cases hres
    | error failure =>
      cases hres
      exact .inl ⟨failure, now, hparent, rfl, rfl⟩
  | silent hnot =>
    refine .inr ⟨fun hparent => ?_, rfl⟩
    cases res with
    | ok outputs => exact ⟨outputs, rfl⟩
    | error failure =>
      have hstarted : true = false := hnot ⟨failure, true⟩ rfl hparent
      cases hstarted

theorem Ending.taskId?_eq_none {options : RunOptions} {res : Except RunFailure Json}
    {ending : List Event} (h : Ending options res log ending) :
    ∀ event ∈ ending, event.taskId? = none := by
  cases h with
  | error now _ _ _ =>
    intro event hevent
    rw [List.mem_singleton.mp hevent]
    rfl
  | silent _ => exact fun event hevent => absurd hevent List.not_mem_nil

theorem taskId?_greeting (options : RunOptions) :
    ∀ event ∈ greeting options, event.taskId? = none := by
  intro event hevent
  obtain ⟨content, _, rfl⟩ := Option.map_eq_some_iff.mp (Option.mem_toList.mp hevent)
  rfl

end Engine

end Agents
