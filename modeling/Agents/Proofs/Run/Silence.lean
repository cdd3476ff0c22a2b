import Agents.Proofs.Run.Course
import Agents.Proofs.Run.Recording

/-! # Repeated attempts are silent

A task that runs a script or asks a model repeats an attempt whose outputs failed their validation.
Whoever reads its events sees one attempt only.

- A retried activity goes through attempts 1, 2, … one after another, reports what these report and
  asks what they ask, but for the clock (`runs_retry`).
- A script whose emitter is muted reports nothing, whatever it logs, composes or has its children
  do (`ScriptedLogic.silent_attempt`). A model that is asked again adds its token counts at most
  (`ModelPrompt.counts_attempt`).
- So between the start and the end of such a task there are the events of attempt 1 and at most one
  USAGE of the task for each further one (`perform_retries_silently`).
-/

namespace Agents

open Activity Activity.Composable TaskContext

/-! ## Attempts -/

structure Attempt (α : Type) where
  number : Nat
  log : List Exchange
  events : List Event
  result : Except Error α

def Attempt.Ran {α : Type} (attempt : Nat → Fallible α) (a : Attempt α) : Prop :=
  Runs (attempt a.number).run a.log a.events a.result

/-- Attempts one after another, from this number on. Only an output that failed its validation is
attempted again. -/
inductive Repeated {α : Type} (attempt : Nat → Fallible α) : Nat → List (Attempt α) → Prop
  | last {a : Attempt α} : a.Ran attempt → Repeated attempt a.number [a]
  | again {a : Attempt α} {failure : Error} {later : List (Attempt α)} : a.Ran attempt →
      a.result = .error failure → failure.isRetryable = true →
      Repeated attempt (a.number + 1) later → Repeated attempt a.number (a :: later)

/-- An exchange that consists of those of some attempts; after each the clock may be asked. -/
inductive Spaced {α : Type} : List (Attempt α) → List Exchange → Prop
  | nil : Spaced [] []
  | cons {a : Attempt α} {pause log : List Exchange} {later : List (Attempt α)} :
      (∀ x ∈ pause, x.query = .clock) → Spaced later log →
      Spaced (a :: later) (a.log ++ (pause ++ log))

section Attempts

variable {α : Type} {attempt : Nat → Fallible α} {n : Nat} {tries : List (Attempt α)}

theorem Repeated.le_number (h : Repeated attempt n tries) : ∀ a ∈ tries, n ≤ a.number := by
  induction h with
  | last _ => simp
  | again _ _ _ _ ih =>
    exact List.forall_mem_cons.mpr ⟨Nat.le_refl _, fun a ha => Nat.le_of_succ_le (ih a ha)⟩

theorem Repeated.ran (h : Repeated attempt n tries) : ∀ a ∈ tries, a.Ran attempt := by
  induction h with
  | last hran => exact List.forall_mem_singleton.mpr hran
  | again hran _ _ _ ih => exact List.forall_mem_cons.mpr ⟨hran, ih⟩

theorem Repeated.exists_first (h : Repeated attempt n tries) : ∃ first later,
    tries = first :: later ∧ first.number = n ∧ ∀ a ∈ later, n < a.number := by
  cases h with
  | last _ => exact ⟨_, [], rfl, rfl, List.forall_mem_nil _⟩
  | again _ _ _ hlater => exact ⟨_, _, rfl, rfl, fun a ha => hlater.le_number a ha⟩

/-! ## Silence -/

def Silent (_ : List Exchange) (es : List Event) : Prop := es = []

theorem Silent.composable : Composable Silent where
  nil := rfl
  append := by
    rintro _ _ _ _ rfl rfl
    rfl

theorem silent_query (q : Query) : Within Silent (query q) := by
  intro log es r h
  exact (runs_query.mp h).2

theorem silent_report {events : List Event} (h : events = []) :
    Within Silent (TaskContext.report events).run := by
  subst h
  exact within_lift fun log es r hrun => (runs_reportAll.mp hrun).2

theorem PassesOn.silent_through {ω β : Type} {emitter : TaskEmitter}
    {step : ω → Event → List Event × ω} (h : PassesOn emitter step)
    (hmuted : emitter.muted = true) (s : ω) (a : Activity β) :
    Within Silent (a.through step s) := by
  intro log es r hrun
  obtain ⟨said, _, hpass⟩ := runs_through hrun
  exact (congrArg Prod.fst hpass).symm.trans (h.silent hmuted said s)

/-! ## What a retried activity does -/

/-- Nothing is reported, and nothing but the clock is asked. -/
def Watching (log : List Exchange) (es : List Event) : Prop :=
  (∀ x ∈ log, x.query = .clock) ∧ es = []

theorem watching_isPastDeadline (t : TaskContext) : Within Watching t.isPastDeadline := by
  intro log es r h
  unfold isPastDeadline at h
  split at h
  · obtain ⟨rfl, rfl, _⟩ := runs_pure.mp h
    exact ⟨List.forall_mem_nil _, rfl⟩
  · obtain ⟨now, hnow, _⟩ := runs_map.mp h
    obtain ⟨rfl, rfl⟩ := runs_query.mp hnow
    exact ⟨List.forall_mem_singleton.mpr rfl, rfl⟩

/-- Attempts from number `n` on are made one after another, as many as remain. Between them the
clock is asked, and nothing is reported. -/
theorem runs_runFrom {agent : String} {late : Activity Bool} (hlate : Within Watching late)
    (remaining : Nat) {log : List Exchange} {es : List Event} {r : Except Error α}
    (h : Runs (Retry.runFrom agent late (fun n => (attempt n).run) remaining n) log es r) :
    ∃ tries, Repeated attempt n tries ∧ tries.length ≤ remaining + 1 ∧
      es = tries.flatMap Attempt.events ∧ Spaced tries log := by
  -- an attempt after which there is no other
  have hlast : ∀ {n log es pause} {x : Except Error α} {remaining},
      Runs (attempt n).run log es x → (∀ y ∈ pause, y.query = .clock) →
      ∃ tries : List (Attempt α), Repeated attempt n tries ∧ tries.length ≤ remaining + 1 ∧
        es ++ [] = tries.flatMap Attempt.events ∧ Spaced tries (log ++ pause) := by
    intro n log es pause x remaining hran hpause
    refine ⟨[⟨n, log, es, x⟩], .last (a := ⟨n, log, es, x⟩) hran, Nat.le_add_left _ _, by simp, ?_⟩
    simpa using Spaced.cons (a := ⟨n, log, es, x⟩) hpause .nil
  induction remaining generalizing n log es with
  | zero =>
    unfold Retry.runFrom at h
    obtain ⟨log₁, es₁, x, log₂, es₂, rfl, rfl, hran, hrest⟩ := runs_bind.mp h
    cases x with
    | ok value =>
      obtain ⟨rfl, rfl, rfl⟩ := runs_pure.mp hrest
      exact hlast hran (List.forall_mem_nil _)
    | error failure =>
      dsimp only at hrest
      split at hrest
      all_goals
        obtain ⟨rfl, rfl, rfl⟩ := runs_pure.mp hrest
        exact hlast hran (List.forall_mem_nil _)
  | succ remaining ih =>
    unfold Retry.runFrom at h
    obtain ⟨log₁, es₁, x, log₂, es₂, rfl, rfl, hran, hrest⟩ := runs_bind.mp h
    cases x with
    | ok value =>
      obtain ⟨rfl, rfl, rfl⟩ := runs_pure.mp hrest
      exact hlast hran (List.forall_mem_nil _)
    | error failure =>
      dsimp only at hrest
      split at hrest
      · obtain ⟨rfl, rfl, rfl⟩ := runs_pure.mp hrest
        exact hlast hran (List.forall_mem_nil _)
      next hretry =>
      obtain ⟨log₃, es₃, passed, log₄, es₄, rfl, rfl, hasked, hnext⟩ := runs_bind.mp hrest
      obtain ⟨hpause, rfl⟩ := hlate hasked
      split at hnext
      · obtain ⟨rfl, rfl, rfl⟩ := runs_pure.mp hnext
        exact hlast hran (by simpa using hpause)
      · obtain ⟨tries, hrepeated, hlength, rfl, hspaced⟩ := ih hnext
        refine ⟨⟨n, log₁, es₁, .error failure⟩ :: tries, ?_, Nat.succ_le_succ hlength, rfl,
          .cons (a := ⟨n, log₁, es₁, .error failure⟩) hpause hspaced⟩
        exact .again (a := ⟨n, log₁, es₁, .error failure⟩) hran rfl (by simpa using hretry)
          hrepeated

/-- A retried activity makes attempts 1, 2, … as far as its budget goes. -/
theorem runs_retry {t : TaskContext} {log : List Exchange} {es : List Event} {r : Except Error α}
    (h : Runs (t.retry attempt).run log es r) :
    ∃ tries, Repeated attempt 1 tries ∧ tries.length ≤ Retry.attempts t.maxRetries ∧
      es = tries.flatMap Attempt.events ∧ Spaced tries log := by
  have hpositive : Retry.attempts t.maxRetries - 1 + 1 = Retry.attempts t.maxRetries := by
    have hmax : 0 < Retry.maxAttempts := by decide
    unfold Retry.attempts
    omega
  rw [← hpositive]
  exact runs_runFrom (watching_isPastDeadline t) _ h

end Attempts

/-! ## Scripts -/

section Scripts

variable {t : TaskContext} {emitter : TaskEmitter}

namespace ScriptedLogic

theorem silent_fetch (method url : String) (body : Json) :
    Within Silent (fetch t method url body).run := by
  have hL := Silent.composable
  refine hL.within.andThen (hL.within.ofExcept _) fun _ => ?_
  exact hL.within.andThen (silent_query (.http _)) fun _ => hL.within.ok _

theorem silent_logLine (hmuted : emitter.muted = true) (message : String) :
    Within Silent (logLine emitter message).run := by
  have hL := Silent.composable
  refine hL.within.andThen (within_lift (silent_query .clock)) fun now => ?_
  exact hL.within.andThen (silent_report (TaskEmitter.emit_of_muted hmuted _)) fun _ =>
    hL.within.ok _

theorem silent_runAgent (hmuted : emitter.muted = true) (agent : String) (inputs : Json)
    (relayText : Bool) : Within Silent (runAgent t emitter agent inputs relayText).run := by
  have hL := Silent.composable
  unfold runAgent
  dsimp only
  split
  · exact hL.within.andThen (hL.within.mapOk _ (within_lift
      ((passesOn_repeatText emitter).silent_through hmuted _ _))) hL.within.ofExcept
  · exact hL.within.andThen (hL.within.mapOk _ (within_lift
      ((passesOn_passOn emitter).silent_through hmuted _ _))) hL.within.ofExcept

theorem silent_write {c : Composer} (hmuted : c.emitter.muted = true) (d : JsonDocument)
    (piece : String) : Within Silent (c.write d piece).run := by
  have hL := Silent.composable
  exact hL.within.andThen (silent_report (Composer.add_of_muted hmuted d piece)) fun _ =>
    hL.within.ok _

theorem silent_addPart {c : Composer} (hmuted : c.emitter.muted = true) (d : JsonDocument)
    (part : Script.DocumentPart) : Within Silent (c.addPart t d part).run := by
  have hL := Silent.composable
  cases part with
  | raw text => exact silent_write hmuted d text
  | value value => exact silent_write hmuted d value.compact
  | agent agent inputs =>
    refine hL.within.andThen (silent_write hmuted d _) fun d => ?_
    refine hL.within.andThen
      (within_lift ((passesOn_observe c).silent_through hmuted _ _)) fun found => ?_
    refine hL.within.andThen (hL.within.ofExcept _) fun _ => ?_
    exact silent_write hmuted _ _

/-- Nothing that a script calls for is heard from a muted emitter. -/
theorem silent_answer (hmuted : emitter.muted = true) (call : Script.HostCall) :
    Within Silent (answer t emitter call).run := by
  have hL := Silent.composable
  cases call with
  | log message => exact silent_logLine hmuted message
  | fetch method url body => exact silent_fetch method url body
  | runAgent agent inputs relayText => exact silent_runAgent hmuted agent inputs relayText
  | renderJson parts =>
    refine hL.within.andThen (hL.within.foldlM (fun d part => ?_) parts _) fun d => ?_
    · exact silent_addPart hmuted d part
    · exact hL.within.ofExcept _

theorem silent_readStream {n : Nat} (hn : n ≠ 1) (path : String) (items : Stream Json) :
    Within Silent (readStream t n path items).run := by
  have hL := Silent.composable
  have hcollect : ∀ f : List Json → Json, Within Silent
      (do return f (← MonadExcept.ofExcept items.collect) : Fallible Json).run := fun f =>
    hL.within.andThen (hL.within.ofExcept _) fun _ => hL.within.ok _
  unfold readStream
  rw [if_neg hn]
  split
  · exact hcollect fun values => .str (String.join (values.map Json.valueText))
  · exact hcollect .arr

theorem silent_readStreams {n : Nat} (hn : n ≠ 1) (paths : List String) (value : Json)
    (relay : Script.Relay) : Within Silent (readStreams t n value relay paths).run := by
  have hL := Silent.composable
  induction paths generalizing value relay with
  | nil => exact hL.within.ok value
  | cons path rest ih =>
    exact hL.within.andThen (silent_readStream hn path _) fun held => ih _ _

def attempt (t : TaskContext) (spec : ScriptSpec) (inputs : Json) (n : Nat) : Fallible Json := do
  let emitter := if n = 1 then t.emitter else t.emitter.mute
  let handle (call : Script.HostCall) : Activity (Option (Except Error Json)) :=
    some <$> (answer t emitter call).run
  let outcome ← ExceptT.mk
    (Script.run t.engine.config.sandbox spec.source (inputFields inputs) handle)
  let paths := Script.streamPaths outcome.value
  t.validated (← readStreams t n outcome.value { channel := outcome.relay } paths)

theorem process_eq_retry (t : TaskContext) (spec : ScriptSpec) (inputs : Json) :
    process t spec inputs = t.retry (attempt t spec inputs) := rfl

/-- A script that is run again is not heard. -/
theorem silent_attempt (spec : ScriptSpec) (inputs : Json) {n : Nat} (hn : n ≠ 1) :
    Within Silent (attempt t spec inputs n).run := by
  have hL := Silent.composable
  have hmuted : (if n = 1 then t.emitter else t.emitter.mute).muted = true := by
    rw [if_neg hn]
    rfl
  refine hL.within.andThen (within_run hL (fun call => ?_) _ _ _) fun outcome => ?_
  · exact within_map _ (silent_answer hmuted call)
  · refine hL.within.andThen (silent_readStreams hn _ _ _) fun outputs => ?_
    exact hL.within.andThen (hL.within.ofExcept _) fun _ => hL.within.ok _

end ScriptedLogic

end Scripts

/-! ## Models -/

section Models

variable {t : TaskContext}

/-- The token counts of one answer at most. -/
def Counts (t : TaskContext) (_ : List Exchange) (es : List Event) : Prop :=
  es = [] ∨ ∃ u, es = t.emitter.usage u

theorem Counts.of_silent {α : Type} {a : Activity α} (h : Within Silent a) :
    Within (Counts t) a := fun _ _ _ hrun => .inl (h hrun)

theorem Counts.silent_then {α β : Type} {x : Fallible α} {f : α → Fallible β}
    (hx : Within Silent x.run) (hf : ∀ a, Within (Counts t) (f a).run) :
    Within (Counts t) (x >>= f).run := by
  intro log es r h
  rcases runs_andThen.mp h with ⟨e, rfl, h₁⟩ | ⟨log₁, es₁, a, log₂, es₂, rfl, rfl, h₁, h₂⟩
  · exact .inl (hx h₁)
  · obtain rfl : es₁ = [] := hx h₁
    have hcounts : Counts t log₂ es₂ := hf a h₂
    exact hcounts

theorem Counts.then_silent {α β : Type} {x : Fallible α} {f : α → Fallible β}
    (hx : Within (Counts t) x.run) (hf : ∀ a, Within Silent (f a).run) :
    Within (Counts t) (x >>= f).run := by
  intro log es r h
  rcases runs_andThen.mp h with ⟨e, rfl, h₁⟩ | ⟨log₁, es₁, a, log₂, es₂, rfl, rfl, h₁, h₂⟩
  · exact hx h₁
  · obtain rfl : es₂ = [] := hf a h₂
    have hcounts : Counts t log₁ es₁ := hx h₁
    rwa [List.append_nil]

theorem counts_reportUsage (usage : Option Usage) :
    Within (Counts t) (t.reportUsage usage).run := by
  unfold reportUsage
  cases usage with
  | none => exact .of_silent (Silent.composable.within.ok ())
  | some u =>
    refine within_lift fun log es r h => .inr ⟨u, ?_⟩
    exact (runs_reportAll.mp h).2

namespace ModelPrompt

theorem silent_prompt (spec : ModelPromptSpec) (inputs : Json) :
    Within Silent (prompt t spec inputs).run := by
  have hL := Silent.composable
  have hmemory : Within Silent t.memory.run :=
    hL.within.mapOk _ (silent_query (.memory t.identity))
  exact hL.within.andThen hmemory fun _ => hL.within.ok _

theorem silent_reportNarrative {n : Nat} (hn : n ≠ 1) (pieces : List String) :
    Within Silent (reportNarrative t n pieces).run := by
  unfold reportNarrative
  rw [if_neg hn]
  exact Silent.composable.within.ok ()

theorem silent_narrate {n : Nat} (hn : n ≠ 1) (messages : List ChatMessage)
    (settings : ModelSettings) : Within Silent (narrate t messages settings n).run := by
  have hL := Silent.composable
  refine hL.within.andThen (silent_query (.model _ _)) fun stream => ?_
  exact hL.within.andThen (silent_reportNarrative hn _) fun _ => hL.within.ofExcept _

theorem counts_structuredAttempt {n : Nat} (hn : n ≠ 1) (messages : List ChatMessage)
    (settings : ModelSettings) :
    Within (Counts t) (structuredAttempt t messages settings n).run := by
  have hL := Silent.composable
  -- what follows is the same whether there is a narrative or not
  have hafter : ∀ narrative : Response, Within (Counts t) (do
      let schema := (OutputSchema.structured t.definition).jsonSchema
      let stream ← callModel messages { settings with responseSchema := some schema }
      let answer ← MonadExcept.ofExcept (Response.ofStream stream)
      t.reportUsage (Response.addUsage narrative.usage answer.usage)
      let fields ← MonadExcept.ofExcept (objectOf answer.text)
      return .obj (fillStreamed t.definition narrative.text fields) : Fallible Json).run := by
    intro narrative
    refine .silent_then (silent_query (.model _ _)) fun stream => ?_
    refine .silent_then (hL.within.ofExcept _) fun answer => ?_
    refine .then_silent (counts_reportUsage _) fun _ => ?_
    exact hL.within.andThen (hL.within.ofExcept _) fun fields => hL.within.ok _
  unfold structuredAttempt
  dsimp only
  split
  · exact .silent_then (silent_narrate hn messages settings) hafter
  · exact .silent_then (hL.within.ok _) hafter

theorem counts_fencedAttempt {n : Nat} (hn : n ≠ 1) (messages : List ChatMessage)
    (settings : ModelSettings) : Within (Counts t) (fencedAttempt t messages settings n).run := by
  have hL := Silent.composable
  refine .silent_then (silent_query (.model _ _)) fun stream => ?_
  refine .silent_then (silent_reportNarrative hn _) fun _ => ?_
  refine .silent_then (hL.within.ofExcept _) fun chunks => ?_
  refine .silent_then (hL.within.ofExcept _) fun answer => ?_
  exact .then_silent (counts_reportUsage _) fun _ => hL.within.ok _

def attempt (t : TaskContext) (model : ModelTraits) (messages : List ChatMessage)
    (settings : ModelSettings) (n : Nat) : Fallible Json := do
  let outputs ←
    if model.isStructured settings then structuredAttempt t messages settings n
    else fencedAttempt t messages settings n
  t.validated outputs

theorem process_eq_retry (t : TaskContext) (spec : ModelPromptSpec) (inputs : Json) :
    process t spec inputs = (do
      let model ← MonadExcept.ofExcept t.model
      let messages ← prompt t spec inputs
      t.retry (attempt t model messages (t.settings spec.model))) := rfl

/-- A model that is asked again adds its token counts, and nothing else is heard of it. -/
theorem counts_attempt (model : ModelTraits) (messages : List ChatMessage)
    (settings : ModelSettings) {n : Nat} (hn : n ≠ 1) :
    Within (Counts t) (attempt t model messages settings n).run := by
  have hL := Silent.composable
  have hvalidated : ∀ outputs, Within Silent (t.validated outputs).run := fun outputs =>
    hL.within.andThen (hL.within.ofExcept _) fun _ => hL.within.ok _
  unfold attempt
  split
  · exact .then_silent (counts_structuredAttempt hn messages settings) hvalidated
  · exact .then_silent (counts_fencedAttempt hn messages settings) hvalidated

end ModelPrompt

end Models

/-! ## Tasks -/

inductive TaskContext.Attempts (t : TaskContext) (inputs : Json) : (Nat → Fallible Json) → Prop
  | script {spec : ScriptSpec} : t.definition.kind = .scriptedLogic spec →
      t.Attempts inputs (ScriptedLogic.attempt t spec inputs)
  /-- One prompt serves for all attempts. -/
  | prompt {spec : ModelPromptSpec} {model : ModelTraits} {messages : List ChatMessage}
      {log : List Exchange} : t.definition.kind = .modelPrompt spec → t.model = .ok model →
      Runs (ModelPrompt.prompt t spec inputs).run log [] (.ok messages) →
      t.Attempts inputs (ModelPrompt.attempt t model messages (t.settings spec.model))

/-- What is heard of a task that runs a script or asks a model: nothing, if it failed before its
first attempt, or else the events of that attempt and the token counts of others. -/
inductive TaskContext.Heard (t : TaskContext) (inputs : Json) (result : Except Error Json) :
    List Event → Prop
  | nothing {failure : Error} : result = .error failure → t.Heard inputs result []
  | first {attempt : Nat → Fallible Json} {first : Attempt Json} {later : List (Attempt Json)} :
      t.Attempts inputs attempt → Repeated attempt 1 (first :: later) →
      (first :: later).length ≤ Retry.attempts t.maxRetries →
      (∀ a ∈ later, a.events = [] ∨ ((∃ spec, t.definition.kind = .modelPrompt spec) ∧
        ∃ u, a.events = [.usage t.emitter.taskId t.emitter.assistantId u])) →
      t.Heard inputs result (first.events ++ later.flatMap Attempt.events)

section Tasks

variable {t : TaskContext} {inputs : Json} {log : List Exchange} {es : List Event}

theorem ScriptedLogic.heard_process {spec : ScriptSpec} {r : Except Error Json}
    (hkind : t.definition.kind = .scriptedLogic spec)
    (h : Runs (process t spec inputs).run log es r) : t.Heard inputs r es := by
  rw [process_eq_retry] at h
  obtain ⟨tries, hrepeated, hlength, rfl, _⟩ := runs_retry h
  obtain ⟨first, later, rfl, hfirst, hlater⟩ := hrepeated.exists_first
  refine .first (.script hkind) hrepeated hlength fun a ha => .inl ?_
  have hran := hrepeated.ran a (List.mem_cons_of_mem _ ha)
  exact silent_attempt spec inputs (Nat.ne_of_gt (hlater a ha)) hran

theorem ModelPrompt.heard_process {spec : ModelPromptSpec} {r : Except Error Json}
    (hmuted : t.emitter.muted = false) (hkind : t.definition.kind = .modelPrompt spec)
    (h : Runs (process t spec inputs).run log es r) : t.Heard inputs r es := by
  rw [process_eq_retry] at h
  rcases runs_andThen.mp h with
    ⟨failure, rfl, h₁⟩ | ⟨log₁, es₁, model, log₂, es₂, rfl, rfl, h₁, h₂⟩
  · obtain ⟨rfl, rfl, _⟩ := runs_ofExcept.mp h₁
    exact .nothing rfl
  obtain ⟨rfl, rfl, hmodel⟩ := runs_ofExcept.mp h₁
  rcases runs_andThen.mp h₂ with
    ⟨failure, rfl, h₃⟩ | ⟨log₃, es₃, messages, log₄, es₄, rfl, rfl, h₃, h₄⟩
  · obtain rfl : es₂ = [] := silent_prompt spec inputs h₃
    exact .nothing rfl
  obtain rfl : es₃ = [] := silent_prompt spec inputs h₃
  obtain ⟨tries, hrepeated, hlength, rfl, _⟩ := runs_retry h₄
  obtain ⟨first, later, rfl, hfirst, hlater⟩ := hrepeated.exists_first
  refine .first (.prompt hkind hmodel.symm h₃) hrepeated hlength fun a ha => ?_
  have hran := hrepeated.ran a (List.mem_cons_of_mem _ ha)
  rcases counts_attempt model messages _ (Nat.ne_of_gt (hlater a ha)) hran with hnone | ⟨u, hu⟩
  · exact .inl hnone
  · refine .inr ⟨⟨spec, hkind⟩, u, ?_⟩
    rw [hu, TaskEmitter.usage, TaskEmitter.emit_of_not_muted hmuted]

/-- However often a task repeats the run of a script or the call of a model, between its start and
its end there are the events of its first attempt and, if it asks a model, at most one USAGE of
the task for each further one. -/
theorem perform_retries_silently {res : Except Error Json} (hmuted : t.emitter.muted = false)
    (hkind : (∃ spec, t.definition.kind = .scriptedLogic spec) ∨
      ∃ spec, t.definition.kind = .modelPrompt spec)
    (h : Runs (t.perform inputs).run log es res) :
    ∃ r : TaskRun, r.context = t ∧ r.inputs = inputs ∧ res = r.outcome ∧
      es = r.block r.events ∧ t.Heard inputs res r.events := by
  obtain ⟨r, before, rfl, rfl, hran, _, _, rfl, rfl⟩ := runs_perform hmuted h
  refine ⟨r, rfl, rfl, rfl, rfl, ?_⟩
  -- neither kind of agent decides to stop, so the outcome is what the attempts ended with
  have houtcome : ∀ {x : Fallible Json} {result : Except Error TaskResult},
      Runs (TaskResult.ofOutputs <$> x).run r.log r.events result →
      Runs x.run r.log r.events (result.map TaskResult.outputs) := by
    intro x result hx
    obtain ⟨r', hx', rfl⟩ := runs_mapOk.mp hx
    cases r' <;> exact hx'
  unfold TaskRun.Ran TaskRun.RanAs process at hran
  rcases hkind with ⟨spec, hspec⟩ | ⟨spec, hspec⟩
  · rw [hspec] at hran
    exact ScriptedLogic.heard_process hspec (houtcome hran)
  · rw [hspec] at hran
    exact ModelPrompt.heard_process hmuted hspec (houtcome hran)

end Tasks

def helper : Definition :=
  { id := "helper", name := "Helper"
    kind := .pipeline { steps := [], outputs := [("greeting", .literal (.str "hello"))] } }

/-- A script that is run twice, because it gives a number for a text. -/
def caller : Definition :=
  { id := "caller", name := "Caller", outputs := [{ name := "reply", type := .string }]
    kind := .scriptedLogic
      { source := "log(\"calling\"); run_agent(\"helper\", #\x7b\x7d); #\x7breply: 1\x7d"
        maxRetries := some 1 } }

def office : Engine := { project := { id := "office", agents := [caller, helper] } }

def callerTask : TaskContext :=
  office.taskContext 1 (.inProject "office" "caller") caller {} "a"

def callerFailure : String :=
  "unexpected response format from 'caller' after 2 attempt(s): output validation failed: " ++
    "[json-schema] JSON Schema violation at '/reply': 1 is not of type \"string\""

def failureText : Except Error Json → String
  | .ok _ => ""
  | .error failure => failure.message

/-- Both attempts write a log line and run the helper, and it is heard once. -/
theorem perform_retries_silently_caller : ∃ log es failure, ∃ r : TaskRun,
    Runs (callerTask.perform .null).run log es (.error failure) ∧
    failure.message = callerFailure ∧
    es.map Event.typeName =
      ["INPUT", "EXECUTE", "LOG", "INPUT", "EXECUTE", "EXECUTE", "EXECUTE"] ∧
    es = r.block r.events ∧ callerTask.Heard .null (.error failure) r.events := by
  have hseen : (countingServices.observe (callerTask.perform .null).run none 0).map
      (fun seen => (failureText seen.result, seen.events.map Event.typeName)) =
      some (callerFailure,
        ["INPUT", "EXECUTE", "LOG", "INPUT", "EXECUTE", "EXECUTE", "EXECUTE"]) := by
    decide +kernel
  obtain ⟨⟨result, es, cache⟩, hobserved, hmatch⟩ := Option.map_eq_some_iff.mp hseen
  obtain ⟨hmessage, hnames⟩ := Prod.mk.inj hmatch
  obtain ⟨log, hruns, _⟩ := Services.runs_of_observe hobserved
  cases result with
  | ok outputs =>
    have hempty : "" = callerFailure := hmessage
    exact absurd hempty (by decide +kernel)
  | error failure =>
    obtain ⟨r, _, _, _, hblock, hheard⟩ := perform_retries_silently rfl (.inl ⟨_, rfl⟩) hruns
    exact ⟨log, es, failure, r, hruns, hmessage, hnames, hblock, hheard⟩

end Agents
