import Agents.Proofs.Run.Transcript
import Agents.Run.Execution

/-! # What the work of a task consists of

Whatever the kind of an agent, the work of its task is a sequence of four things: it asks a query
of its own, it reports a piece of output, it runs a child and passes the child's events on, or it
runs a child in silence. A task that passes events on may add output of its own after each piece
of output that it sees, and at no other place. `Work` says so, and `process_work` says that each
of the six kinds of agents works in this way, however a run goes.

What an agent does is put together of these things (`TaskContext.Does`, `does_process`), so that
other things than `Work` can be shown of it part by part.
-/

namespace Agents

/-! ## Single steps -/

/-- A query that a task asks for its work; any other belongs to the begin or the end of a run. -/
def Query.IsOwn : Query → Prop
  | .agent _ | .newTask | .recall _ | .remember .. => False
  | _ => True

/-- A piece of output, token counts or a log line of a task. -/
def Event.IsOutputOf (id : TaskId) : Event → Prop
  | .chunk taskId .. | .usage taskId .. | .log taskId .. => taskId = id
  | _ => False

theorem Event.IsOutputOf.taskId_eq {id : TaskId} {e : Event} (h : e.IsOutputOf id) :
    e.taskId? = some id := by
  cases e <;> first | exact congrArg some h | exact h.elim

/-- The events of a child and what the task `id` makes of them: after each piece of output it may
put output of its own. -/
inductive Relayed (id : TaskId) : List Event → List Event → Prop
  | nil : Relayed id [] []
  | plain (event : Event) {es es' : List Event} :
      Relayed id es es' → Relayed id (event :: es) (event :: es')
  | chunk (taskId : TaskId) (assistantId : String) (delta : ChunkDelta)
      (respondAs : Option RespondAs) {own es es' : List Event} :
      (∀ e ∈ own, e.IsOutputOf id) → Relayed id es es' →
      Relayed id (.chunk taskId assistantId delta respondAs :: es)
        (.chunk taskId assistantId delta respondAs :: (own ++ es'))

/-- An exchange and events that the work of a task may consist of. -/
inductive Work (t : TaskContext) : List Exchange → List Event → Prop
  | nil : Work t [] []
  | exchange {x : Exchange} {log : List Exchange} {es : List Event} :
      x.query.IsOwn → Work t log es → Work t (x :: log) es
  | output {event : Event} {log : List Exchange} {es : List Event} :
      event.IsOutputOf t.emitter.taskId → Work t log es → Work t log (event :: es)
  | child {agentRef : String} {inputs : Json} {r : Except Error Json}
      {inner log : List Exchange} {said passed es : List Event} :
      Activity.Runs (t.runChild agentRef inputs).run inner said r →
      Relayed t.emitter.taskId said passed → Work t log es → Work t (inner ++ log) (passed ++ es)
  | silent {agentRef : String} {inputs : Json} {r : Except Error Json}
      {inner log : List Exchange} {said es : List Event} :
      Activity.Runs (t.runChild agentRef inputs).run inner said r →
      Work t log es → Work t (inner ++ log) es

theorem Relayed.refl (id : TaskId) (es : List Event) : Relayed id es es := by
  induction es with
  | nil => exact .nil
  | cons e rest ih => exact .plain e ih

namespace Work

variable {t : TaskContext} {α β : Type}

theorem append {log₁ log₂ : List Exchange} {es₁ es₂ : List Event} (h₁ : Work t log₁ es₁)
    (h₂ : Work t log₂ es₂) : Work t (log₁ ++ log₂) (es₁ ++ es₂) := by
  induction h₁ with
  | nil => exact h₂
  | exchange hx _ ih => exact .exchange hx ih
  | output he _ ih => exact .output he ih
  | child hrun hes _ ih =>
    rw [List.append_assoc, List.append_assoc]
    exact .child hrun hes ih
  | silent hrun _ ih =>
    rw [List.append_assoc]
    exact .silent hrun ih

theorem composable (t : TaskContext) : Activity.Composable (Work t) where
  nil := .nil
  append := append

theorem outputs {es : List Event} (h : ∀ e ∈ es, e.IsOutputOf t.emitter.taskId) : Work t [] es := by
  induction es with
  | nil => exact .nil
  | cons e rest ih =>
    have hrest := ih fun e he => h e (List.mem_cons_of_mem _ he)
    exact .output (h e List.mem_cons_self) hrest

end Work

/-! ## Output of an emitter -/

namespace TaskEmitter

variable {emitter : TaskEmitter}

theorem isOutputOf_emit {event : Event} (h : event.IsOutputOf emitter.taskId) :
    ∀ e ∈ emitter.emit event, e.IsOutputOf emitter.taskId := by
  intro e he
  unfold emit at he
  split at he
  · cases he
  · obtain rfl := List.mem_singleton.mp he
    exact h

theorem isOutputOf_chunk (delta : ChunkDelta) :
    ∀ e ∈ emitter.chunk delta, e.IsOutputOf emitter.taskId := isOutputOf_emit rfl

theorem isOutputOf_text (s : String) : ∀ e ∈ emitter.text s, e.IsOutputOf emitter.taskId := by
  intro e he
  unfold text at he
  split at he
  · cases he
  · exact isOutputOf_chunk _ e he

theorem isOutputOf_texts (pieces : List String) :
    ∀ e ∈ pieces.flatMap emitter.text, e.IsOutputOf emitter.taskId := by
  intro e he
  obtain ⟨piece, _, he⟩ := List.mem_flatMap.mp he
  exact isOutputOf_text piece e he

theorem isOutputOf_log (message : String) (now : Timestamp) :
    ∀ e ∈ emitter.log message now, e.IsOutputOf emitter.taskId := isOutputOf_emit rfl

theorem emit_of_muted (h : emitter.muted = true) (event : Event) : emitter.emit event = [] := by
  simp [emit, h]

theorem emit_of_not_muted (h : emitter.muted = false) (event : Event) :
    emitter.emit event = [event] := by simp [emit, h]

theorem text_of_muted (h : emitter.muted = true) (s : String) : emitter.text s = [] := by
  unfold text
  split
  · rfl
  · exact emit_of_muted h _

end TaskEmitter

/-! ## Children -/

/-- A way to pass on the events of a child: each is followed by output of the task itself, and
only a piece of output is followed by any; in silence nothing is left. -/
def PassesOn {ω : Type} (emitter : TaskEmitter) (step : ω → Event → List Event × ω) : Prop :=
  ∀ s event, ∃ own, (step s event).1 = emitter.emit event ++ own ∧
    (∀ e ∈ own, e.IsOutputOf emitter.taskId) ∧ (emitter.muted = true → own = []) ∧
    (own = [] ∨ ∃ taskId assistantId delta respondAs,
      event = .chunk taskId assistantId delta respondAs)

namespace PassesOn

variable {ω : Type} {emitter : TaskEmitter} {step : ω → Event → List Event × ω}

theorem silent (h : PassesOn emitter step) (hm : emitter.muted = true) (es : List Event) (s : ω) :
    (Activity.passAll step s es).1 = [] := by
  induction es generalizing s with
  | nil => rfl
  | cons event rest ih =>
    obtain ⟨own, hstep, _, hmuted, _⟩ := h s event
    show (step s event).1 ++ (Activity.passAll step (step s event).2 rest).1 = []
    rw [ih, hstep, hmuted hm, TaskEmitter.emit_of_muted hm]
    rfl

theorem relayed (h : PassesOn emitter step) (hm : emitter.muted = false) (es : List Event)
    (s : ω) : Relayed emitter.taskId es (Activity.passAll step s es).1 := by
  induction es generalizing s with
  | nil => exact .nil
  | cons event rest ih =>
    obtain ⟨own, hstep, hown, _, hchunk⟩ := h s event
    show Relayed _ _ ((step s event).1 ++ (Activity.passAll step (step s event).2 rest).1)
    rw [hstep, TaskEmitter.emit_of_not_muted hm]
    rcases hchunk with rfl | ⟨taskId, assistantId, delta, respondAs, rfl⟩
    · exact .plain event (ih _)
    · rw [List.append_assoc, List.singleton_append]
      exact .chunk taskId assistantId delta respondAs hown (ih _)

end PassesOn

theorem ChildWatch.chunk_of_observe {w : ChildWatch} {event : Event} {text : String}
    (h : (w.observe event).2 = some text) : ∃ taskId assistantId delta respondAs,
      event = .chunk taskId assistantId delta respondAs := by
  unfold observe at h
  split at h
  · split at h <;> cases h
  · exact ⟨_, _, _, _, rfl⟩
  · cases h

theorem passesOn_passOn (emitter : TaskEmitter) :
    PassesOn emitter (ScriptedLogic.passOn emitter) := by
  intro s event
  exact ⟨[], (List.append_nil _).symm, by simp, fun _ => rfl, .inl rfl⟩

theorem passesOn_repeatText (emitter : TaskEmitter) :
    PassesOn emitter (ScriptedLogic.repeatText emitter) := by
  intro w event
  cases hsaid : (w.observe event).2 with
  | none =>
    refine ⟨[], ?_, by simp, fun _ => rfl, .inl rfl⟩
    simp [ScriptedLogic.repeatText, hsaid]
  | some text =>
    refine ⟨emitter.text text, ?_, TaskEmitter.isOutputOf_text text,
      fun hm => TaskEmitter.text_of_muted hm text, .inr (ChildWatch.chunk_of_observe hsaid)⟩
    simp [ScriptedLogic.repeatText, hsaid]

theorem Composer.isOutputOf_add (c : Composer) (d : JsonDocument) (piece : String) :
    ∀ e ∈ (c.add d piece).1, e.IsOutputOf c.emitter.taskId := by
  intro e he
  change e ∈ (((d.append c.accepts piece).1).map c.emitter.object).getD [] at he
  cases hnew : (d.append c.accepts piece).1 with
  | none =>
    rw [hnew] at he
    cases he
  | some value =>
    rw [hnew] at he
    exact TaskEmitter.isOutputOf_chunk _ e he

theorem Composer.add_of_muted {c : Composer} (h : c.emitter.muted = true) (d : JsonDocument)
    (piece : String) : (c.add d piece).1 = [] := by
  show (((d.append c.accepts piece).1).map c.emitter.object).getD [] = []
  cases (d.append c.accepts piece).1 with
  | none => rfl
  | some value => exact TaskEmitter.emit_of_muted h _

theorem passesOn_observe (c : Composer) : PassesOn c.emitter c.observe := by
  intro s event
  cases hsaid : (s.1.observe event).2 with
  | none =>
    refine ⟨[], ?_, by simp, fun _ => rfl, .inl rfl⟩
    simp [Composer.observe, hsaid]
  | some text =>
    refine ⟨(c.add s.2 (JsonDocument.escapeFragment text)).1, ?_, c.isOutputOf_add _ _,
      fun hm => Composer.add_of_muted hm _ _, .inr (ChildWatch.chunk_of_observe hsaid)⟩
    simp [Composer.observe, hsaid]

/-! ## Building blocks -/

/-- The activity does the work of a task: it consists of queries and output of the task's own, and
of children whose events are passed on. -/
inductive TaskContext.Does (t : TaskContext) : {α : Type} → Activity α → Prop
  | pure {α : Type} (a : α) : Does t (Pure.pure a)
  | bind {α β : Type} {a : Activity α} {f : α → Activity β} :
      Does t a → (∀ x, Does t (f x)) → Does t (a >>= f)
  | query {q : Query} : q.IsOwn → Does t (Activity.query q)
  | reportAll {es : List Event} : (∀ e ∈ es, e.IsOutputOf t.emitter.taskId) →
      Does t (Activity.reportAll es)
  | runChild (agentRef : String) (inputs : Json) : Does t (t.runChild agentRef inputs).run
  | through {ω : Type} {emitter : TaskEmitter} {step : ω → Event → List Event × ω} :
      emitter.taskId = t.emitter.taskId → PassesOn emitter step → (s : ω) → (agentRef : String) →
      (inputs : Json) → Does t ((t.runChild agentRef inputs).run.through step s)

namespace TaskContext

variable {t : TaskContext} {α : Type}

theorem Does.compositional (t : TaskContext) : Activity.Compositional t.Does := ⟨.pure, .bind⟩

theorem Does.within {a : Activity α} (h : t.Does a) : Activity.Within (Work t) a := by
  have hL := Work.composable t
  induction h with
  | pure a => exact hL.within.pure a
  | bind _ _ iha ihf => exact hL.within.bind iha ihf
  | query hq =>
    intro log es r h
    obtain ⟨rfl, rfl⟩ := Activity.runs_query.mp h
    exact .exchange hq .nil
  | reportAll hes =>
    intro log es r h
    obtain ⟨rfl, rfl⟩ := Activity.runs_reportAll.mp h
    exact .outputs hes
  | runChild agentRef inputs =>
    intro log es r h
    have hwork : Work t (log ++ []) (es ++ []) := .child h (Relayed.refl _ es) .nil
    simpa using hwork
  | @through ω emitter step hid hstep s agentRef inputs =>
    intro log es r h
    obtain ⟨said, hchild, hpass⟩ := Activity.runs_through h
    have hes : (Activity.passAll step s said).1 = es := congrArg Prod.fst hpass
    cases hm : emitter.muted with
    | true =>
      rw [hstep.silent hm] at hes
      subst hes
      simpa using Work.silent hchild .nil
    | false =>
      have hrelayed := hstep.relayed hm said s
      rw [hes, hid] at hrelayed
      simpa using Work.child hchild hrelayed .nil

theorem does_report {es : List Event} (h : ∀ e ∈ es, e.IsOutputOf t.emitter.taskId) :
    t.Does (TaskContext.report es).run := (Does.compositional t).lift (.reportAll h)

theorem does_retry {attempt : Nat → Fallible α} (h : ∀ n, t.Does (attempt n).run) :
    t.Does (t.retry attempt).run := by
  have hL := Does.compositional t
  have hdeadline : t.Does t.isPastDeadline := by
    unfold isPastDeadline
    split
    · exact hL.pure _
    · exact hL.bind (Does.query trivial) fun _ =>
        hL.pure _
  -- the attempt that comes next varies with the number of those that remain
  suffices hfrom : ∀ remaining n,
      t.Does (Retry.runFrom t.definition.id t.isPastDeadline (fun n => (attempt n).run)
        remaining n) from hfrom _ 1
  intro remaining
  induction remaining with
  | zero =>
    intro n
    unfold Retry.runFrom
    refine hL.bind (h n) fun x => ?_
    cases x with
    | ok value => exact hL.pure _
    | error e =>
      dsimp only
      split <;> exact hL.pure _
  | succ remaining ih =>
    intro n
    unfold Retry.runFrom
    refine hL.bind (h n) fun x => ?_
    cases x with
    | ok value => exact hL.pure _
    | error e =>
      dsimp only
      split
      · exact hL.pure _
      · refine hL.bind hdeadline fun late => ?_
        split
        · exact hL.pure _
        · exact ih (n + 1)

end TaskContext

/-! ## The kinds of agents -/

open Activity Activity.Composable TaskContext

section Kinds

variable {t : TaskContext}

theorem does_validated (outputs : Json) : t.Does (t.validated outputs).run := by
  have hL := Does.compositional t
  unfold validated
  exact hL.andThen (hL.ofExcept _) fun _ =>
    hL.ok outputs

theorem does_memory : t.Does t.memory.run :=
  (Does.compositional t).mapOk Json.Fields.ofList
    (Does.query (q := .memory t.identity) trivial)

theorem does_callModel (messages : List ChatMessage) (settings : ModelSettings) :
    t.Does (callModel messages settings).run := Does.query trivial

theorem does_reportUsage (usage : Option Usage) : t.Does (t.reportUsage usage).run := by
  unfold reportUsage
  cases usage with
  | none => exact (Does.compositional t).ok ()
  | some u => exact does_report (TaskEmitter.isOutputOf_emit rfl)

namespace ModelPrompt

theorem does_prompt (spec : ModelPromptSpec) (inputs : Json) :
    t.Does (prompt t spec inputs).run :=
  (Does.compositional t).andThen does_memory fun _ => (Does.compositional t).ok _

theorem does_reportNarrative (attempt : Nat) (pieces : List String) :
    t.Does (reportNarrative t attempt pieces).run := by
  unfold reportNarrative
  split
  · exact does_report (TaskEmitter.isOutputOf_texts pieces)
  · exact (Does.compositional t).ok ()

theorem does_narrate (messages : List ChatMessage) (settings : ModelSettings) (attempt : Nat) :
    t.Does (narrate t messages settings attempt).run := by
  have hL := Does.compositional t
  refine hL.andThen (does_callModel messages settings) fun stream => ?_
  refine hL.andThen (does_reportNarrative attempt _) fun _ => ?_
  exact hL.ofExcept _

theorem does_structuredAttempt (messages : List ChatMessage) (settings : ModelSettings)
    (attempt : Nat) : t.Does (structuredAttempt t messages settings attempt).run := by
  have hL := Does.compositional t
  -- what follows is the same whether there is a narrative or not
  have hafter : ∀ narrative : Response, t.Does (do
      let schema := (OutputSchema.structured t.definition).jsonSchema
      let stream ← callModel messages { settings with responseSchema := some schema }
      let answer ← MonadExcept.ofExcept (Response.ofStream stream)
      t.reportUsage (Response.addUsage narrative.usage answer.usage)
      let fields ← MonadExcept.ofExcept (objectOf answer.text)
      return .obj (fillStreamed t.definition narrative.text fields) : Fallible Json).run := by
    intro narrative
    refine hL.andThen (does_callModel _ _) fun stream => ?_
    refine hL.andThen (hL.ofExcept _)
      fun answer => ?_
    refine hL.andThen (does_reportUsage _) fun _ => ?_
    refine hL.andThen (hL.ofExcept _)
      fun fields => ?_
    exact hL.ok _
  unfold structuredAttempt
  dsimp only
  split
  · exact hL.andThen (does_narrate messages settings attempt) hafter
  · exact hL.andThen (hL.ok _) hafter

theorem does_fencedAttempt (messages : List ChatMessage) (settings : ModelSettings)
    (attempt : Nat) : t.Does (fencedAttempt t messages settings attempt).run := by
  have hL := Does.compositional t
  refine hL.andThen (does_callModel _ _) fun stream => ?_
  refine hL.andThen (does_reportNarrative attempt _) fun _ => ?_
  refine hL.andThen (hL.ofExcept _)
    fun chunks => ?_
  refine hL.andThen (hL.ofExcept _)
    fun answer => ?_
  refine hL.andThen (does_reportUsage _) fun _ => ?_
  exact hL.ok _

theorem does_process (spec : ModelPromptSpec) (inputs : Json) :
    t.Does (process t spec inputs).run := by
  have hL := Does.compositional t
  refine hL.andThen (hL.ofExcept _)
    fun model => ?_
  refine hL.andThen (does_prompt spec inputs) fun messages => ?_
  refine does_retry fun attempt => ?_
  dsimp only
  split
  · exact hL.andThen (does_structuredAttempt _ _ attempt) does_validated
  · exact hL.andThen (does_fencedAttempt _ _ attempt) does_validated

end ModelPrompt

namespace Pipeline

theorem does_runGroups (groups : List (List PipelineStep)) (vars : Json.Fields) (last : Json) :
    t.Does (runGroups t vars last groups).run := by
  have hL := Does.compositional t
  induction groups generalizing vars last with
  | nil => exact hL.ok _
  | cons group rest ih =>
    have hgroup : t.Does (runGroup t vars group).run := by
      refine hL.mapM (fun step => ?_) group
      exact hL.andThen (Does.runChild _ _) fun _ =>
        hL.ok _
    exact hL.andThen hgroup fun outputs => ih _ _

theorem does_process (spec : PipelineSpec) (inputs : Json) :
    t.Does (process t spec inputs).run :=
  (Does.compositional t).andThen (does_runGroups _ _ _) fun _ => does_validated _

end Pipeline

namespace Decision

theorem does_choose (spec : DecisionSpec) (inputs : Json) :
    t.Does (choose t spec inputs).run := by
  have hL := Does.compositional t
  refine hL.andThen (hL.ofExcept _) fun _ => ?_
  refine does_retry fun attempt => ?_
  refine hL.andThen (does_callModel _ _) fun stream => ?_
  refine hL.andThen (hL.ofExcept _)
    fun answer => ?_
  refine hL.andThen (does_reportUsage _) fun _ => ?_
  exact hL.ofExcept _

theorem does_process (spec : DecisionSpec) (inputs : Json) :
    t.Does (process t spec inputs).run := by
  have hL := Does.compositional t
  refine hL.andThen (does_choose spec inputs) fun chosen => ?_
  split
  · exact hL.ok _
  · refine hL.andThen (Does.runChild _ _) fun outputs => ?_
    exact hL.andThen (does_validated _) fun _ => hL.ok _

end Decision

namespace HttpApi

theorem does_endpointOf (ref : EndpointRef) : t.Does (endpointOf t ref).run := by
  have hL := Does.compositional t
  cases ref with
  | inline e => exact hL.ok e
  | named name =>
    show t.Does (endpointNamed t name).run
    unfold endpointNamed
    split
    · exact hL.ok _
    · refine hL.andThen (Does.query (q := .endpoint name) trivial) fun found => ?_
      split
      · exact hL.ok _
      · exact hL.throw _

theorem does_process (spec : HttpApiSpec) (inputs : Json) :
    t.Does (process t spec inputs).run := by
  have hL := Does.compositional t
  refine hL.andThen (does_endpointOf _) fun endpoint => ?_
  refine hL.andThen (hL.ofExcept _)
    fun request => ?_
  refine does_retry fun attempt => ?_
  refine hL.andThen (Does.query (q := .http request) trivial) fun response => ?_
  refine hL.andThen (hL.ofExcept _) fun _ => ?_
  exact does_validated _

end HttpApi

namespace ImageGeneration

theorem does_process (spec : ImageGenerationSpec) (inputs : Json) :
    t.Does (process t spec inputs).run := by
  have hL := Does.compositional t
  have hrest : t.Does (do
      let prompt := Template.renderText (t.scope inputs (← t.memory)) spec.prompt
      let images ← ExceptT.mk
        (Activity.query (.images prompt (t.settings spec.model) (max spec.count 1)))
      report (t.emitter.images images)
      t.validated (outputsOf t.definition images) : Fallible Json).run := by
    refine hL.andThen does_memory fun memory => ?_
    refine hL.andThen (Does.query trivial) fun images => ?_
    refine hL.andThen
      (does_report (TaskEmitter.isOutputOf_chunk _)) fun _ => ?_
    exact does_validated _
  unfold process
  dsimp only
  split
  · exact hL.andThen (hL.throw _) fun _ => hrest
  · exact hrest

end ImageGeneration

namespace ScriptedLogic

theorem serve_of {granted : CapabilitySet} {α : Type} {P : {α : Type} → Activity α → Prop}
    (hP : Compositional P) {handle : Script.HostCall → Activity (Option (Except Error Json))}
    (hhandle : ∀ call, P (handle call)) (timeout : Error)
    (i : Script.Interaction granted α) : P (i.serve handle timeout) := by
  induction i with
  | done result => exact hP.pure _
  | notify request rest ih =>
    unfold Script.Interaction.serve
    refine hP.bind (hhandle request.val) fun answer => ?_
    cases answer with
    | none => exact hP.pure _
    | some _ => exact ih
  | call request resume ih =>
    unfold Script.Interaction.serve
    refine hP.bind (hhandle request.val) fun answer => ?_
    cases answer with
    | none => exact hP.pure _
    | some answer => exact ih answer

theorem run_of {P : {α : Type} → Activity α → Prop} (hP : Compositional P)
    {handle : Script.HostCall → Activity (Option (Except Error Json))}
    (hhandle : ∀ call, P (handle call)) (l : SandboxLimits) (code : String)
    (arguments : Json.Fields) : P (Script.run l code arguments handle) := by
  unfold Script.run
  split
  · exact hP.pure _
  · split
    · exact hP.pure _
    · exact hP.bind (serve_of hP hhandle _ _) fun _ => hP.pure _

theorem within_run {L : List Exchange → List Event → Prop} (hL : Composable L)
    {handle : Script.HostCall → Activity (Option (Except Error Json))}
    (hhandle : ∀ call, Within L (handle call)) (l : SandboxLimits) (code : String)
    (arguments : Json.Fields) : Within L (Script.run l code arguments handle) :=
  run_of hL.within hhandle l code arguments

theorem does_runAgent {emitter : TaskEmitter} (hid : emitter.taskId = t.emitter.taskId)
    (agent : String) (inputs : Json) (relayText : Bool) :
    t.Does (runAgent t emitter agent inputs relayText).run := by
  have hL := Does.compositional t
  unfold runAgent
  dsimp only
  split
  · exact hL.andThen (hL.mapOk _ (hL.lift
      (Does.through hid (passesOn_repeatText emitter) _ agent inputs))) hL.ofExcept
  · exact hL.andThen (hL.mapOk _ (hL.lift
      (Does.through hid (passesOn_passOn emitter) _ agent inputs))) hL.ofExcept

theorem does_write {c : Composer} (hid : c.emitter.taskId = t.emitter.taskId) (d : JsonDocument)
    (piece : String) : t.Does (c.write d piece).run := by
  have hL := Does.compositional t
  refine hL.andThen (does_report fun e he => ?_) fun _ => hL.ok _
  exact hid ▸ c.isOutputOf_add d piece e he

theorem does_addPart {c : Composer} (hid : c.emitter.taskId = t.emitter.taskId)
    (d : JsonDocument) (part : Script.DocumentPart) : t.Does (c.addPart t d part).run := by
  have hL := Does.compositional t
  cases part with
  | raw text => exact does_write hid d text
  | value value => exact does_write hid d value.compact
  | agent agent inputs =>
    refine hL.andThen (does_write hid d _) fun d => ?_
    refine hL.andThen
      (hL.lift (Does.through hid (passesOn_observe c) _ agent inputs)) fun found => ?_
    refine hL.andThen (hL.ofExcept _) fun _ => ?_
    exact does_write hid _ _

theorem does_answer {emitter : TaskEmitter} (hid : emitter.taskId = t.emitter.taskId)
    (call : Script.HostCall) : t.Does (answer t emitter call).run := by
  have hL := Does.compositional t
  cases call with
  | log message =>
    refine hL.andThen (hL.lift (Does.query (q := .clock) trivial)) fun now => ?_
    refine hL.andThen (does_report fun e he => ?_) fun _ => hL.ok _
    exact hid ▸ TaskEmitter.isOutputOf_log message now e he
  | fetch method url body =>
    refine hL.andThen (hL.ofExcept _) fun _ => ?_
    exact hL.andThen (Does.query (q := .http _) trivial) fun _ => hL.ok _
  | runAgent agent inputs relayText => exact does_runAgent hid agent inputs relayText
  | renderJson parts =>
    refine hL.andThen (hL.foldlM (fun d part => ?_) parts _) fun d => ?_
    · exact does_addPart hid d part
    · exact hL.ofExcept _

theorem does_readStream (attempt : Nat) (path : String) (items : Stream Json) :
    t.Does (readStream t attempt path items).run := by
  have hL := Does.compositional t
  have hcollect : ∀ f : List Json → Json,
      t.Does (do return f (← MonadExcept.ofExcept items.collect) : Fallible Json).run := fun f =>
    hL.andThen (hL.ofExcept _) fun _ => hL.ok _
  unfold readStream
  split
  · dsimp only
    split
    · exact hL.andThen (does_report (TaskEmitter.isOutputOf_texts _)) fun _ =>
        hcollect fun values => .str (String.join (values.map Json.valueText))
    · exact hcollect fun values => .str (String.join (values.map Json.valueText))
  · exact hcollect .arr

theorem does_readStreams (attempt : Nat) (paths : List String) (value : Json)
    (relay : Script.Relay) : t.Does (readStreams t attempt value relay paths).run := by
  have hL := Does.compositional t
  induction paths generalizing value relay with
  | nil => exact hL.ok value
  | cons path rest ih =>
    exact hL.andThen (does_readStream attempt path _) fun held => ih _ _

theorem does_process (spec : ScriptSpec) (inputs : Json) :
    t.Does (process t spec inputs).run := by
  have hL := Does.compositional t
  refine does_retry fun attempt => ?_
  have hid : (if attempt = 1 then t.emitter else t.emitter.mute).taskId = t.emitter.taskId := by
    split <;> rfl
  refine hL.andThen (run_of hL (fun call => ?_) _ _ _) fun outcome => ?_
  · exact hL.map _ (does_answer hid call)
  · exact hL.andThen (does_readStreams attempt _ _ _) does_validated

end ScriptedLogic

end Kinds

/-- Every task does the work of a task, whatever the kind of its agent. -/
theorem does_process (t : TaskContext) (inputs : Json) : t.Does (t.process inputs).run := by
  have hL := Does.compositional t
  unfold process
  split
  · exact hL.mapOk _ (ModelPrompt.does_process _ inputs)
  · exact hL.mapOk _ (ScriptedLogic.does_process _ inputs)
  · exact hL.mapOk _ (Pipeline.does_process _ inputs)
  · exact Decision.does_process _ inputs
  · exact hL.mapOk _ (HttpApi.does_process _ inputs)
  · exact hL.mapOk _ (ImageGeneration.does_process _ inputs)

/-- The work of every task is `Work`, whatever the kind of its agent and however it goes. -/
theorem process_work (t : TaskContext) (inputs : Json) : Within (Work t) (t.process inputs).run :=
  (does_process t inputs).within

end Agents
