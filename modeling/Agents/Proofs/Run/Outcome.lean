import Agents.Proofs.Run.Course
import Agents.Run.Overlap

/-! # What a task ends with

A task that ends well ends in one of two ways. Its outputs meet the full schema of its agent, or it
is a decision that selected a case without a successor, and its outputs are the empty object. Which
of the two it is can be read off the exchange: the choice of a decision is the first part of its
work (`TaskContext.ChoseToStop`).
-/

namespace Agents

open Activity

/-! ## Values -/

/-- Whatever value the activity ends with, it is of this kind. -/
def Yields {α : Type} (P : α → Prop) (x : Fallible α) : Prop :=
  ∀ ⦃log es v⦄, Runs x.run log es (.ok v) → P v

section Values

variable {α β : Type} {P : α → Prop}

theorem yields_andThen {x : Fallible β} {f : β → Fallible α} (h : ∀ b, Yields P (f b)) :
    Yields P (x >>= f) := by
  intro log es v hrun
  rcases runs_andThen.mp hrun with ⟨e, hv, _⟩ | ⟨log₁, es₁, b, log₂, es₂, _, _, _, hf⟩
  · cases hv
  · exact h b hf

theorem yields_ofExcept {x : Except Error α} (h : ∀ v, x = .ok v → P v) :
    Yields P (MonadExcept.ofExcept x : Fallible α) := by
  intro log es v hrun
  obtain ⟨_, _, hv⟩ := runs_ofExcept.mp hrun
  exact h v hv.symm

/-- The value of a retried activity is the value of one attempt. -/
theorem yields_retry {t : TaskContext} {attempt : Nat → Fallible α}
    (h : ∀ n, Yields P (attempt n)) : Yields P (t.retry attempt) := by
  suffices hfrom : ∀ remaining n {log es v}, Runs (Retry.runFrom t.definition.id t.isPastDeadline
      (fun n => (attempt n).run) remaining n) log es (.ok v) → P v from
    fun log es v hrun => hfrom _ 1 hrun
  intro remaining
  induction remaining with
  | zero =>
    intro n log es v hrun
    unfold Retry.runFrom at hrun
    obtain ⟨log₁, es₁, x, log₂, es₂, rfl, rfl, hattempt, hrest⟩ := runs_bind.mp hrun
    cases x with
    | ok value =>
      obtain ⟨_, _, hv⟩ := runs_pure.mp hrest
      cases hv
      exact h n hattempt
    | error e =>
      dsimp only at hrest
      split at hrest
      · obtain ⟨_, _, hv⟩ := runs_pure.mp hrest
        cases hv
      · obtain ⟨_, _, hv⟩ := runs_pure.mp hrest
        cases hv
  | succ remaining ih =>
    intro n log es v hrun
    unfold Retry.runFrom at hrun
    obtain ⟨log₁, es₁, x, log₂, es₂, rfl, rfl, hattempt, hrest⟩ := runs_bind.mp hrun
    cases x with
    | ok value =>
      obtain ⟨_, _, hv⟩ := runs_pure.mp hrest
      cases hv
      exact h n hattempt
    | error e =>
      dsimp only at hrest
      split at hrest
      · obtain ⟨_, _, hv⟩ := runs_pure.mp hrest
        cases hv
      -- a failure that may pass: one more attempt, unless it is too late for that
      · obtain ⟨log₃, es₃, late, log₄, es₄, rfl, rfl, _, hlast⟩ := runs_bind.mp hrest
        split at hlast
        · obtain ⟨_, _, hv⟩ := runs_pure.mp hlast
          cases hv
        · exact ih (n + 1) hlast

end Values

/-! ## Outputs -/

namespace TaskContext

/-- The outputs meet the full schema of the task's agent. -/
def Accepts (t : TaskContext) (outputs : Json) : Prop :=
  t.engine.verifier.accepts (.full t.definition) outputs = true

/-- The work of the task was a choice, and the chosen case has no successor. -/
def ChoseToStop (t : TaskContext) (inputs : Json) (log : List Exchange) : Prop :=
  ∃ (spec : DecisionSpec) (chosen : DecisionCase) (choosing rest : List Exchange)
    (said : List Event), t.definition.kind = .decision spec ∧ log = choosing ++ rest ∧
    Runs (Decision.choose t spec inputs).run choosing said (.ok chosen) ∧ chosen ∈ spec.cases ∧
    (chosen.stop = true ∨ chosen.agent = none)

variable {t : TaskContext}

theorem yields_validated (outputs : Json) : Yields t.Accepts (t.validated outputs) := by
  intro log es v hrun
  rcases runs_andThen.mp hrun with ⟨e, hv, _⟩ | ⟨log₁, es₁, _, log₂, es₂, _, _, hcheck, hret⟩
  · cases hv
  obtain ⟨_, _, hvalid⟩ := runs_ofExcept.mp hcheck
  obtain ⟨_, _, hv⟩ := runs_ok.mp hret
  cases hv
  exact (t.engine.verifier.ensure_eq_ok_iff _ _).mp hvalid.symm

end TaskContext

open TaskContext

section Kinds

variable {t : TaskContext} {inputs : Json}

theorem ModelPrompt.yields_process (spec : ModelPromptSpec) :
    Yields t.Accepts (ModelPrompt.process t spec inputs) := by
  refine yields_andThen fun model => yields_andThen fun messages => yields_retry fun attempt => ?_
  dsimp only
  split
  · exact yields_andThen yields_validated
  · exact yields_andThen yields_validated

theorem ScriptedLogic.yields_process (spec : ScriptSpec) :
    Yields t.Accepts (ScriptedLogic.process t spec inputs) := by
  refine yields_retry fun attempt => yields_andThen fun outcome => ?_
  exact yields_andThen yields_validated

theorem Pipeline.yields_processWith (spec : PipelineSpec)
    (runGroup : Nat → Json.Fields → List PipelineStep → Fallible (List (String × Json))) :
    Yields t.Accepts (Pipeline.processWith t runGroup spec inputs) :=
  yields_andThen fun _ => yields_validated _

theorem HttpApi.yields_process (spec : HttpApiSpec) :
    Yields t.Accepts (HttpApi.process t spec inputs) := by
  refine yields_andThen fun endpoint => yields_andThen fun request => yields_retry fun attempt => ?_
  exact yields_andThen fun response => yields_andThen fun _ => yields_validated _

theorem ImageGeneration.yields_process (spec : ImageGenerationSpec) :
    Yields t.Accepts (ImageGeneration.process t spec inputs) := by
  have hrest : Yields t.Accepts (do
      let prompt := Template.renderText (t.scope inputs (← t.memory)) spec.prompt
      let images ← ExceptT.mk
        (Activity.query (.images prompt (t.settings spec.model) (max spec.count 1)))
      report (t.emitter.images images)
      t.validated (outputsOf t.definition images)) :=
    yields_andThen fun memory => yields_andThen fun images => yields_andThen fun _ =>
      yields_validated _
  unfold process
  dsimp only
  split
  · exact yields_andThen fun _ => hrest
  · exact hrest

namespace Decision

theorem mem_of_caseNamed? {cases : List DecisionCase} {name : String} {c : DecisionCase}
    (h : caseNamed? cases name = some c) : c ∈ cases := List.mem_of_find?_eq_some h

theorem mem_of_caseOfCall? {cases : List DecisionCase} {call : ToolCall} {c : DecisionCase}
    (h : caseOfCall? cases call = some c) : c ∈ cases := by
  unfold caseOfCall? at h
  dsimp only at h
  by_cases hname : call.name ≠ selectTool
  · rw [if_pos hname] at h
    cases h
  · rw [if_neg hname] at h
    split at h
    all_goals
      obtain ⟨arguments, _, h₁⟩ := Option.bind_eq_some_iff.mp h
      obtain ⟨member, _, h₂⟩ := Option.bind_eq_some_iff.mp h₁
      obtain ⟨name, _, h₃⟩ := Option.bind_eq_some_iff.mp h₂
      exact mem_of_caseNamed? h₃

/-- Folding with a choice between the best so far and the next gives one of the candidates. -/
theorem mem_of_foldl {choose : Option DecisionCase → DecisionCase → Option DecisionCase}
    (hchoose : ∀ best c, choose best c = best ∨ choose best c = some c) {c : DecisionCase} :
    ∀ (found : List DecisionCase) (best : Option DecisionCase),
      found.foldl choose best = some c → best = some c ∨ c ∈ found := by
  intro found
  induction found with
  | nil => exact fun best hbest => .inl hbest
  | cons d rest ih =>
    intro best hbest
    rcases ih _ hbest with hstep | hrest
    · rcases hchoose best d with hold | hnew
      · exact .inl (hold.symm.trans hstep)
      · cases hnew.symm.trans hstep
        exact .inr List.mem_cons_self
    · exact .inr (List.mem_cons_of_mem _ hrest)

theorem mem_of_caseWithin? {cases : List DecisionCase} {text : String} {c : DecisionCase}
    (h : caseWithin? cases text = some c) : c ∈ cases := by
  unfold caseWithin? at h
  have hmem := mem_of_foldl (by
    intro best d
    cases best with
    | none => exact .inr rfl
    | some b =>
      dsimp only
      split
      · exact .inl rfl
      · exact .inr rfl) _ _ h
  rcases hmem with hnone | hmem
  · cases hnone
  · exact (List.mem_filter.mp hmem).1

theorem mem_of_select {cases : List DecisionCase} {answer : Response} {c : DecisionCase}
    (h : select cases answer = .ok c) : c ∈ cases := by
  unfold select at h
  split at h
  · next d hselected =>
    cases h
    simp only [select?, Option.orElse_eq_orElse, Option.orElse_eq_or, Option.or_eq_some_iff]
      at hselected
    rcases hselected with hcalls | ⟨_, hnamed | ⟨_, hwithin⟩⟩
    · obtain ⟨call, _, hcall'⟩ := List.exists_of_findSome?_eq_some hcalls
      exact mem_of_caseOfCall? hcall'
    · exact mem_of_caseNamed? hnamed
    · exact mem_of_caseWithin? hwithin
  · cases h

theorem yields_choose (spec : DecisionSpec) : Yields (· ∈ spec.cases) (choose t spec inputs) := by
  refine yields_andThen fun _ => yields_retry fun attempt => yields_andThen fun deltas => ?_
  refine yields_andThen fun answer => yields_andThen fun _ => ?_
  exact yields_ofExcept fun c hc => mem_of_select hc

theorem successor?_eq_none_iff {c : DecisionCase} :
    successor? c = none ↔ c.stop = true ∨ c.agent = none := by
  unfold successor?
  split <;> simp_all

/-- A decision whose case has no successor is done with the empty object. -/
theorem runs_process_of_stop {spec : DecisionSpec} {chosen : DecisionCase}
    {choosing rest : List Exchange} {said es : List Event} {r : Except Error TaskResult}
    (hchoose : Runs (choose t spec inputs).run choosing said (.ok chosen))
    (hstop : successor? chosen = none)
    (h : Runs (process t spec inputs).run (choosing ++ rest) es r) :
    r = .ok ⟨.obj [], true⟩ := by
  rcases runs_andThen.mp h with ⟨e, rfl, hfailed⟩ | ⟨log₁, es₁, c, log₂, es₂, hlog, rfl, hc, hrest⟩
  · have hlog : choosing ++ rest = (choosing ++ rest) ++ [] := (List.append_nil _).symm
    obtain ⟨_, _, hv⟩ := hchoose.unique hfailed hlog
    cases hv
  · obtain ⟨_, _, hv⟩ := hchoose.unique hc hlog
    cases hv
    rw [hstop] at hrest
    obtain ⟨_, _, hr⟩ := runs_ok.mp hrest
    exact hr

theorem process_outcome {spec : DecisionSpec} {log : List Exchange} {es : List Event}
    {result : TaskResult} (h : Runs (process t spec inputs).run log es (.ok result)) :
    (∃ chosen choosing rest said, log = choosing ++ rest ∧
      Runs (choose t spec inputs).run choosing said (.ok chosen) ∧ successor? chosen = none ∧
      result = ⟨.obj [], true⟩) ∨ (result.stopped = false ∧ t.Accepts result.outputs) := by
  rcases runs_andThen.mp h with ⟨e, hv, _⟩ | ⟨log₁, es₁, c, log₂, es₂, hlog, rfl, hc, hrest⟩
  · cases hv
  cases hnext : successor? c with
  | none =>
    rw [hnext] at hrest
    obtain ⟨_, _, hr⟩ := runs_ok.mp hrest
    cases hr
    exact .inl ⟨c, log₁, log₂, es₁, hlog, hc, hnext, rfl⟩
  | some agent =>
    rw [hnext] at hrest
    rcases runs_andThen.mp hrest with
      ⟨e, hv, _⟩ | ⟨log₃, es₃, outputs, log₄, es₄, rfl, rfl, _, hrest'⟩
    · cases hv
    rcases runs_andThen.mp hrest' with
      ⟨e, hv, _⟩ | ⟨log₅, es₅, checked, log₆, es₆, rfl, rfl, hcheck, hret⟩
    · cases hv
    obtain ⟨_, _, hr⟩ := runs_ok.mp hret
    cases hr
    exact .inr ⟨rfl, yields_validated outputs hcheck⟩

end Decision

end Kinds

/-! ## How a task ends -/

section Ends

variable {t : TaskContext} {inputs : Json} {log : List Exchange} {es : List Event}

theorem runs_ofOutputs {x : Fallible Json} {result : TaskResult}
    (h : Runs (TaskResult.ofOutputs <$> x).run log es (.ok result)) :
    result.stopped = false ∧ Runs x.run log es (.ok result.outputs) := by
  rw [map_eq_pure_bind] at h
  rcases runs_andThen.mp h with ⟨e, hv, _⟩ | ⟨log₁, es₁, v, log₂, es₂, rfl, rfl, hx, hret⟩
  · cases hv
  obtain ⟨rfl, rfl, hr⟩ := runs_ok.mp hret
  cases hr
  exact ⟨rfl, by simpa [TaskResult.ofOutputs] using hx⟩

/-- A task that ends well chose to stop, or its outputs meet the schema of its agent. -/
theorem process_outcome {result : TaskResult}
    (h : Runs (t.process inputs).run log es (.ok result)) :
    (t.ChoseToStop inputs log ∧ result = ⟨.obj [], true⟩) ∨
      (result.stopped = false ∧ t.Accepts result.outputs) := by
  unfold TaskContext.process at h
  split at h
  · obtain ⟨hstopped, hrun⟩ := runs_ofOutputs h
    exact .inr ⟨hstopped, ModelPrompt.yields_process _ hrun⟩
  · obtain ⟨hstopped, hrun⟩ := runs_ofOutputs h
    exact .inr ⟨hstopped, ScriptedLogic.yields_process _ hrun⟩
  · obtain ⟨hstopped, hrun⟩ := runs_ofOutputs h
    exact .inr ⟨hstopped, Pipeline.yields_processWith _ _ hrun⟩
  · next spec hkind =>
    rcases Decision.process_outcome h with
      ⟨c, choosing, rest, said, hlog, hchoose, hnext, hresult⟩ | haccepted
    · exact .inl ⟨⟨spec, c, choosing, rest, said, hkind, hlog, hchoose,
        Decision.yields_choose spec hchoose, Decision.successor?_eq_none_iff.mp hnext⟩, hresult⟩
    · exact .inr haccepted
  · obtain ⟨hstopped, hrun⟩ := runs_ofOutputs h
    exact .inr ⟨hstopped, HttpApi.yields_process _ hrun⟩
  · obtain ⟨hstopped, hrun⟩ := runs_ofOutputs h
    exact .inr ⟨hstopped, ImageGeneration.yields_process _ hrun⟩

/-- The same holds however the steps of a pipeline overlap. -/
theorem Overlap.process_outcome {overlap : Overlap} {result : TaskResult}
    (h : Runs (overlap.process t inputs).run log es (.ok result)) :
    (t.ChoseToStop inputs log ∧ result = ⟨.obj [], true⟩) ∨
      (result.stopped = false ∧ t.Accepts result.outputs) := by
  unfold process at h
  split at h
  · obtain ⟨hstopped, hrun⟩ := runs_ofOutputs h
    exact .inr ⟨hstopped, Pipeline.yields_processWith _ _ hrun⟩
  · exact Agents.process_outcome h

theorem result_of_choseToStop {r : Except Error TaskResult}
    (h : Runs (t.process inputs).run log es r) (hstop : t.ChoseToStop inputs log) :
    r = .ok ⟨.obj [], true⟩ := by
  obtain ⟨spec, c, choosing, rest, said, hkind, rfl, hchoose, _, hlast⟩ := hstop
  unfold TaskContext.process at h
  rw [hkind] at h
  exact Decision.runs_process_of_stop hchoose (Decision.successor?_eq_none_iff.mpr hlast) h

namespace TaskRun

theorem phase_eq_stop_iff {r : TaskRun} (h : r.Ran) :
    r.phase = .stop ↔ r.context.ChoseToStop r.inputs r.log := by
  constructor
  · intro hphase
    unfold phase at hphase
    cases hresult : r.result with
    | error e =>
      rw [hresult] at hphase
      cases hphase
    | ok result =>
      rw [hresult] at hphase
      unfold Ran RanAs at h
      rw [hresult] at h
      rcases process_outcome h with ⟨hstop, _⟩ | ⟨hstopped, _⟩
      · exact hstop
      · simp [TaskResult.phase, hstopped] at hphase
  · intro hstop
    have hresult : r.result = .ok ⟨.obj [], true⟩ := result_of_choseToStop h hstop
    unfold phase
    rw [hresult]
    rfl

/-- Every other task ends as finished, whether it failed or not. -/
theorem phase_eq_finish_or_stop (r : TaskRun) : r.phase = .finish ∨ r.phase = .stop := by
  unfold phase
  cases r.result with
  | error e => exact .inl rfl
  | ok result =>
    unfold TaskResult.phase
    dsimp only
    split
    · exact .inr rfl
    · exact .inl rfl

end TaskRun

end Ends

end Agents
