import Agents.Proofs.Run.Together
import Mathlib.Data.List.SplitBy

/-! # Steps in order

Turns do not matter where there are none (`Overlap.process_inOrder`), and where no two neighbouring
steps of a pipeline are concurrent (`Overlap.process_of_isSequential`).
-/

namespace Agents

open Activity

theorem Pipeline.runGroupIn_inOrder (t : TaskContext) (left : Nat) :
    runGroupIn .inOrder t left = runGroup t := by
  funext vars group
  change (group.map (runStep t vars)).mapM id = group.mapM (runStep t vars)
  rw [List.mapM_map]
  rfl

theorem Overlap.process_inOrder : inOrder.process = TaskContext.process := by
  funext t inputs
  unfold process
  split
  · next spec hkind =>
    have hgroup : Pipeline.runGroupIn .inOrder t = fun _ => Pipeline.runGroup t :=
      funext (Pipeline.runGroupIn_inOrder t)
    rw [hgroup, TaskContext.process, hkind]
    rfl
  · rfl

/-- A run whose tasks overlap nowhere is the run that executes one task after another. -/
theorem Engine.executeWith_inOrder (e : Engine) :
    e.executeWith Overlap.inOrder.process = e.execute := by
  rw [Overlap.process_inOrder]
  rfl

/-- No two neighbouring steps are concurrent. -/
def PipelineSpec.IsSequential (spec : PipelineSpec) : Prop :=
  spec.steps.IsChain fun a b => ¬ (a.concurrent && b.concurrent) = true

/-- The agent is no pipeline with neighbouring concurrent steps. -/
def Definition.IsSequential (d : Definition) : Prop :=
  ∀ spec, d.kind = .pipeline spec → spec.IsSequential

theorem Activity.upTo_bind {α : Type} (stop : Step → Bool) (a : Activity α) :
    (a.upTo stop).bind id = a := by
  induction a with
  | done result => rfl
  | report event rest ih =>
    unfold upTo
    split
    · rfl
    · exact congrArg (Activity.report event) ih
  | ask query resume ih =>
    refine congrArg (Activity.ask query) (funext fun answer => ?_)
    dsimp only
    split
    · rfl
    · exact ih answer
  | tooDeep => rfl

theorem together_singleton {α : Type} (turns : List Turn) (run : Fallible α) :
    together turns [run] = [run].mapM id := by
  induction turns generalizing run with
  | nil => rfl
  | cons turn turns ih =>
    unfold together
    split
    · exact ih run
    next only honly =>
    obtain ⟨hturn, hrun⟩ : turn.run = 0 ∧ run = only := by
      obtain ⟨hlt, hget⟩ := List.getElem?_eq_some_iff.mp honly
      have hzero : turn.run = 0 := by simpa using hlt
      simp only [hzero] at hget
      exact ⟨hzero, hget⟩
    subst hrun
    rw [hturn]
    -- the turn, and then what it left, is the whole run
    calc
      _ = (ExceptT.lift (run.run.upTo turn.stop) >>= fun rest => [ExceptT.mk rest].mapM id :
            Fallible (List α)) := by
        refine bind_congr fun rest => ?_
        split
        · rfl
        · exact ih _
      _ = [run].mapM id := by
        refine ExceptT.ext (run_liftThen.trans ?_)
        show (run.run.upTo turn.stop).bind (fun rest => rest.bind _) = run.run.bind _
        conv_rhs => rw [← run.run.upTo_bind turn.stop, bind_assoc]
        rfl

namespace Pipeline

theorem eq_singleton_of_isSequential {spec : PipelineSpec} (h : spec.IsSequential)
    {group : List PipelineStep} (hgroup : group ∈ groups spec.steps) : ∃ step, group = [step] := by
  match group, hgroup with
  | [], hgroup => exact absurd rfl (List.ne_nil_of_mem_splitBy hgroup)
  | [step], _ => exact ⟨step, rfl⟩
  | a :: b :: rest, hgroup =>
    -- the two would be neighbours among all steps
    have hpart : (a :: b :: rest) <:+: spec.steps := by
      obtain ⟨before, after, hsplit⟩ := List.append_of_mem hgroup
      have hall : (groups spec.steps).flatten = spec.steps := List.flatten_splitBy _ _
      rw [← hall, hsplit]
      exact ⟨before.flatten, after.flatten, by simp⟩
    have hboth := List.isChain_of_mem_splitBy hgroup
    have hnone := h.infix hpart
    rw [List.isChain_cons_cons] at hboth hnone
    exact absurd hboth.1 hnone.1

end Pipeline

/-- Without neighbouring concurrent steps the turns do not matter. -/
theorem Overlap.process_of_isSequential (overlap : Overlap) {t : TaskContext}
    (h : t.definition.IsSequential) : overlap.process t = t.process := by
  rw [← Overlap.process_inOrder]
  funext inputs
  unfold process
  split
  · next spec hkind =>
    have hgroups (groups : List (List PipelineStep)) (hgroups : groups ⊆ Pipeline.groups spec.steps)
        (vars : Json.Fields) (last : Json) :
        Pipeline.runGroupsWith (Pipeline.runGroupIn overlap t) vars last groups =
          Pipeline.runGroupsWith (Pipeline.runGroupIn .inOrder t) vars last groups := by
      induction groups generalizing vars last with
      | nil => rfl
      | cons group rest ih =>
        obtain ⟨hgroup, hrest⟩ := List.cons_subset.mp hgroups
        obtain ⟨step, rfl⟩ := Pipeline.eq_singleton_of_isSequential (h spec hkind) hgroup
        have hone (left : Nat) : Pipeline.runGroupIn overlap t left vars [step] =
            Pipeline.runGroupIn .inOrder t left vars [step] :=
          (together_singleton _ _).trans (together_singleton _ _).symm
        unfold Pipeline.runGroupsWith
        simp only [hone, ih hrest]
    unfold Pipeline.processWith
    rw [hgroups _ (List.Subset.refl _)]
  · rfl

end Agents
