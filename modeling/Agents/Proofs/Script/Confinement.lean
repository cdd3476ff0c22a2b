import Agents.Proofs.Script.Conversation

/-! # Scripts are confined to their capabilities

A function that reaches the host is there only if its capability was granted, so each of its calls
is one of that capability (`Eval.makes_native`). A call carries the proof of that through the rest
of the evaluation. What the host receives in a run are the calls on one path through the script, in
order; so all of them are of granted capabilities, and without any there are none (`run_confined`).
-/

namespace Agents.Script

variable {granted : CapabilitySet} {α β σ : Type}

def functionsOf : Capability → List String
  | .log => ["log", "print", "debug"]
  | .http => ["fetch"]
  | .runAgent => ["run_agent"]
  | .json => ["json"]

/-- All calls in an interaction, whatever is answered, are of this kind. -/
def Interaction.Makes (P : HostCall → Prop) : Interaction granted α → Prop
  | .done _ => True
  | .notify request rest => P request.val ∧ rest.Makes P
  | .call request resume => P request.val ∧ ∀ answer, (resume answer).Makes P

theorem Interaction.Makes.bind {P : HostCall → Prop} {i : Interaction granted α} (h : i.Makes P)
    {f : α → Interaction granted β} (hf : ∀ a, (f a).Makes P) : (i.bind f).Makes P := by
  induction i with
  | done a => exact hf a
  | notify request rest ih => exact ⟨h.1, ih h.2⟩
  | call request resume ih => exact ⟨h.1, fun answer => ih answer (h.2 answer)⟩

namespace Eval

/-- All calls of an evaluation are of this kind, in whatever state it begins. -/
def Makes (P : HostCall → Prop) (x : Eval granted α) : Prop := ∀ s, (x.run.run s).Makes P

variable {P : HostCall → Prop}

theorem makes_bind {x : Eval granted α} {f : α → Eval granted β} (hx : Makes P x)
    (hf : ∀ a, Makes P (f a)) : Makes P (x >>= f) := by
  intro s
  rw [run_bind]
  refine (hx s).bind fun r => ?_
  obtain ⟨outcome, s⟩ := r
  cases outcome with
  | ok a => exact hf a s
  | error signal => trivial

theorem makes_pure (a : α) : Makes P (pure a : Eval granted α) := fun _ => trivial

theorem makes_ofExcept (x : Except Fault α) : Makes P (ofExcept x : Eval granted α) := by
  cases x <;> exact fun _ => trivial

theorem makes_call {request : GrantedCall granted} (h : P request.val) :
    Makes P (call request) := by
  refine fun s => ⟨h, fun answer => ?_⟩
  cases answer <;> trivial

theorem makes_report {text : String} (h : P (.log text)) :
    Makes P (report text : Eval granted Unit) := by
  unfold report
  split
  · exact fun s => ⟨h, trivial⟩
  · exact makes_pure ()

theorem mem_functionsOf {name : String} {arguments : List Value} {c : HostCall}
    (h : HostCall.ofFunction? name arguments = some c) : name ∈ functionsOf c.capability := by
  unfold HostCall.ofFunction? at h
  split at h <;> cases h <;> simp [functionsOf, HostCall.capability]

theorem makes_native (name : String) (arguments : List Value) :
    Makes (fun c => name ∈ functionsOf c.capability)
      (native name arguments : Eval granted (Option Effect)) := by
  have hlog {name text : String} (h : name ∈ ["log", "print", "debug"]) :
      name ∈ functionsOf (HostCall.log text).capability := h
  unfold native
  extract_lets other
  have hother (u : Unit) : Makes (fun c => name ∈ functionsOf c.capability) (other u) := by
    unfold other
    split
    · split <;> exact makes_pure _
    iterate 3 exact makes_bind (fun _ => trivial) fun _ => makes_pure _
    iterate 4 exact makes_bind (makes_report (hlog (by simp))) fun _ => makes_pure _
    split
    · exact makes_bind (makes_ofExcept _) fun _ => makes_pure _
    · exact makes_pure _
  split
  · next c hc =>
    split
    · exact makes_bind (makes_call (mem_functionsOf hc)) fun _ => makes_pure _
    · exact hother ()
  · exact hother ()

end Eval

/-- Whatever a script does and its host answers, the host receives the calls that the script makes,
in order, and all of them are of capabilities that were granted; each function makes those of its
own. Without capabilities there is no call. -/
theorem run_confined (l : SandboxLimits) (code : String) (arguments : Json.Fields)
    (handle : Host σ) (s : σ) :
    (run l code arguments handle.recording ([], s)).2.1 =
      (conversation l code arguments handle s).map (·.request.val) ∧
    (∀ c ∈ (run l code arguments handle.recording ([], s)).2.1,
      c.capability ∈ l.capabilities) ∧
    (run { l with capabilities := [] } code arguments handle.recording ([], s)).2.1 = [] ∧
    ∀ name values, Eval.Makes (fun c => name ∈ functionsOf c.capability)
      (Eval.native name values : Eval l.capabilitySet (Option Effect)) := by
  have hgranted (l : SandboxLimits) :
      ∀ c ∈ (run l code arguments handle.recording ([], s)).2.1,
        c.capability ∈ l.capabilities := by
    rw [run_recording]
    intro c hc
    obtain ⟨t, -, rfl⟩ := List.mem_map.mp hc
    exact List.contains_iff_mem.mp t.request.isGranted
  refine ⟨by rw [run_recording], hgranted l, ?_, Eval.makes_native⟩
  exact List.eq_nil_iff_forall_not_mem.mpr fun c hc => List.not_mem_nil (hgranted _ c hc)

end Agents.Script
