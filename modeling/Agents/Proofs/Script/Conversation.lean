import Agents.Script.Session

/-! # Conversations of scripts with their host

A script that runs is a tree of calls, of which the answers of the host choose one path. The turns
on that path are its conversation (`Interaction.turns`); those are the calls that the host receives,
in order, and nothing else (`Interaction.serve_recording`).
-/

namespace Agents.Script

variable {granted : CapabilitySet} {α β σ : Type}

/-- A host that answers from its state, and may not answer at all. -/
abbrev Host (σ : Type) := HostCall → StateM σ (Option (Except Error Json))

def Host.recording (handle : Host σ) : Host (List HostCall × σ) := fun c s =>
  ((handle c s.2).1, s.1 ++ [c], (handle c s.2).2)

structure Turn (granted : CapabilitySet) where
  request : GrantedCall granted
  /-- Whether the script goes on with the answer. -/
  isWaited : Bool
  /-- Nothing if the host gave none. -/
  answer : Option (Except Error Json)

namespace Interaction

theorem bind_done (i : Interaction granted α) : i.bind .done = i := by
  induction i with
  | done result => rfl
  | call request resume ih => simp only [bind, ih]
  | notify request rest ih => simp only [bind, ih]

theorem bind_assoc {γ : Type} (i : Interaction granted α) (f : α → Interaction granted β)
    (g : β → Interaction granted γ) : (i.bind f).bind g = i.bind fun a => (f a).bind g := by
  induction i with
  | done result => rfl
  | call request resume ih => simp only [bind, ih]
  | notify request rest ih => simp only [bind, ih]

instance : LawfulMonad (Interaction granted) :=
  LawfulMonad.mk' (Interaction granted) bind_done (fun _ _ => rfl) bind_assoc

def turns (handle : Host σ) : Interaction granted α → σ → List (Turn granted)
  | .done _, _ => []
  | .notify request rest, s =>
    match handle request.val s with
    | (none, _) => [⟨request, false, none⟩]
    | (some answer, s) => ⟨request, false, some answer⟩ :: rest.turns handle s
  | .call request resume, s =>
    match handle request.val s with
    | (none, _) => [⟨request, true, none⟩]
    | (some answer, s) => ⟨request, true, some answer⟩ :: (resume answer).turns handle s

section Serving

variable (handle : Host σ) (timeout : Error) (s : σ)

/-- What comes after a call goes on with the answer, and from where the host is then. -/
theorem asking (c : HostCall) (next : Option (Except Error Json) → StateM σ β) :
    (handle c >>= next) s = next (handle c s).1 (handle c s).2 := rfl

theorem serve_done (a : α) :
    (done a : Interaction granted α).serve handle timeout s = (.ok a, s) := rfl

theorem serve_call (request : GrantedCall granted)
    (resume : Except Error Json → Interaction granted α) :
    (call request resume).serve handle timeout s =
      match handle request.val s with
      | (none, s) => (.error timeout, s)
      | (some answer, s) => (resume answer).serve handle timeout s := by
  rw [serve, asking]
  cases handle request.val s with
  | mk answer s => cases answer <;> rfl

theorem serve_notify (request : GrantedCall granted) (rest : Interaction granted α) :
    (notify request rest).serve handle timeout s =
      match handle request.val s with
      | (none, s) => (.error timeout, s)
      | (some _, s) => rest.serve handle timeout s := by
  rw [serve, asking]
  cases handle request.val s with
  | mk answer s => cases answer <;> rfl

end Serving

theorem serve_recording (handle : Host σ) (timeout : Error) (i : Interaction granted α)
    (log : List HostCall) (s : σ) :
    i.serve handle.recording timeout (log, s) =
      ((i.serve handle timeout s).1, log ++ (i.turns handle s).map (·.request.val),
        (i.serve handle timeout s).2) := by
  induction i generalizing log s with
  | done a => simp only [serve_done, turns, List.map_nil, List.append_nil]
  | call request resume ih =>
    rw [serve_call, serve_call, turns, Host.recording]
    cases handle request.val s with
    | mk answer s =>
      cases answer with
      | none => rfl
      | some answer => simp only [ih, List.map_cons, List.append_assoc, List.singleton_append]
  | notify request rest ih =>
    rw [serve_notify, serve_notify, turns, Host.recording]
    cases handle request.val s with
    | mk answer s =>
      cases answer with
      | none => rfl
      | some answer => simp only [ih, List.map_cons, List.append_assoc, List.singleton_append]

end Interaction

/-! ## Evaluation -/

/-- What comes after an evaluation is attached to each of its ends. -/
theorem Eval.run_bind (x : Eval granted α) (f : α → Eval granted β) (s : State) :
    (x >>= f).run.run s = (x.run.run s).bind fun r =>
      match r.1 with
      | .ok a => (f a).run.run r.2
      | .error signal => .done (.error signal, r.2) := by
  refine congrArg (Interaction.bind (x.run.run s)) (funext fun r => ?_)
  obtain ⟨outcome, s⟩ := r
  cases outcome <;> rfl

/-! ## Runs -/

/-- A script from its start, or its end if it may not start. -/
def opened (l : SandboxLimits) (code : String) (arguments : Json.Fields) :
    Interaction l.capabilitySet (Except Error Outcome) :=
  match checkImports code l.allowedModules with
  | .error e => .done (.error e)
  | .ok _ =>
    if l.memoryLimitBytes < fieldsBinarySize arguments then .done (.error (memoryExceeded l))
    else start l code arguments

theorem run_eq (l : SandboxLimits) (code : String) (arguments : Json.Fields) (handle : Host σ)
    (s : σ) : run l code arguments handle s =
      (((opened l code arguments).serve handle (timeExceeded l) s).1.bind id,
        ((opened l code arguments).serve handle (timeExceeded l) s).2) := by
  unfold run opened
  cases checkImports code l.allowedModules with
  | error e => rfl
  | ok found =>
    by_cases hlarge : l.memoryLimitBytes < fieldsBinarySize arguments
    · simp only [if_pos hlarge]
      rfl
    · simp only [if_neg hlarge]
      rfl

def conversation (l : SandboxLimits) (code : String) (arguments : Json.Fields) (handle : Host σ)
    (s : σ) : List (Turn l.capabilitySet) := (opened l code arguments).turns handle s

/-- What a host receives in a run are the calls of the turns, in order. -/
theorem run_recording (l : SandboxLimits) (code : String) (arguments : Json.Fields)
    (handle : Host σ) (s : σ) : run l code arguments handle.recording ([], s) =
      ((run l code arguments handle s).1,
        (conversation l code arguments handle s).map (·.request.val),
        (run l code arguments handle s).2) := by
  rw [run_eq, run_eq, Interaction.serve_recording, List.nil_append]
  rfl

end Agents.Script
