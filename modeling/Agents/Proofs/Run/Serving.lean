import Agents.Proofs.Run.Silence
import Agents.Proofs.Script.Failure

/-! # Scripts that are served by activities

The host of a script answers each call by an activity of its own, with its exchange and its events.
`Interaction.Talks` holds of a script and one way it may go with such a host: the calls as they were
served, and the result. A run of the whole is nothing but these calls, one after another
(`Interaction.runs_serve`).

- An attempt of a script asks for nothing but what its calls do (`ScriptedLogic.attempt_serves`).
- After a call that failed the script faces the failure (`Script.told_of_talks`).
-/

namespace Agents

open Activity Activity.Composable Script

structure ServedCall (granted : CapabilitySet) where
  request : GrantedCall granted
  /-- Whether the script waits for the answer. -/
  isWaited : Bool
  answer : Except Error Json
  log : List Exchange
  events : List Event

def ServedCall.Ran {granted : CapabilitySet} (host : HostCall → Fallible Json)
    (c : ServedCall granted) : Prop :=
  Runs (host c.request.val).run c.log c.events c.answer

namespace Script

variable {granted : CapabilitySet} {α : Type} {host : HostCall → Fallible Json}

namespace Interaction

/-- One way a script may go with a host: the calls as they were served, and the result. -/
inductive Talks (host : HostCall → Fallible Json) :
    Interaction granted α → List (ServedCall granted) → α → Prop
  | done (a : α) : Talks host (.done a) [] a
  | notify {c : ServedCall granted} {rest : Interaction granted α} {calls : List (ServedCall granted)}
      {a : α} : c.isWaited = false → c.Ran host → Talks host rest calls a →
      Talks host (.notify c.request rest) (c :: calls) a
  | call {c : ServedCall granted} {resume : Except Error Json → Interaction granted α}
      {calls : List (ServedCall granted)} {a : α} : c.isWaited = true → c.Ran host →
      Talks host (resume c.answer) calls a → Talks host (.call c.request resume) (c :: calls) a

theorem Talks.ran {i : Interaction granted α} {calls : List (ServedCall granted)} {a : α}
    (h : Talks host i calls a) : ∀ c ∈ calls, c.Ran host := by
  induction h with
  | done a => exact List.forall_mem_nil _
  | notify _ hran _ ih => exact List.forall_mem_cons.mpr ⟨hran, ih⟩
  | call _ hran _ ih => exact List.forall_mem_cons.mpr ⟨hran, ih⟩

/-- A script that is served goes one of its ways, and what is exchanged and reported is what its
calls exchange and report. -/
theorem runs_serve {timeout : Error} {i : Interaction granted α} {log : List Exchange}
    {es : List Event} {r : Except Error α}
    (h : Runs (i.serve (fun c => some <$> (host c).run) timeout) log es r) :
    ∃ calls a, Talks host i calls a ∧ r = .ok a ∧ log = calls.flatMap ServedCall.log ∧
      es = calls.flatMap ServedCall.events := by
  induction i generalizing log es with
  | done a =>
    obtain ⟨rfl, rfl, rfl⟩ := runs_pure.mp h
    exact ⟨[], a, .done a, rfl, rfl, rfl⟩
  | notify request rest ih =>
    unfold serve at h
    obtain ⟨log₁, es₁, _, log₂, es₂, rfl, rfl, hcall, hrest⟩ := runs_bind.mp h
    obtain ⟨answer, hran, rfl⟩ := runs_map.mp hcall
    obtain ⟨calls, a, htalks, rfl, rfl, rfl⟩ := ih hrest
    exact ⟨⟨request, false, answer, log₁, es₁⟩ :: calls, a,
      .notify (c := ⟨request, false, answer, log₁, es₁⟩) rfl hran htalks, rfl, rfl, rfl⟩
  | call request resume ih =>
    unfold serve at h
    obtain ⟨log₁, es₁, _, log₂, es₂, rfl, rfl, hcall, hrest⟩ := runs_bind.mp h
    obtain ⟨answer, hran, rfl⟩ := runs_map.mp hcall
    obtain ⟨calls, a, htalks, rfl, rfl, rfl⟩ := ih answer hrest
    exact ⟨⟨request, true, answer, log₁, es₁⟩ :: calls, a,
      .call (c := ⟨request, true, answer, log₁, es₁⟩) rfl hran htalks, rfl, rfl, rfl⟩

/-- What is left of a script after a call that failed faces the failure. -/
theorem Talks.faces {setting : Setting} {told : Error → α → Prop} {i : Interaction granted α}
    {calls before after : List (ServedCall granted)} {c : ServedCall granted} {a : α} {e : Error}
    (h : Talks host i calls a) (hheeds : i.Heeds setting told)
    (hcalls : calls = before ++ c :: after) (hwaited : c.isWaited = true)
    (hplain : c.request.isComparison = false) (hanswer : c.answer = .error e) :
    ∃ j, Faces setting told e j ∧ Talks host j after a := by
  induction h generalizing before with
  | done a => simp at hcalls
  | notify hfirst hran hrest ih =>
    cases before with
    | nil =>
      obtain ⟨rfl, rfl⟩ := List.cons.inj hcalls
      cases hfirst.symm.trans hwaited
    | cons first before => exact ih hheeds (List.cons.inj hcalls).2
  | call hfirst hran hrest ih =>
    cases before with
    | nil =>
      obtain ⟨rfl, rfl⟩ := List.cons.inj hcalls
      exact ⟨_, hheeds.2 hplain e, hanswer ▸ hrest⟩
    | cons first before => exact ih (hheeds.1 _) (List.cons.inj hcalls).2

end Interaction

/-! ## Runs -/

theorem run_eq_serve {m : Type → Type} [Monad m] [LawfulMonad m] (l : SandboxLimits) (code : String)
    (arguments : Json.Fields) (handle : HostCall → m (Option (Except Error Json))) :
    run l code arguments handle =
      (·.bind id) <$> (opened l code arguments).serve handle (timeExceeded l) := by
  unfold run opened
  cases checkImports code l.allowedModules with
  | error e => simp [Interaction.serve, Except.bind]
  | ok found =>
    by_cases hlarge : l.memoryLimitBytes < fieldsBinarySize arguments
    · simp [hlarge, Interaction.serve, Except.bind]
    · simp [hlarge]

/-- A script was told of an exception: it has ended with it, or a handler goes on that is shown its
name and its message. -/
inductive Told {granted : CapabilitySet} (host : HostCall → Fallible Json) (e : Exception) :
    List (ServedCall granted) → Except Error Outcome → Prop
  | ended : Told host e [] (.error (.script ⟨e, []⟩))
  | caught {calls : List (ServedCall granted)} {outcome : Except Error Outcome} {setting : Setting}
      {fuel : Nat} {name : Option String} {handler : List Stmt} {s : State}
      {next : Except Signal Value × State → Interaction granted (Except Error Outcome)} :
      Interaction.Talks host (((Eval.handling setting fuel name handler
        (.object [("message", .string e.message), ("name", .string e.name)])).run.run s).bind next)
        calls outcome → Told host e calls outcome

/-- After a call that failed in a way that a script may catch, unless it was made to compare items,
the script has been told. -/
theorem told_of_talks {l : SandboxLimits} {code : String} {arguments : Json.Fields}
    {calls before after : List (ServedCall l.capabilitySet)} {c : ServedCall l.capabilitySet}
    {outcome : Except Error Outcome} {e : Error}
    (h : (opened l code arguments).Talks host calls outcome) (hcalls : calls = before ++ c :: after)
    (hwaited : c.isWaited = true) (hplain : c.request.isComparison = false)
    (hanswer : c.answer = .error e) (hcatch : e.isCatchable = true) :
    Told host ⟨e.kind, e.message⟩ after outcome := by
  obtain ⟨setting, hheeds⟩ := heeds_opened l code arguments
  obtain ⟨j, hfaces, hrest⟩ := h.faces hheeds hcalls hwaited hplain hanswer
  cases hfaces with
  | raises hended =>
    cases hrest
    have huncaught : uncaught e = .script ⟨⟨e.kind, e.message⟩, []⟩ := if_pos hcatch
    rw [hended, huncaught]
    exact .ended
  | catches fuel name handler s next _ => exact .caught hrest

end Script

/-! ## Attempts -/

def Unasking (log : List Exchange) (_ : List Event) : Prop := log = []

theorem Unasking.composable : Composable Unasking where
  nil := rfl
  append := by
    rintro _ _ _ _ rfl rfl
    rfl

namespace ScriptedLogic

variable {t : TaskContext}

theorem unasking_readStream (n : Nat) (path : String) (items : Stream Json) :
    Within Unasking (readStream t n path items).run := by
  have hL := Unasking.composable
  have hcollect (f : List Json → Json) : Within Unasking
      (do return f (← MonadExcept.ofExcept items.collect) : Fallible Json).run :=
    hL.within.andThen (hL.within.ofExcept _) fun _ => hL.within.ok _
  have hreport (es : List Event) : Within Unasking (TaskContext.report es).run :=
    within_lift fun log es r h => (runs_reportAll.mp h).1
  unfold readStream
  split
  · dsimp only
    split
    · exact hL.within.andThen (hreport _) fun _ =>
        hcollect fun values => .str (String.join (values.map Json.valueText))
    · exact hcollect fun values => .str (String.join (values.map Json.valueText))
  · exact hcollect .arr

theorem unasking_readStreams (n : Nat) (paths : List String) (value : Json) (relay : Relay) :
    Within Unasking (readStreams t n value relay paths).run := by
  have hL := Unasking.composable
  induction paths generalizing value relay with
  | nil => exact hL.within.ok value
  | cons path rest ih =>
    exact hL.within.andThen (unasking_readStream n path _) fun held => ih _ _

/-- The emitter of an attempt: only the first one is heard. -/
def emitterOf (t : TaskContext) (n : Nat) : TaskEmitter :=
  if n = 1 then t.emitter else t.emitter.mute

def script (t : TaskContext) (spec : ScriptSpec) (inputs : Json) :
    Interaction t.engine.config.sandbox.capabilitySet (Except Error Outcome) :=
  opened t.engine.config.sandbox spec.source (inputFields inputs)

/-- An attempt asks for what the calls of the script do, and for nothing else; what it reports
after them are the streams that it reads. -/
theorem attempt_serves {spec : ScriptSpec} {inputs : Json} {n : Nat} {log : List Exchange}
    {es : List Event} {r : Except Error Json}
    (h : Runs (attempt t spec inputs n).run log es r) :
    ∃ calls outcome drained,
      (script t spec inputs).Talks (answer t (emitterOf t n)) calls outcome ∧
      log = calls.flatMap ServedCall.log ∧ es = calls.flatMap ServedCall.events ++ drained := by
  have hscript {log : List Exchange} {es : List Event} {r : Except Error Outcome}
      (hrun : Runs (run t.engine.config.sandbox spec.source (inputFields inputs)
        fun c => some <$> (answer t (emitterOf t n) c).run) log es r) :
      ∃ calls outcome, (script t spec inputs).Talks (answer t (emitterOf t n)) calls outcome ∧
        log = calls.flatMap ServedCall.log ∧ es = calls.flatMap ServedCall.events := by
    rw [run_eq_serve] at hrun
    obtain ⟨_, hserve, _⟩ := runs_map.mp hrun
    obtain ⟨calls, outcome, htalks, _, hlog, hes⟩ := Interaction.runs_serve hserve
    exact ⟨calls, outcome, htalks, hlog, hes⟩
  have hafter (outcome : Outcome) : Within Unasking (do
      t.validated (← readStreams t n outcome.value { channel := outcome.relay }
        (streamPaths outcome.value)) : Fallible Json).run := by
    have hL := Unasking.composable
    refine hL.within.andThen (unasking_readStreams n _ _ _) fun outputs => ?_
    exact hL.within.andThen (hL.within.ofExcept _) fun _ => hL.within.ok _
  rcases runs_andThen.mp h with
    ⟨_, _, hrun⟩ | ⟨log₁, es₁, outcome, log₂, drained, rfl, rfl, hrun, hrest⟩
  · obtain ⟨calls, outcome, htalks, hlog, hes⟩ := hscript hrun
    exact ⟨calls, outcome, [], htalks, hlog, by rw [hes, List.append_nil]⟩
  · obtain rfl : log₂ = [] := hafter outcome hrest
    obtain ⟨calls, outcome, htalks, hlog, hes⟩ := hscript hrun
    exact ⟨calls, outcome, drained, htalks, by rw [List.append_nil, hlog], by rw [hes]⟩

theorem runs_attempt {spec : ScriptSpec} {inputs : Json} {n : Nat} {log : List Exchange}
    {es : List Event} {r : Except Error Json}
    (h : Runs (attempt t spec inputs n).run log es r) :
    ∃ calls outcome, (script t spec inputs).Talks (answer t (emitterOf t n)) calls outcome ∧
      log = calls.flatMap ServedCall.log := by
  obtain ⟨calls, outcome, _, htalks, hlog, _⟩ := attempt_serves h
  exact ⟨calls, outcome, htalks, hlog⟩

end ScriptedLogic

end Agents
