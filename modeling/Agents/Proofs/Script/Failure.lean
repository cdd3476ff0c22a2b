import Agents.Proofs.Script.Heeding

/-! # No part of a script takes a failure away

Every expression and statement keeps the failures of its calls, by induction on the depth of the
recursion: if all evaluations at one depth do, so do those at the next one (`Eval.Heeding`). The
only place where a failure is looked at and not passed on is the handler of a `try`, which an error
that may not be caught does not reach (`Eval.heeds_handled`, `Eval.faces_handled`). The comparisons
of `sort` and `dedup` are left out: there a failure of any kind is lost.

So a run ends at once with an error that may not be caught, and the host receives no other call
(`run_faces`). What compares items does not keep to that (`failure_lost_in_sort`,
`failure_lost_in_dedup`).
-/

namespace Agents.Script

variable {σ : Type}

namespace Eval

variable {granted : CapabilitySet} {setting : Setting} {fuel : Nat}

/-- All evaluations at one depth of the recursion face the failures of their calls. -/
structure Heeding (granted : CapabilitySet) (setting : Setting) (fuel : Nat) : Prop where
  expr : ∀ e, Heeds setting (expr setting fuel e : Eval granted Value)
  chain : ∀ root links assignment,
    Heeds setting (chain setting fuel root links assignment : Eval granted Value)
  callMethod : ∀ location v name arguments,
    Heeds setting (callMethod setting fuel location v name arguments : Eval granted Value)
  callNamed : ∀ levels name receiver arguments, HeedsAs setting ReturnTells
    (callNamed setting fuel levels name receiver arguments : Eval granted Returned)
  callOther : ∀ name receiver arguments,
    Heeds setting (callOther setting fuel name receiver arguments : Eval granted Effect)
  callValue : ∀ levels f receiver arguments, HeedsAs setting ReturnTells
    (callValue setting fuel levels f receiver arguments : Eval granted Returned)
  block : ∀ body, Heeds setting (block setting fuel body : Eval granted Value)
  stmt : ∀ s, Heeds setting (stmt setting fuel s : Eval granted Value)

theorem heeds_callMethod (h : Heeding granted setting fuel) (location v name arguments) :
    Heeds setting (callMethod setting (fuel + 1) location v name arguments : Eval granted Value) := by
  unfold callMethod
  refine heeds_bind heeds_count fun _ => ?_
  split
  · exact heedsAs_bind (h.callValue _ _ _ _) heeds_returned passes_returned
  · exact heeds_pure _
  · exact heeds_pure _
  extract_lets isOwn
  refine heedsAs_bind (heeds_borrowing (?_ : HeedsAs setting ReturnTells _) location)
    (fun outcome => ?_) ?_
  · split
    · exact h.callValue _ _ _ _
    · split
      · exact h.callValue _ _ _ _
      · exact h.callNamed _ _ _ _
    · exact h.callNamed _ _ _ _
  · extract_lets give isOther
    have hgive (u : Unit) : Heeds setting (give u) := heeds_returned outcome
    split
    · split
      · extract_lets check
        have hcheck (u : Unit) : Heeds setting (check u) := by
          unfold check
          split
          · exact heeds_bind (heeds_ensureSize _) hgive
          · exact hgive ()
        split
        · exact heeds_raiseIf_then _ hcheck
        · exact heeds_bind (heeds_writeAt _ _) hcheck
      · exact hgive ()
    · exact hgive ()
  · intro outcome e he s
    match outcome, location with
    | (.error r, _), none => exact .raises he
    | (.error r, none), some l => exact .raises he
    | (.error r, some changed), some ⟨root, true, path⟩ => exact .raises he
    | (.error r, some changed), some ⟨root, false, path⟩ =>
      refine (calm_writeAt _ changed).faces (fun _ s' => ?_) s
      exact .raises he

theorem heeds_expr (h : Heeding granted setting fuel) (e : Expr) :
    Heeds setting (expr setting (fuel + 1) e : Eval granted Value) := by
  have hvalues (es : List Expr) :
      Heeds setting (es.mapM (expr setting fuel) : Eval granted (List Value)) :=
    heeds_mapM h.expr es
  have hsized (v : Value) :
      Heeds setting (do ensureSize setting.limits v; return v : Eval granted Value) :=
    heeds_bind (heeds_ensureSize v) fun _ => heeds_pure v
  unfold expr
  refine heeds_bind heeds_count fun _ => ?_
  match e with
  | .literal l => exact heeds_pure _
  | .variable name => exact heeds_read _ _
  | .receiver =>
    refine heeds_bind heeds_get fun s => ?_
    split
    · exact heeds_pure _
    · exact heeds_raise _
  | .text parts =>
    exact heeds_foldlM (fun text part => heeds_bind (h.expr part) fun v => hsized _) parts _
  | .array items => exact heeds_bind (hvalues items) fun vs => hsized _
  | .object members =>
    refine heeds_bind (heeds_mapM (fun member => ?_) members) fun vs => hsized _
    exact heeds_bind (h.expr member.2) fun v => heeds_pure _
  | .unary op e => exact heeds_bind (h.expr e) fun v => heeds_ofExcept _
  | .binary op a b =>
    exact heeds_bind (h.expr a) fun v => heeds_bind (h.expr b) fun w =>
      heeds_bind (heeds_ofExcept _) hsized
  | .both a b =>
    refine heeds_bind (h.expr a) fun v => heeds_bind (heeds_ofBool v) fun c => ?_
    split
    · exact heeds_bind (h.expr b) fun v => heeds_bind (heeds_ofBool v) fun c => heeds_pure _
    · exact heeds_pure _
  | .either a b =>
    refine heeds_bind (h.expr a) fun v => heeds_bind (heeds_ofBool v) fun c => ?_
    split
    · exact heeds_pure _
    · exact heeds_bind (h.expr b) fun v => heeds_bind (heeds_ofBool v) fun c => heeds_pure _
  | .orElse a b =>
    refine heeds_bind (h.expr a) fun v => ?_
    split
    · exact h.expr b
    · exact heeds_pure _
  | .call name arguments =>
    refine heeds_bind (hvalues arguments) fun vs => ?_
    split
    · exact heedsAs_bind (h.callValue _ _ _ _) heeds_returned passes_returned
    · exact heeds_pure _
    · exact heeds_pure _
    · exact heeds_pure _
    · exact heeds_bind (heeds_find? _) fun x => heeds_pure _
    · exact heeds_pure _
    · split
      · exact heedsAs_bind (h.callNamed _ _ _ _) heeds_returned passes_returned
      · refine heeds_bind (heeds_changeable? arguments) fun x => ?_
        split
        · refine heeds_bind (h.callOther _ _ _) fun effect => ?_
          split
          · exact heeds_bind (heeds_write _ _) fun _ =>
              heeds_bind (heeds_ensureSize _) fun _ => heeds_pure _
          · exact heeds_pure _
        · exact heeds_bind (h.callOther _ _ _) fun effect => heeds_pure _
  | .moduleCall module function arguments =>
    exact heeds_bind (hvalues arguments) fun vs => heeds_callModule _ _ vs
  | .moduleVariable module name =>
    refine heeds_bind heeds_get fun s => ?_
    split <;> exact heeds_raise _
  | .chain root links => exact h.chain root links none
  | .closure captures parameters body =>
    exact heeds_bind (heeds_mapM heeds_capture captures) fun cells => heeds_pure _
  | .statement s => exact h.stmt s

theorem heeds_chain (h : Heeding granted setting fuel) (root : Expr) (links : List Link)
    (assignment : Option (Option BinaryOp × Value)) :
    Heeds setting (chain setting (fuel + 1) root links assignment : Eval granted Value) := by
  have hfollow (p : Option Location × Value) (accesses : List Access) :
      Heeds setting (follow setting.limits (callMethod setting fuel) assignment p.1 p.2 accesses :
        Eval granted Value) :=
    heeds_follow h.callMethod assignment p.1 p.2 accesses
  unfold chain
  refine heeds_bind (heeds_mapM (fun link => ?_) links) fun accesses => ?_
  · split
    · exact heeds_pure _
    · exact heeds_bind (h.expr _) fun i => heeds_pure _
    · exact heeds_bind (heeds_mapM h.expr _) fun vs => heeds_pure _
  · extract_lets next
    have hnext (p : Option Location × Value) : Heeds setting (next p) := hfollow p accesses
    split
    · next found hroot => exact heeds_bind (heeds_rootOf hroot) hnext
    · exact heeds_bind (h.expr root) fun v => heeds_bind (heeds_pure _) hnext

theorem heeds_callNamed (h : Heeding granted setting fuel) (levels : Nat) (name : String)
    (receiver : Option Value) (arguments : List Value) : HeedsAs setting ReturnTells
      (callNamed setting (fuel + 1) levels name receiver arguments : Eval granted Returned) := by
  unfold callNamed
  split
  · exact heeds_invoke (h.block _) _ _ _ _ _
  · exact heeds_bind (h.callOther _ _ _) fun effect => heeds_pure _

theorem heeds_callOther (h : Heeding granted setting fuel) (name : String)
    (receiver : Option Value) (arguments : List Value) :
    Heeds setting (callOther setting (fuel + 1) name receiver arguments : Eval granted Effect) := by
  unfold callOther
  split
  · next items g bound closure rest _ =>
    extract_lets f visit give fold compare
    have hvisit (item : Value) (i : Nat) : Heeds setting (visit item i) := by
      have hgive (r : Returned) : Heeds setting
          (do return (← returned r, r.2.getD item) : Eval granted (Value × Value)) :=
        heeds_bind (heeds_returned r) fun v => heeds_pure _
      unfold visit
      dsimp only
      split <;> exact heedsAs_bind (h.callValue _ _ _ _) hgive
        (passes_returned.bind fun _ => passes_silent)
    have hfold (result item : Value) (i : Nat) : Heeds setting (fold result item i) := by
      unfold fold
      split <;> exact heedsAs_bind (h.callValue _ _ _ _) heeds_returned passes_returned
    have hcompare (a b : Value) : Heeds setting (compare a b) := by
      refine heeds_bind (heeds_observe_comparing _) fun outcome => ?_
      split
      · exact heeds_pure _
      · exact heeds_throw _
      · exact heeds_throw _
      · exact heeds_pure _
      · exact heeds_pure _
      · exact heeds_throw _
    split
    · next run hrun =>
      exact heeds_bind (heeds_run? hvisit hfold hcompare hrun) fun effect => heeds_pure _
    · exact heeds_callNative _ _ _
  · exact heeds_callNative _ _ _

theorem heeds_callValue (h : Heeding granted setting fuel) (levels : Nat) (f : Value)
    (receiver : Option Value) (arguments : List Value) : HeedsAs setting ReturnTells
      (callValue setting (fuel + 1) levels f receiver arguments : Eval granted Returned) := by
  unfold callValue
  split
  · extract_lets all
    exact heeds_raiseIf_then _ fun _ => heeds_bind (heeds_ensureFree _) fun _ =>
      heeds_invoke (h.stmt _) _ _ _ _ _
  · exact h.callNamed _ _ _ _
  · exact heeds_raise _

theorem heeds_block (h : Heeding granted setting fuel) (body : List Stmt) :
    Heeds setting (block setting (fuel + 1) body : Eval granted Value) := by
  unfold block
  exact heeds_inBlock (heeds_foldlM (fun _ s => h.stmt s) body _)

/-- The handler of a `try` for a fault, and what becomes of it: a handler that throws nothing in
particular throws the fault again. -/
def handled (setting : Setting) (fuel : Nat) (name : Option String) (handler : List Stmt)
    (r : Raised) : Eval granted Value := do
  match ← observe (handling setting fuel name handler (caught r)) with
  | .ok _ => return .unit
  | .error (.raised ⟨.thrown .unit, []⟩) => throw (.raised r)
  | .error signal => throw signal

theorem heeds_handled (h : Heeding granted setting fuel) (name : Option String)
    (handler : List Stmt) (r : Raised) :
    Heeds setting (handled setting fuel name handler r : Eval granted Value) := by
  have hhandling : Heeds setting
      (handling setting fuel name handler (caught r) : Eval granted Value) := by
    refine heeds_inBlock ?_
    split
    · exact heeds_bind (heeds_modify _) fun _ => h.block handler
    · exact h.block handler
  refine heedsAs_bind (heeds_observe hhandling) (fun outcome => ?_) ?_
  · split
    · exact heeds_pure _
    · exact heeds_throw _
    · exact heeds_throw _
  · intro outcome e he s
    match outcome with
    | .error (.raised ⟨fault, callers⟩) =>
      obtain rfl : fault = .ofError e := he
      -- a failure is not the empty fault of a handler that throws the first fault again
      cases hc : e.isCatchable with
      | true =>
        rw [Fault.ofError_of_isCatchable hc]
        exact .raises (Fault.ofError_of_isCatchable hc).symm
      | false =>
        rw [Fault.ofError_of_not_isCatchable hc]
        exact .raises (Fault.ofError_of_not_isCatchable hc).symm

theorem faces_handled {e : Error} (hc : e.isCatchable = true) {r : Raised}
    (hr : r.fault = .ofError e) (name : Option String) (handler : List Stmt) (s : State) :
    Faces setting (EndTells silent) e
      ((handled setting fuel name handler r : Eval granted Value).run.run s) := by
  have hcaught : caught r = failureValue e := by
    rw [caught, hr, Fault.ofError_of_isCatchable hc]
  unfold handled
  rw [hcaught, run_bind]
  show Faces _ _ _ (Interaction.bind (Interaction.bind _ _) _)
  rw [Interaction.bind_assoc]
  exact .catches fuel name handler s _ hc

theorem heeds_stmt (h : Heeding granted setting fuel) (s : Stmt) :
    Heeds setting (stmt setting (fuel + 1) s : Eval granted Value) := by
  unfold stmt
  refine heeds_bind heeds_count fun _ => ?_
  match s with
  | .expression e => exact h.expr e
  | .block body => exact h.block body
  | .declare name isConstant e =>
    exact heeds_bind (h.expr e) fun v => heeds_bind (heeds_modify _) fun _ => heeds_pure _
  | .assign op target e =>
    refine heeds_bind (h.expr e) fun v => heeds_bind heeds_count fun _ => ?_
    extract_lets done
    have hdone (u : Unit) : Heeds setting (done u) := heeds_pure _
    split
    · exact heeds_bind (heeds_assignVariable _ _ _) hdone
    · exact heeds_bind (heeds_assignReceiver _ _) hdone
    · exact heeds_bind (h.chain _ _ _) fun _ => hdone ()
    · exact hdone ()
  | .branch condition yes no =>
    refine heeds_bind (h.expr condition) fun v => heeds_bind (heeds_ofBool v) fun c => ?_
    split
    · exact h.block yes
    · exact h.block no
  | .repeatWhile condition body =>
    refine heeds_repeatTurns (fun _ => ?_) ()
    extract_lets go
    have hgo (goesOn : Bool) : Heeds setting (go goesOn) := by
      unfold go
      split
      · exact heeds_pure _
      · refine heeds_bind (heeds_turn (h.block body)) fun left => ?_
        split <;> exact heeds_pure _
    split
    · exact heeds_bind (h.expr _) fun v => heeds_bind (heeds_ofBool v) hgo
    · exact heeds_bind (heeds_pure true) hgo
  | .repeatThen body isNegated condition =>
    refine heeds_repeatTurns (fun _ => ?_) ()
    refine heeds_bind (heeds_turn (h.block body)) fun left => ?_
    split
    · exact heeds_pure _
    · refine heeds_bind (h.expr condition) fun v => heeds_bind (heeds_ofBool v) fun c => ?_
      split <;> exact heeds_pure _
  | .forEach name counter source body =>
    refine heeds_bind (h.expr source) fun v => ?_
    split
    · exact heeds_raise _
    · refine heeds_repeatTurns (fun turns => ?_) _
      split
      split
      · exact heeds_pure _
      · refine heeds_bind (heeds_inBlock ?_) fun left => ?_
        · extract_lets last
          have hlast (u : Unit) : Heeds setting (last u) :=
            heeds_bind (heeds_modify _) fun _ => heeds_turn (h.block body)
          split
          · exact heeds_bind (heeds_modify _) hlast
          · exact hlast ()
        · split <;> exact heeds_pure _
  | .breakLoop none => exact heeds_throw _
  | .breakLoop (some e) => exact heeds_bind (h.expr e) fun v => heeds_throw _
  | .continueLoop => exact heeds_throw _
  | .giveBack none => exact heeds_throw _
  | .giveBack (some e) => exact heeds_bind (h.expr e) fun v => heeds_throw _
  | .raise none => exact heeds_raise _
  | .raise (some e) => exact heeds_bind (h.expr e) fun v => heeds_raise _
  | .attempt body name handler =>
    refine heedsAs_bind (heeds_observe (h.block body)) (fun outcome => ?_) ?_
    · split
      · exact heeds_pure _
      · next r =>
        extract_lets inner handle
        have hhandled (u : Unit) : Heeds setting (handle u) := heeds_handled h name handler r
        split
        · exact heeds_bind (heeds_throw _) hhandled
        · exact hhandled ()
      · exact heeds_throw _
    · intro outcome e he s
      match outcome with
      | .error (.raised r) =>
        have hr : r.fault = .ofError e := he
        dsimp only
        cases hc : e.isCatchable with
        | true =>
          rw [if_neg (by simp [hr, Fault.isCatchable_ofError, hc])]
          exact faces_handled hc hr name handler s
        | false =>
          rw [if_pos (by simp [hr, Fault.isCatchable_ofError, hc])]
          exact .raises he
  | .select subject cases default =>
    refine heeds_bind (h.expr subject) fun v => ?_
    extract_lets accepts act
    have haccepts (onRange : Bool) (c : SwitchCase) : Heeds setting (accepts onRange c) := by
      unfold accepts
      split
      split
      · exact heeds_pure _
      · split
        · exact heeds_bind (h.expr _) heeds_ofBool
        · exact heeds_pure _
    have hact (found : Option SwitchCase) : Heeds setting (act found) := by
      unfold act
      split
      · exact h.expr _
      · exact h.expr _
      · exact heeds_pure _
    refine heeds_bind (heeds_findM? (haccepts false) cases) fun found => ?_
    split
    · exact heeds_bind (heeds_pure _) hact
    · exact heeds_bind (heeds_findM? (haccepts true) cases) hact
  | .importModule path name =>
    exact heeds_bind (h.expr path) fun v => heeds_bind (heeds_importModule v name) fun _ =>
      heeds_pure _

/-! ## Whole scripts -/

theorem heeding (fuel : Nat) : Heeding granted setting fuel := by
  induction fuel with
  | zero =>
    exact ⟨fun _ => heeds_raise _, fun _ _ _ => heeds_raise _, fun _ _ _ _ => heeds_raise _,
      fun _ _ _ _ => heeds_raise _, fun _ _ _ => heeds_raise _, fun _ _ _ _ => heeds_raise _,
      fun _ => heeds_raise _, fun _ => heeds_raise _⟩
  | succ fuel h =>
    exact ⟨heeds_expr h, heeds_chain h, heeds_callMethod h, heeds_callNamed h, heeds_callOther h,
      heeds_callValue h, heeds_block h, heeds_stmt h⟩

theorem heeds_program (body : List Stmt) :
    Heeds setting (program setting body : Eval granted Value) := by
  have hbody : Heeds setting
      (body.foldlM (fun _ s => stmt setting maxDepth s) .unit : Eval granted Value) :=
    heeds_foldlM (fun _ s => (heeding maxDepth).stmt s) body _
  refine heedsAs_bind (heeds_observe hbody) (fun outcome => ?_) ?_
  · split
    iterate 4 exact heeds_pure _
    exact heeds_throw _
  · intro outcome e he s
    match outcome with
    | .error (.raised r) => exact .raises he

end Eval

/-! ## Runs -/

/-- What is left of a conversation after a call that failed is the conversation of an interaction
that faces the failure. -/
theorem Interaction.Heeds.turn {told : Error → α → Prop} {i : Interaction granted α}
    (h : i.Heeds setting told) {handle : Host σ} {s : σ} {before after : List (Turn granted)}
    {t : Turn granted} {e : Error} (hturns : i.turns handle s = before ++ t :: after)
    (hwaited : t.isWaited = true) (hplain : t.request.isComparison = false)
    (hanswer : t.answer = some (.error e)) :
    ∃ j s', Faces setting told e j ∧ after = j.turns handle s' ∧
      ∀ timeout, i.serve handle timeout s = j.serve handle timeout s' := by
  induction i generalizing s before with
  | done a => cases before <;> cases hturns
  | notify request rest ih =>
    rw [turns] at hturns
    simp only [serve_notify]
    generalize handle request.val s = p at hturns ⊢
    obtain ⟨answer, s'⟩ := p
    cases answer with
    | none =>
      cases before with
      | nil => cases hturns; cases hwaited
      | cons first before => cases before <;> cases hturns
    | some answer =>
      cases before with
      | nil => cases hturns; cases hwaited
      | cons first before => exact ih h (List.cons.inj hturns).2
  | call request resume ih =>
    rw [turns] at hturns
    simp only [serve_call]
    generalize handle request.val s = p at hturns ⊢
    obtain ⟨answer, s'⟩ := p
    cases answer with
    | none =>
      cases before with
      | nil => cases hturns; cases hanswer
      | cons first before => cases before <;> cases hturns
    | some answer =>
      cases before with
      | nil =>
        cases hturns
        cases hanswer
        exact ⟨_, s', h.2 hplain e, rfl, fun _ => rfl⟩
      | cons first before => exact ih answer (h.1 answer) (List.cons.inj hturns).2

/-- How an error that nothing catches ends a script. -/
def uncaught (e : Error) : Error :=
  if e.isCatchable then .script ⟨⟨e.kind, e.message⟩, []⟩ else e

theorem toError_of_tells (l : SandboxLimits) {r : Raised} {e : Error} (h : r.fault = .ofError e) :
    r.toError l = uncaught e := by
  obtain ⟨fault, callers⟩ := r
  obtain rfl : fault = .ofError e := h
  unfold uncaught
  cases hc : e.isCatchable with
  | true => rw [Fault.ofError_of_isCatchable hc]; rfl
  | false => rw [Fault.ofError_of_not_isCatchable hc]; rfl

theorem heeds_opened (l : SandboxLimits) (code : String) (arguments : Json.Fields) :
    ∃ setting, (opened l code arguments).Heeds setting fun e r => r = .error (uncaught e) := by
  have hnone (r : Except Error Outcome) : ∃ setting, (Interaction.done r :
      Interaction l.capabilitySet _).Heeds setting fun e r => r = .error (uncaught e) :=
    ⟨⟨[], Limits.ofSandbox l, []⟩, trivial⟩
  unfold opened
  split
  · exact hnone _
  · split
    · exact hnone _
    · unfold start
      extract_lets limits
      split
      · exact hnone _
      · extract_lets program setting
        refine ⟨setting, ?_⟩
        refine Interaction.Heeds.bind (Eval.heeds_program program.body _) (fun _ => trivial) ?_
        intro r e hr
        refine .raises ?_
        match r with
        | (.error (.raised r), s) => exact congrArg Except.error (toError_of_tells l hr)

/-- Nothing but a `try` takes the failure of a call away from a script. After a call that the script
waits for has failed, unless it was made to compare two items in a `sort` or a `dedup`: an error
that may not be caught ends the run at once and is its result, and the host receives no other call.
One that may be caught ends the run in the same way as a script error of its name and text, or else
the script goes on with the handler of a `try`, whose variable holds that name and text. -/
theorem run_faces (l : SandboxLimits) (code : String) (arguments : Json.Fields) (handle : Host σ)
    (s : σ) {before after : List (Turn l.capabilitySet)} {t : Turn l.capabilitySet} {e : Error}
    (hturns : conversation l code arguments handle s = before ++ t :: after)
    (hwaited : t.isWaited = true) (hplain : t.request.isComparison = false)
    (hanswer : t.answer = some (.error e)) :
    (e.isCatchable = false → (run l code arguments handle s).1 = .error e ∧
      (run l code arguments handle.recording ([], s)).2.1 =
        (before ++ [t]).map (·.request.val)) ∧
    (e.isCatchable = true →
      ((run l code arguments handle s).1 = .error (.script ⟨⟨e.kind, e.message⟩, []⟩) ∧
        (run l code arguments handle.recording ([], s)).2.1 =
          (before ++ [t]).map (·.request.val)) ∨
      ∃ setting fuel name handler state, ∃ next : _ → Interaction l.capabilitySet _, ∃ s',
        after = Interaction.turns handle (((Eval.handling setting fuel name handler
          (failureValue e)).run.run state).bind next) s' ∧
        (run l code arguments handle s).1 = (Interaction.serve handle (timeExceeded l)
          (((Eval.handling setting fuel name handler
            (failureValue e)).run.run state).bind next) s').1.bind id) := by
  obtain ⟨setting, hheeds⟩ := heeds_opened l code arguments
  obtain ⟨j, s', hfaces, hafter, hserve⟩ := hheeds.turn hturns hwaited hplain hanswer
  cases hfaces with
  | @raises b h =>
    obtain rfl : after = [] := hafter
    have hcalls : (run l code arguments handle.recording ([], s)).2.1 =
        (before ++ [t]).map (·.request.val) := by
      rw [run_recording, hturns]
    have hresult : (run l code arguments handle s).1 = .error (uncaught e) := by
      rw [run_eq, hserve, ← h]
      rfl
    refine ⟨fun hc => ⟨?_, hcalls⟩, fun hc => .inl ⟨?_, hcalls⟩⟩
    · rw [hresult, uncaught, hc]
      rfl
    · rw [hresult, uncaught, hc]
      rfl
  | catches fuel name handler state next h =>
    refine ⟨fun hc => absurd (hc.symm.trans h) Bool.false_ne_true, fun _ => .inr ?_⟩
    refine ⟨setting, fuel, name, handler, state, next, s', hafter, ?_⟩
    rw [run_eq, hserve]

/-! ## Failures of one host -/

def agentless : Host Unit
  | .runAgent agent _ _, s => (some (.error (.agentNotFound agent)), s)
  | _, s => (some (.ok .null), s)

def errorOf? : Option (Except Error Json) → Option Error
  | some (.error e) => some e
  | _ => none

/-- What a turn is to a script: whether the script waits, whether it compares, and what failed. -/
def Turn.summary {granted : CapabilitySet} (t : Turn granted) : Bool × Bool × Option Error :=
  (t.isWaited, t.request.isComparison, errorOf? t.answer)

/-- Calls in a closure in a function, in a `try` whose handler goes on. -/
def stubborn : String :=
  "fn ask(names) \x7b names.map(|name| run_agent(name, #\x7b\x7d)) \x7d " ++
  "try \x7b ask([\"ghost\", \"spirit\"]); \x7d catch (e) \x7b log(\"caught\"); \x7d 1"

theorem run_faces_stubborn : ∃ t,
    conversation {} stubborn [] agentless () = [t] ∧ t.isWaited = true ∧
    t.request.isComparison = false ∧ t.answer = some (.error (.agentNotFound "ghost")) ∧
    (Error.agentNotFound "ghost").isCatchable = false ∧
    (run {} stubborn [] agentless ()).1 = .error (.agentNotFound "ghost") ∧
    (run {} stubborn [] agentless.recording ([], ())).2.1 = [t.request.val] := by
  have hsummary : (conversation {} stubborn [] agentless ()).map Turn.summary =
      [(true, false, some (.agentNotFound "ghost"))] := by decide +kernel
  obtain ⟨t, hturns, ht⟩ := List.map_eq_singleton_iff.mp hsummary
  obtain ⟨hwaited, hrest⟩ := Prod.mk.inj ht
  obtain ⟨hplain, herror⟩ := Prod.mk.inj hrest
  have hanswer : t.answer = some (.error (.agentNotFound "ghost")) := by
    match ha : t.answer with
    | some (.error e) =>
      rw [ha] at herror
      exact congrArg (some ∘ Except.error) (Option.some.inj herror)
    | some (.ok _) => rw [ha] at herror; cases herror
    | none => rw [ha] at herror; cases herror
  have hfatal : (Error.agentNotFound "ghost").isCatchable = false := rfl
  have hsplit : conversation {} stubborn [] agentless () = [] ++ t :: [] := hturns
  obtain ⟨hresult, hcalls⟩ :=
    (run_faces {} stubborn [] agentless () hsplit hwaited hplain hanswer).1 hfatal
  exact ⟨t, hturns, hwaited, hplain, hanswer, hfatal, hresult, hcalls⟩

def sorting : String :=
  "let l = [2, 1]; l.sort(|a, b| run_agent(\"ghost\", #\x7b\x7d)); \"survived\""

/-- An error that may not be caught is lost in a comparison, and the script goes on. -/
theorem failure_lost_in_sort :
    (conversation {} sorting [] agentless ()).map Turn.summary =
      [(true, true, some (.agentNotFound "ghost"))] ∧
    (Error.agentNotFound "ghost").isCatchable = false ∧
    (run {} sorting [] agentless ()).1.toOption.map (·.value.compact) = some "\"survived\"" := by
  decide +kernel

def deduplicating : String :=
  "let l = [1, 1]; l.dedup(|a, b| run_agent(\"ghost\", #\x7b\x7d)); \"survived\""

theorem failure_lost_in_dedup :
    (conversation {} deduplicating [] agentless ()).map Turn.summary =
      [(true, true, some (.agentNotFound "ghost"))] ∧
    (run {} deduplicating [] agentless ()).1.toOption.map (·.value.compact) =
      some "\"survived\"" := by
  decide +kernel

end Agents.Script
