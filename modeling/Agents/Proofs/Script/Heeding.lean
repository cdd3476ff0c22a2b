import Agents.Proofs.Script.Conversation

/-! # What becomes of a call that fails

A call of the host that fails raises a fault where the script waits for it: one that the script may
catch shows the error's kind and text, any other carries the error itself. Nothing takes a fault
away from a script but a `try`, and a comparison of two items in `sort` or `dedup`.

`Interaction.Heeds` says so of a tree of calls: after the failure of any call it ends at once and
tells of the fault, or a handler of the script goes on with the value that shows it. Every part of
the evaluation keeps this; what a part that looked at an outcome (`Eval.observe`) tells of is said
by a function on its results.
-/

namespace Agents.Script

variable {granted : CapabilitySet} {α β γ : Type} {setting : Setting}

/-! ## Faults of calls -/

/-- What a script gets to see of an error that it may catch. -/
def failureValue (e : Error) : Value :=
  .object [("message", .string e.message), ("name", .string e.kind)]

namespace Fault

theorem ofError_of_isCatchable {e : Error} (h : e.isCatchable = true) :
    ofError e = .thrown (failureValue e) := if_pos h

theorem ofError_of_not_isCatchable {e : Error} (h : e.isCatchable = false) :
    ofError e = .hostFailed e := if_neg (by simp [h])

theorem isCatchable_ofError (e : Error) : (ofError e).isCatchable = e.isCatchable := by
  cases h : e.isCatchable with
  | true => rw [ofError_of_isCatchable h]; rfl
  | false => rw [ofError_of_not_isCatchable h]; rfl

end Fault

def Signal.Tells (e : Error) : Signal → Prop
  | .raised r => r.fault = .ofError e
  | _ => False

/-- Whether an outcome tells of an error; `told` says which results do. -/
def OutcomeTells (told : Error → α → Prop) (e : Error) : Except Signal α → Prop
  | .ok a => told e a
  | .error signal => signal.Tells e

/-- Results that tell of no error. -/
def silent (_ : Error) (_ : α) : Prop := False

def EndTells (told : Error → α → Prop) (e : Error) (r : Except Signal α × State) : Prop :=
  OutcomeTells told e r.1

namespace Eval

def handling (setting : Setting) (fuel : Nat) (name : Option String) (handler : List Stmt)
    (v : Value) : Eval granted Value :=
  inBlock do
    if let some x := name then declare x v
    block setting fuel handler

end Eval

/-- What a script does after an error: it ends with the fault, or a handler goes on with it. -/
inductive Faces (setting : Setting) (told : Error → β → Prop) (e : Error) :
    Interaction granted β → Prop
  | raises {b : β} (h : told e b) : Faces setting told e (.done b)
  | catches (fuel : Nat) (name : Option String) (handler : List Stmt) (s : State)
      (next : Except Signal Value × State → Interaction granted β) (h : e.isCatchable = true) :
      Faces setting told e
        (((Eval.handling setting fuel name handler (failureValue e)).run.run s).bind next)

namespace Interaction

/-- After the failure of a call the script faces it, unless the call was made to compare. -/
def Heeds (setting : Setting) (told : Error → β → Prop) : Interaction granted β → Prop
  | .done _ => True
  | .notify _ rest => rest.Heeds setting told
  | .call request resume => (∀ answer, (resume answer).Heeds setting told) ∧
      (request.isComparison = false → ∀ e, Faces setting told e (resume (.error e)))

end Interaction

variable {told : Error → α → Prop} {told' : Error → β → Prop}

theorem Faces.bind {e : Error} {i : Interaction granted α} (h : Faces setting told e i)
    {f : α → Interaction granted β}
    (hf : ∀ a, told e a → Faces setting told' e (f a)) :
    Faces setting told' e (i.bind f) := by
  cases h with
  | raises h => exact hf _ h
  | catches fuel name handler s next h =>
    rw [Interaction.bind_assoc]
    exact .catches fuel name handler s _ h

namespace Interaction

theorem Heeds.bind {i : Interaction granted α} (h : i.Heeds setting told)
    {f : α → Interaction granted β} (hf : ∀ a, (f a).Heeds setting told')
    (hpass : ∀ a e, told e a → Faces setting told' e (f a)) :
    (i.bind f).Heeds setting told' := by
  induction i with
  | done a => exact hf a
  | notify request rest ih => exact ih h
  | call request resume ih =>
    exact ⟨fun answer => ih answer (h.1 answer),
      fun hplain e => (h.2 hplain e).bind fun a => hpass a e⟩

theorem heeds_comparing (i : Interaction granted α) : i.comparing.Heeds setting told := by
  induction i with
  | done a => trivial
  | notify request rest ih => exact ih
  | call request resume ih => exact ⟨ih, nofun⟩

end Interaction

/-! ## Evaluation -/

namespace Eval

/-- In every state the script faces the failures of its calls, where results tell of faults. -/
def HeedsAs (setting : Setting) (told : Error → α → Prop) (x : Eval granted α) : Prop :=
  ∀ s, (x.run.run s).Heeds setting (EndTells told)

abbrev Heeds (setting : Setting) (x : Eval granted α) : Prop := HeedsAs setting silent x

/-- An error that a result tells of is faced by what goes on with it. -/
def Passes (setting : Setting) (told : Error → α → Prop) (told' : Error → β → Prop)
    (f : α → Eval granted β) : Prop :=
  ∀ a e, told e a → ∀ s, Faces setting (EndTells told') e ((f a).run.run s)

theorem heedsAs_bind {x : Eval granted α} {f : α → Eval granted β} (hx : HeedsAs setting told x)
    (hf : ∀ a, HeedsAs setting told' (f a)) (hpass : Passes setting told told' f) :
    HeedsAs setting told' (x >>= f) := by
  intro s
  rw [run_bind]
  refine (hx s).bind (fun r => ?_) fun r e hr => ?_
  · obtain ⟨outcome, s⟩ := r
    cases outcome with
    | ok a => exact hf a s
    | error signal => trivial
  · obtain ⟨outcome, s⟩ := r
    cases outcome with
    | ok a => exact hpass a e hr s
    | error signal => exact .raises hr

theorem passes_silent {f : α → Eval granted β} : Passes setting silent told' f :=
  fun _ _ h => h.elim

theorem Passes.bind {told'' : Error → γ → Prop} {f : α → Eval granted β}
    {g : α → β → Eval granted γ} (hf : Passes setting told told' f)
    (hg : ∀ a, Passes setting told' told'' (g a)) :
    Passes setting told told'' (fun a => f a >>= g a) := by
  intro a e ha s
  rw [run_bind]
  refine (hf a e ha s).bind fun r hr => ?_
  obtain ⟨outcome, s⟩ := r
  cases outcome with
  | ok b => exact hg a b e hr s
  | error signal => exact .raises hr

theorem heeds_bind {x : Eval granted α} {f : α → Eval granted β} (hx : Heeds setting x)
    (hf : ∀ a, HeedsAs setting told' (f a)) : HeedsAs setting told' (x >>= f) :=
  heedsAs_bind hx hf passes_silent

/-! ### What makes no calls -/

theorem heeds_pure (a : α) : HeedsAs setting told (pure a : Eval granted α) := fun _ => trivial

theorem heeds_map (f : α → β) {x : Eval granted α} (hx : Heeds setting x) :
    Heeds setting (f <$> x) := by
  rw [map_eq_pure_bind]
  exact heeds_bind hx fun a => heeds_pure (f a)

theorem heeds_throw (signal : Signal) : HeedsAs setting told (throw signal : Eval granted α) :=
  fun _ => trivial

theorem heeds_raise (f : Fault) : HeedsAs setting told (raise f : Eval granted α) := fun _ => trivial

theorem heeds_ofExcept (x : Except Fault α) :
    HeedsAs setting told (ofExcept x : Eval granted α) := by
  cases x <;> exact fun _ => trivial

theorem heeds_get : Heeds setting (get : Eval granted State) := fun _ => trivial

theorem heeds_set (s : State) : Heeds setting (set s : Eval granted PUnit) := fun _ => trivial

theorem heeds_modify (f : State → State) : Heeds setting (modify f : Eval granted PUnit) :=
  fun _ => trivial

theorem heeds_modifyGet (f : State → α × State) :
    Heeds setting (modifyGet f : Eval granted α) := fun _ => trivial

/-! ### Calls -/

theorem heeds_call (request : GrantedCall granted) : Heeds setting (call request) := by
  intro s
  refine ⟨fun answer => ?_, fun _ e => ?_⟩
  · cases answer <;> trivial
  · exact .raises rfl

theorem heeds_notify (request : GrantedCall granted) : Heeds setting (notify request) :=
  fun _ => trivial

theorem heeds_comparing (x : Eval granted α) : HeedsAs setting told (comparing x) :=
  fun _ => Interaction.heeds_comparing _

theorem heeds_observe {x : Eval granted α} (hx : HeedsAs setting told x) :
    HeedsAs setting (OutcomeTells told) (observe x) := by
  intro s
  refine (hx s).bind (fun r => trivial) fun r e hr => ?_
  exact .raises hr

/-- Whatever was done to compare items, its outcome tells of nothing. -/
theorem heeds_observe_comparing {told : Error → Except Signal α → Prop} (x : Eval granted α) :
    HeedsAs setting told (observe (comparing x)) := by
  intro s
  have h : ((x.run.run s).comparing).Heeds setting silent := Interaction.heeds_comparing _
  exact h.bind (fun r => trivial) fun r e htold => htold.elim

/-! ### Repetition -/

theorem heeds_mapM {f : α → Eval granted β} (hf : ∀ a, Heeds setting (f a)) (as : List α) :
    Heeds setting (as.mapM f) := by
  induction as with
  | nil => exact heeds_pure []
  | cons a rest ih =>
    rw [List.mapM_cons]
    exact heeds_bind (hf a) fun b => heeds_bind ih fun bs => heeds_pure _

theorem heeds_foldlM {f : β → α → Eval granted β} (hf : ∀ b a, Heeds setting (f b a)) (as : List α)
    (b : β) : Heeds setting (as.foldlM f b) := by
  induction as generalizing b with
  | nil => exact heeds_pure b
  | cons a rest ih =>
    rw [List.foldlM_cons]
    exact heeds_bind (hf b a) ih

theorem heeds_forM {f : α → Eval granted PUnit} (hf : ∀ a, Heeds setting (f a)) (as : List α) :
    Heeds setting (as.forM f) := by
  induction as with
  | nil => exact heeds_pure _
  | cons a rest ih => exact heeds_bind (hf a) fun _ => ih

theorem heeds_findM? {f : α → Eval granted Bool} (hf : ∀ a, Heeds setting (f a)) (as : List α) :
    Heeds setting (as.findM? f) := by
  induction as with
  | nil => exact heeds_pure none
  | cons a rest ih =>
    refine heeds_bind (hf a) fun found => ?_
    cases found with
    | true => exact heeds_pure (some a)
    | false => exact ih

theorem iterate_succ {σ : Type} (step : σ → Eval granted (σ ⊕ α)) (fuel : Nat) (a : σ) :
    iterate step (fuel + 1) a = step a >>= Sum.elim (iterate step fuel) pure := by
  refine funext fun s => Eq.trans ?_ (run_bind (step a) _ s).symm
  show iterate step (fuel + 1) a s = (step a s).bind _
  rw [iterate]
  -- a step without calls is taken at once, which is what `bind` does with it
  dsimp only
  split
  · next hstep => rw [hstep]; rfl
  · next hstep => rw [hstep]; rfl
  · next hstep => rw [hstep]; rfl
  · refine congrArg (step a s).bind (funext fun r => ?_)
    obtain ⟨signal | b | result, s⟩ := r
    · rfl
    · rfl
    · rfl

theorem heeds_iterate {σ : Type} {step : σ → Eval granted (σ ⊕ α)}
    (hstep : ∀ a, Heeds setting (step a)) (fuel : Nat) (a : σ) :
    Heeds setting (iterate step fuel a) := by
  induction fuel generalizing a with
  | zero => exact heeds_raise _
  | succ fuel ih =>
    rw [iterate_succ]
    refine heeds_bind (hstep a) fun next => ?_
    cases next with
    | inl b => exact ih b
    | inr result => exact heeds_pure result

/-! ### The state -/

theorem heeds_raiseIf {c : Prop} [Decidable c] (f : Fault) :
    Heeds setting (if c then raise f else pure () : Eval granted Unit) := by
  split
  · exact heeds_raise f
  · exact heeds_pure ()

theorem heeds_raiseIf_then {c : Prop} [Decidable c] (f : Fault) {next : Unit → Eval granted α}
    (h : ∀ u, HeedsAs setting told (next u)) :
    HeedsAs setting told (if c then raise f >>= next else next ()) := by
  split
  · exact heeds_bind (heeds_raise f) h
  · exact h ()

variable {limits : Limits}

theorem heeds_spend (work : Nat) : Heeds setting (spend limits work : Eval granted Unit) :=
  heeds_bind (heeds_modify _) fun _ => heeds_bind heeds_get fun _ => heeds_raiseIf _

theorem heeds_count : Heeds setting (count limits : Eval granted Unit) :=
  heeds_bind (heeds_modify _) fun _ => heeds_bind heeds_get fun _ =>
    heeds_raiseIf_then _ fun _ => heeds_raiseIf _

theorem heeds_ensureSize (v : Value) :
    Heeds setting (ensureSize limits v : Eval granted Unit) := by
  unfold ensureSize
  split
  iterate 4 exact heeds_bind (heeds_spend _) fun _ => heeds_raiseIf _
  exact heeds_pure ()

theorem heeds_content (name : String) (v : Value) :
    Heeds setting (content name v : Eval granted Value) := by
  unfold content
  split
  · refine heeds_bind heeds_get fun s => ?_
    split
    · exact heeds_pure _
    · exact heeds_raise _
  · exact heeds_pure v

theorem heeds_find? (name : String) :
    Heeds setting (find? name : Eval granted (Option Variable)) :=
  heeds_bind heeds_get fun _ => heeds_pure _

theorem heeds_write (name : String) (v : Value) :
    Heeds setting (write name v : Eval granted Unit) := by
  refine heeds_bind (heeds_find? name) fun found => ?_
  split <;> exact heeds_modify _

theorem heeds_capture (name : String) : Heeds setting (capture name : Eval granted Value) := by
  refine heeds_bind (heeds_find? name) fun found => ?_
  split
  · exact heeds_raise _
  · exact heeds_pure _
  · exact heeds_bind heeds_get fun s => heeds_bind (heeds_modify _) fun _ => heeds_pure _

theorem heeds_ofBool (v : Value) : Heeds setting (ofBool v : Eval granted Bool) := by
  unfold ofBool
  split
  · exact heeds_pure _
  · exact heeds_raise _

/-- What restores the state after something passes its outcome on. -/
theorem heeds_restoring {x : Eval granted α} (hx : HeedsAs setting told x) (f : State → State) :
    HeedsAs setting told (do
      let outcome ← observe x
      modify f
      match outcome with
      | .ok a => return a
      | .error signal => throw signal : Eval granted α) := by
  refine heedsAs_bind (heeds_observe hx) (fun outcome => ?_) ?_
  · refine heeds_bind (heeds_modify f) fun _ => ?_
    cases outcome with
    | ok a => exact heeds_pure a
    | error signal => exact heeds_throw signal
  · intro outcome e h s
    cases outcome <;> exact .raises h

theorem heeds_inBlock {x : Eval granted α} (hx : HeedsAs setting told x) :
    HeedsAs setting told (inBlock x) :=
  heeds_bind heeds_get fun _ => heeds_restoring hx _

theorem heeds_borrowing {x : Eval granted α} (hx : HeedsAs setting told x) (l : Option Location) :
    HeedsAs setting told (borrowing l x) := by
  unfold borrowing
  extract_lets borrowed
  have hborrowed (cell? : Option Nat) : HeedsAs setting told (borrowed cell?) := by
    cases cell? with
    | none => exact hx
    | some cell =>
      exact heeds_bind heeds_get fun s => heeds_bind (heeds_modify _) fun _ =>
        heeds_restoring hx _
  split
  · exact heeds_bind (heeds_pure none) hborrowed
  · refine heeds_bind (heeds_find? _) fun found => ?_
    split <;> exact heeds_bind (heeds_pure _) hborrowed

/-! ### Assignments -/

theorem heeds_combine (op : Option BinaryOp) (old new : Value) :
    Heeds setting (combine limits op old new : Eval granted Value) := by
  have hsized (v : Value) :
      Heeds setting (do ensureSize limits v; return v : Eval granted Value) :=
    heeds_bind (heeds_ensureSize v) fun _ => heeds_pure v
  unfold combine
  split
  · exact heeds_pure new
  · dsimp only
    split
    iterate 3 exact heeds_bind (heeds_pure _) hsized
    exact heeds_bind (heeds_ofExcept _) hsized

theorem heeds_read (functions : List Function) (name : String) :
    Heeds setting (read functions name : Eval granted Value) := by
  refine heeds_bind (heeds_find? name) fun found => ?_
  split
  · exact heeds_content _ _
  · split
    · exact heeds_pure _
    · exact heeds_raise _

theorem heeds_assignVariable (op : Option BinaryOp) (name : String) (v : Value) :
    Heeds setting (assignVariable limits op name v : Eval granted Unit) := by
  refine heeds_bind (heeds_find? name) fun found => ?_
  split
  · exact heeds_raise _
  · exact heeds_raiseIf_then _ fun _ => heeds_bind (heeds_content _ _) fun old =>
      heeds_bind (heeds_combine op old v) fun new => heeds_write name new

theorem heeds_assignReceiver (op : Option BinaryOp) (v : Value) :
    Heeds setting (assignReceiver limits op v : Eval granted Unit) := by
  refine heeds_bind heeds_get fun s => ?_
  split
  · exact heeds_raise _
  · exact heeds_bind (heeds_combine op _ v) fun new => heeds_modify _

theorem heeds_writeAt (l : Location) (v : Value) :
    Heeds setting (writeAt l v : Eval granted Unit) := by
  unfold writeAt
  split
  · refine heeds_bind (heeds_find? _) fun found => ?_
    split
    · exact heeds_modify _
    · exact heeds_modify _
    · exact heeds_pure ()
  · exact heeds_modify _

/-- Something that makes no calls and always has a result. -/
def Calm (x : Eval granted α) : Prop := ∀ s, ∃ a s', x.run.run s = .done (.ok a, s')

theorem calm_writeAt (l : Location) (v : Value) : Calm (writeAt l v : Eval granted Unit) := by
  intro s
  unfold writeAt
  cases l.root with
  | none => exact ⟨_, _, rfl⟩
  | some name =>
    dsimp only
    have hfind : (find? name : Eval granted _).run.run s =
        .done (.ok (s.scope.find? (·.name = name)), s) := rfl
    rw [run_bind, hfind]
    simp only [Interaction.bind]
    split <;> exact ⟨_, _, rfl⟩

theorem Calm.faces {x : Eval granted α} (hx : Calm x) {f : α → Eval granted β} {e : Error}
    (hf : ∀ a s, Faces setting (EndTells told') e ((f a).run.run s)) (s : State) :
    Faces setting (EndTells told') e ((x >>= f).run.run s) := by
  obtain ⟨a, s', hdone⟩ := hx s
  rw [run_bind, hdone]
  exact hf a s'

theorem heeds_assignPart (location : Option Location) (v : Value) (access : Access)
    (op : Option BinaryOp) (new : Value) :
    Heeds setting (assignPart limits location v access op new : Eval granted Unit) := by
  unfold assignPart
  extract_lets ensureMutable write assign
  have hmutable (exists? : Bool) : Heeds setting (ensureMutable exists?) := by
    unfold ensureMutable
    split
    · exact heeds_raiseIf _
    · exact heeds_pure ()
  have hwrite (changed : Value) : Heeds setting (write changed) := by
    unfold write
    split
    · exact heeds_writeAt _ _
    · exact heeds_pure ()
  have hassign (old : Value) : Heeds setting (assign old) := by
    refine heeds_bind (heeds_combine op old new) fun part => ?_
    split
    · exact heeds_bind (heeds_pure _) hwrite
    · exact heeds_bind (heeds_raise _) hwrite
    · exact heeds_bind (heeds_ofExcept _) hwrite
    · exact heeds_bind (heeds_pure _) hwrite
  split
  · exact heeds_bind (hmutable _) fun _ => heeds_bind (heeds_pure _) hassign
  · split
    · exact heeds_bind (heeds_ofExcept _) hassign
    · exact heeds_bind (heeds_raise _) hassign
  · refine heeds_bind (heeds_ofExcept _) fun found => ?_
    exact heeds_bind (hmutable _) fun _ => heeds_bind (heeds_pure _) hassign
  · exact heeds_bind (heeds_pure _) hassign

/-! ### Chains and loops -/

theorem heeds_follow {method : Option Location → Value → String → List Value → Eval granted Value}
    (hmethod : ∀ l v name arguments, Heeds setting (method l v name arguments))
    (assignment : Option (Option BinaryOp × Value)) (location : Option Location) (v : Value)
    (accesses : List Access) :
    Heeds setting (follow limits method assignment location v accesses) := by
  induction accesses generalizing location v with
  | nil => exact heeds_pure v
  | cons access rest ih =>
    unfold follow
    extract_lets isOptional
    clear_value isOptional
    split
    · exact heeds_pure _
    · split
      · exact heeds_bind (heeds_assignPart _ _ _ _ _) fun _ => heeds_pure _
      · split
        · split <;> exact ih _ _
        · exact heeds_bind (heeds_ofExcept _) fun _ => ih _ _
        · exact heeds_bind (heeds_ofExcept _) fun _ => ih _ _
        · exact heeds_bind (hmethod _ _ _ _) fun _ => ih _ _

theorem heeds_turn {body : Eval granted Value} (hbody : Heeds setting body) :
    Heeds setting (turn body) := by
  refine heedsAs_bind (heeds_observe hbody) (fun outcome => ?_) ?_
  · split
    · exact heeds_pure _
    · exact heeds_pure _
    · exact heeds_pure _
    · exact heeds_throw _
  · intro outcome e h s
    match outcome with
    | .error (.raised r) => exact .raises h

theorem heeds_repeatTurns {σ : Type} {step : σ → Eval granted (σ ⊕ Value)}
    (hstep : ∀ a, Heeds setting (step a)) (start : σ) :
    Heeds setting (repeatTurns limits step start) :=
  heeds_iterate (fun a => heeds_bind heeds_count fun _ => hstep a) _ start

def ReturnTells (e : Error) (r : Returned) : Prop :=
  match r.1 with
  | .ok _ => False
  | .error r => r.fault = .ofError e

theorem heeds_leave (name : String) (before : State) (outcome : Except Signal Value) :
    HeedsAs setting ReturnTells (leave name before outcome : Eval granted Returned) := by
  refine heeds_bind heeds_get fun s => ?_
  extract_lets receiver
  refine heeds_bind (heeds_modify _) fun _ => ?_
  split
  iterate 4 exact heeds_pure _
  split <;> exact heeds_pure _

theorem passes_leave (name : String) (before : State) :
    Passes setting (OutcomeTells silent) ReturnTells
      (leave name before : _ → Eval granted Returned) := by
  intro outcome e h s
  match outcome with
  | .error (.raised r) =>
    unfold leave
    by_cases hc : r.fault.isCatchable = true
    · simp only [if_pos hc]
      exact .raises h
    · simp only [if_neg hc]
      exact .raises h

theorem heeds_invoke {body : Eval granted Value} (hbody : Heeds setting body) (levels : Nat)
    (name : String) (parameters : List String) (receiver : Option Value) (arguments : List Value) :
    HeedsAs setting ReturnTells
      (invoke limits levels name parameters body receiver arguments) :=
  heeds_bind heeds_count fun _ => heeds_bind heeds_get fun before =>
    heeds_raiseIf_then _ fun _ => heeds_bind (heeds_set _) fun _ =>
      heedsAs_bind (heeds_observe hbody) (heeds_leave name before) (passes_leave name before)

theorem heeds_returned (r : Returned) : Heeds setting (returned r : Eval granted Value) := by
  unfold returned
  split
  · exact heeds_pure _
  · exact heeds_throw _

theorem passes_returned : Passes setting ReturnTells silent (returned : _ → Eval granted Value) := by
  intro r e h s
  match r with
  | (.error r, receiver) => exact .raises h

theorem heeds_report (text : String) : Heeds setting (report text : Eval granted Unit) := by
  unfold report
  split
  · exact heeds_notify _
  · exact heeds_pure ()

theorem heeds_native (name : String) (arguments : List Value) :
    Heeds setting (native name arguments : Eval granted (Option Effect)) := by
  unfold native
  extract_lets other
  have hother (u : Unit) : Heeds setting (other u) := by
    unfold other
    split
    · split <;> exact heeds_pure _
    · exact heeds_bind (heeds_modifyGet _) fun _ => heeds_pure _
    · exact heeds_bind (heeds_modify _) fun _ => heeds_pure _
    · exact heeds_bind (heeds_modify _) fun _ => heeds_pure _
    iterate 4 exact heeds_bind (heeds_report _) fun _ => heeds_pure _
    split
    · exact heeds_bind (heeds_ofExcept _) fun _ => heeds_pure _
    · exact heeds_pure _
  split
  · split
    · exact heeds_bind (heeds_call _) fun _ => heeds_pure _
    · exact hother ()
  · exact hother ()

theorem heeds_callNative (name : String) (receiver : Option Value) (arguments : List Value) :
    Heeds setting (callNative name receiver arguments : Eval granted Effect) := by
  refine heeds_bind (heeds_native _ _) fun found => ?_
  split
  · exact heeds_pure _
  · exact heeds_raise _

theorem heeds_ensureFree (bound : List Value) :
    Heeds setting (ensureFree bound : Eval granted Unit) :=
  heeds_forM (fun v => heeds_bind (heeds_content _ v) fun _ => heeds_pure _) bound

theorem heeds_importModule (path : Value) (name : Option String) :
    Heeds setting (importModule setting path name : Eval granted Unit) := by
  unfold importModule
  split
  · refine heeds_bind heeds_get fun s => heeds_raiseIf_then _ fun _ => ?_
    split
    · exact heeds_raise _
    · exact heeds_modify _
  · exact heeds_raise _

theorem heeds_callModule (module function : String) (arguments : List Value) :
    Heeds setting (callModule module function arguments : Eval granted Value) := by
  refine heeds_bind heeds_get fun s => ?_
  split
  · exact heeds_raise _
  · split
    · exact heeds_ofExcept _
    · exact heeds_raise _

theorem heeds_rootOf {functions : List Function} {root : Expr}
    {found : Eval granted (Option Location × Value)} (h : rootOf? functions root = some found) :
    Heeds setting found := by
  unfold rootOf? at h
  split at h
  · cases h
    refine heeds_bind (heeds_read _ _) fun v => heeds_bind (heeds_find? _) fun x => ?_
    split <;> exact heeds_pure _
  · cases h
    refine heeds_bind heeds_get fun s => ?_
    split
    · exact heeds_pure _
    · exact heeds_raise _
  · cases h

theorem heeds_changeable? (arguments : List Expr) :
    Heeds setting (changeable? arguments : Eval granted (Option String)) := by
  unfold changeable?
  split
  · refine heeds_bind (heeds_find? _) fun found => ?_
    split <;> exact heeds_pure _
  · exact heeds_pure _

section ArrayMethods

variable {visit : ArrayMethod.Visit granted} {fold : Value → Value → Nat → Eval granted Value}
  {compare : Value → Value → Eval granted (Option Value)}

open ArrayMethod

theorem heeds_visitAll (hvisit : ∀ v i, Heeds setting (visit v i)) (items : List Value) :
    Heeds setting (visitAll visit items) := by
  unfold visitAll
  exact heeds_mapM (fun (item : Value × Nat) => hvisit item.1 item.2) _

theorem heeds_first? (hvisit : ∀ v i, Heeds setting (visit v i)) (test : Value → Bool)
    (items : List (Value × Nat)) : Heeds setting (first? visit test items) := by
  induction items with
  | nil => exact heeds_pure none
  | cons item rest ih =>
    refine heeds_bind (hvisit item.1 item.2) fun found => ?_
    dsimp only
    split
    · exact heeds_pure _
    · exact ih

theorem heeds_partition (hvisit : ∀ v i, Heeds setting (visit v i)) (items : List Value) :
    Heeds setting (partition visit items) :=
  heeds_bind (heeds_visitAll hvisit items) fun _ => heeds_pure _

theorem heeds_insertBy {order : Value → Value → Eval granted Ordering}
    (horder : ∀ a b, Heeds setting (order a b)) (item : Value) (items : List Value) :
    Heeds setting (insertBy order item items) := by
  induction items with
  | nil => exact heeds_pure _
  | cons v rest ih =>
    refine heeds_bind (horder item v) fun found => ?_
    split
    · exact heeds_bind ih fun _ => heeds_pure _
    · exact heeds_pure _

theorem heeds_sortBy {order : Value → Value → Eval granted Ordering}
    (horder : ∀ a b, Heeds setting (order a b)) (items : List Value) :
    Heeds setting (sortBy order items) :=
  heeds_bind (heeds_foldlM (fun sorted item => heeds_insertBy horder item sorted) items [])
    fun _ => heeds_pure _

theorem heeds_dedupBy {same : Value → Value → Eval granted Bool}
    (hsame : ∀ a b, Heeds setting (same a b)) (kept : Value) (items : List Value) :
    Heeds setting (dedupBy same kept items) := by
  induction items generalizing kept with
  | nil => exact heeds_pure _
  | cons v rest ih =>
    refine heeds_bind (hsame kept v) fun found => ?_
    split
    · exact ih kept
    · exact heeds_bind (ih v) fun _ => heeds_pure _

theorem heeds_run? (hvisit : ∀ v i, Heeds setting (visit v i))
    (hfold : ∀ v w i, Heeds setting (fold v w i)) (hcompare : ∀ v w, Heeds setting (compare v w))
    {name : String} {items rest : List Value} {method : Eval granted Effect}
    (h : run? name items visit fold compare rest = some method) : Heeds setting method := by
  have hall (a : Value) (l : List (Value × Nat)) :
      Heeds setting (l.foldlM (fun a item => fold a item.1 item.2) a) :=
    heeds_foldlM (fun a v => hfold a v.1 v.2) l a
  have hfirst (test : Value → Bool) : Heeds setting (first? visit test items.zipIdx) :=
    heeds_first? hvisit test _
  unfold run? at h
  dsimp only at h
  split at h
  · cases h; exact heeds_bind (heeds_visitAll hvisit _) fun _ => heeds_pure _
  · cases h; exact heeds_bind (heeds_partition hvisit _) fun _ => heeds_pure _
  · cases h; exact heeds_bind (heeds_visitAll hvisit _) fun _ => heeds_pure _
  iterate 7 cases h; exact heeds_bind (hfirst _) fun _ => heeds_pure _
  iterate 2 cases h; exact heeds_bind (heeds_partition hvisit _) fun _ => heeds_pure _
  iterate 4 cases h; exact heeds_bind (hall _ _) fun _ => heeds_pure _
  · cases h; exact heeds_bind (heeds_sortBy (fun a b => heeds_map _ (hcompare a b)) _) fun _ =>
      heeds_pure _
  · cases h
    split
    · exact heeds_pure _
    · exact heeds_bind (heeds_dedupBy (fun a b => heeds_map _ (hcompare a b)) _ _) fun _ =>
        heeds_pure _
  · cases h

end ArrayMethods

end Eval

end Agents.Script
