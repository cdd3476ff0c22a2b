import Agents.Run.Activity

/-! # Transcripts of activities

An activity goes one way or another, depending on how its queries are answered. `Activity.Runs`
holds of an activity and one way it may go: the exchange of queries and answers, the events it
reports, and its result. Nothing is said about the answers, so a statement about all runs is one
about every behaviour of what is outside.

- A run of a part followed by another is a run of each, one after the other (`runs_bind`).
- The exchange decides everything else (`Runs.unique`).
-/

namespace Agents

structure Exchange where
  query : Query
  answer : query.Answer

namespace Exchange

def minted? : Exchange → Option TaskId
  | ⟨.newTask, id⟩ => some id
  | _ => none

def stored? : Exchange → Option (String × Json)
  | ⟨.remember key outputs, _⟩ => some (key, outputs)
  | _ => none

end Exchange

def mintedIds (log : List Exchange) : List TaskId := log.filterMap Exchange.minted?

@[simp] theorem mintedIds_nil : mintedIds [] = [] := rfl

@[simp] theorem mintedIds_append (log more : List Exchange) :
    mintedIds (log ++ more) = mintedIds log ++ mintedIds more := List.filterMap_append

def storedEntries (log : List Exchange) : List (String × Json) := log.filterMap Exchange.stored?

@[simp] theorem storedEntries_nil : storedEntries [] = [] := rfl

@[simp] theorem storedEntries_append (log more : List Exchange) :
    storedEntries (log ++ more) = storedEntries log ++ storedEntries more := List.filterMap_append

namespace Activity

variable {α β ω : Type}

instance : LawfulMonad Activity :=
  LawfulMonad.mk' Activity bind_done (fun _ _ => rfl) bind_assoc

/-- One way an activity may go: its exchange, its events and its result. -/
inductive Runs : Activity α → List Exchange → List Event → α → Prop
  | done (result : α) : Runs (.done result) [] [] result
  | report (event : Event) {rest : Activity α} {log : List Exchange} {events : List Event}
      {result : α} : Runs rest log events result →
      Runs (.report event rest) log (event :: events) result
  | ask {query : Query} (answer : query.Answer) {resume : query.Answer → Activity α}
      {log : List Exchange} {events : List Event} {result : α} :
      Runs (resume answer) log events result →
      Runs (.ask query resume) (⟨query, answer⟩ :: log) events result

theorem Runs.answered (x : Exchange) {resume : x.query.Answer → Activity α} {log : List Exchange}
    {es : List Event} {r : α} (h : Runs (resume x.answer) log es r) :
    Runs (.ask x.query resume) (x :: log) es r := .ask x.answer h

/-! ## Parts of a run -/

theorem runs_done {a r : α} {log : List Exchange} {es : List Event} :
    Runs (.done a) log es r ↔ log = [] ∧ es = [] ∧ r = a := by
  constructor
  · intro h
    cases h
    exact ⟨rfl, rfl, rfl⟩
  · rintro ⟨rfl, rfl, rfl⟩
    exact .done r

theorem runs_pure {a r : α} {log : List Exchange} {es : List Event} :
    Runs (pure a : Activity α) log es r ↔ log = [] ∧ es = [] ∧ r = a := runs_done

theorem runs_report {event : Event} {rest : Activity α} {log : List Exchange} {es : List Event}
    {r : α} : Runs (.report event rest) log es r ↔
      ∃ es', es = event :: es' ∧ Runs rest log es' r := by
  constructor
  · intro h
    cases h with
    | report _ h => exact ⟨_, rfl, h⟩
  · rintro ⟨es', rfl, h⟩
    exact .report event h

theorem runs_query {q : Query} {log : List Exchange} {es : List Event} {r : q.Answer} :
    Runs (query q) log es r ↔ log = [⟨q, r⟩] ∧ es = [] := by
  constructor
  · intro h
    cases h with
    | ask answer h =>
      cases h
      exact ⟨rfl, rfl⟩
  · rintro ⟨rfl, rfl⟩
    exact .ask r (.done r)

theorem not_runs_tooDeep {log : List Exchange} {es : List Event} {r : α} :
    ¬ Runs (.tooDeep : Activity α) log es r := fun h => nomatch h

theorem runs_bind {a : Activity α} {f : α → Activity β} {log : List Exchange} {es : List Event}
    {r : β} : Runs (a >>= f) log es r ↔ ∃ log₁ es₁ x log₂ es₂,
      log = log₁ ++ log₂ ∧ es = es₁ ++ es₂ ∧ Runs a log₁ es₁ x ∧ Runs (f x) log₂ es₂ r := by
  show Runs (a.bind f) log es r ↔ _
  constructor
  -- from left to right by the tree of the first activity, from right to left by its run
  · intro h
    induction a generalizing log es with
    | done x => exact ⟨[], [], x, log, es, rfl, rfl, .done x, h⟩
    | report event rest ih =>
      cases h with
      | report _ h =>
        obtain ⟨log₁, es₁, x, log₂, es₂, rfl, rfl, ha, hf⟩ := ih h
        exact ⟨log₁, event :: es₁, x, log₂, es₂, rfl, rfl, .report event ha, hf⟩
    | ask q resume ih =>
      cases h with
      | ask answer h =>
        obtain ⟨log₁, es₁, x, log₂, es₂, rfl, rfl, ha, hf⟩ := ih answer h
        exact ⟨_ :: log₁, es₁, x, log₂, es₂, rfl, rfl, .ask answer ha, hf⟩
    | tooDeep => exact absurd h not_runs_tooDeep
  · rintro ⟨log₁, es₁, x, log₂, es₂, rfl, rfl, ha, hf⟩
    induction ha with
    | done x => exact hf
    | report event _ ih => exact .report event (ih hf)
    | ask answer _ ih => exact .ask answer (ih hf)

theorem runs_map {a : Activity α} {f : α → β} {log : List Exchange} {es : List Event} {r : β} :
    Runs (f <$> a) log es r ↔ ∃ x, Runs a log es x ∧ r = f x := by
  rw [map_eq_pure_bind, runs_bind]
  constructor
  · rintro ⟨log₁, es₁, x, log₂, es₂, rfl, rfl, ha, hf⟩
    obtain ⟨rfl, rfl, rfl⟩ := runs_pure.mp hf
    exact ⟨x, by simpa using ha, rfl⟩
  · rintro ⟨x, ha, rfl⟩
    exact ⟨log, es, x, [], [], by simp, by simp, ha, .done _⟩

theorem runs_reporting {events : List Event} {a : Activity α} {log : List Exchange}
    {es : List Event} {r : α} :
    Runs (reporting events a) log es r ↔ ∃ es', es = events ++ es' ∧ Runs a log es' r := by
  induction events generalizing es with
  | nil => simp [reporting]
  | cons event rest ih =>
    show Runs (.report event (reporting rest a)) log es r ↔ _
    simp only [runs_report, ih, List.cons_append]
    constructor
    · rintro ⟨_, rfl, es', rfl, h⟩
      exact ⟨es', rfl, h⟩
    · rintro ⟨es', rfl, h⟩
      exact ⟨_, rfl, es', rfl, h⟩

theorem runs_reportAll {events : List Event} {log : List Exchange} {es : List Event} {r : Unit} :
    Runs (reportAll events) log es r ↔ log = [] ∧ es = events := by
  show Runs (reporting events (.done ())) log es r ↔ _
  rw [runs_reporting]
  constructor
  · rintro ⟨es', rfl, h⟩
    obtain ⟨rfl, rfl, _⟩ := runs_done.mp h
    exact ⟨rfl, List.append_nil _⟩
  · rintro ⟨rfl, rfl⟩
    exact ⟨[], (List.append_nil _).symm, .done _⟩

/-- Two runs with one exchange, as far as each goes, are the same run. -/
theorem Runs.unique {a : Activity α} {log₁ log₂ more₁ more₂ : List Exchange}
    {es₁ es₂ : List Event} {r₁ r₂ : α} (h₁ : Runs a log₁ es₁ r₁) (h₂ : Runs a log₂ es₂ r₂)
    (h : log₁ ++ more₁ = log₂ ++ more₂) : log₁ = log₂ ∧ es₁ = es₂ ∧ r₁ = r₂ := by
  induction h₁ generalizing log₂ es₂ with
  | done x =>
    cases h₂
    exact ⟨rfl, rfl, rfl⟩
  | report event _ ih =>
    cases h₂ with
    | report _ h₂ =>
      obtain ⟨rfl, rfl, rfl⟩ := ih h₂ h
      exact ⟨rfl, rfl, rfl⟩
  | ask answer _ ih =>
    cases h₂ with
    | ask answer' h₂ =>
      simp only [List.cons_append, List.cons.injEq, Exchange.mk.injEq, true_and] at h
      obtain ⟨hanswer, h⟩ := h
      cases hanswer
      obtain ⟨rfl, rfl, rfl⟩ := ih h₂ h
      exact ⟨rfl, rfl, rfl⟩

/-! ## Events of a part -/

/-- What becomes of some events that are replaced one by one, and the state after them. -/
def passAll (step : ω → Event → List Event × ω) (s : ω) : List Event → List Event × ω
  | [] => ([], s)
  | event :: rest =>
    let (events, s) := step s event
    let (more, s) := passAll step s rest
    (events ++ more, s)

theorem runs_through {step : ω → Event → List Event × ω} {s : ω} {a : Activity α}
    {log : List Exchange} {es : List Event} {r : α × ω} (h : Runs (a.through step s) log es r) :
    ∃ es', Runs a log es' r.1 ∧ passAll step s es' = (es, r.2) := by
  induction a generalizing s log es with
  | done x =>
    obtain ⟨rfl, rfl, rfl⟩ := runs_done.mp h
    exact ⟨[], .done x, rfl⟩
  | report event rest ih =>
    change Runs (reporting (step s event).1 (rest.through step (step s event).2)) log es r at h
    obtain ⟨es', rfl, hpassed⟩ := runs_reporting.mp h
    obtain ⟨inner, hrest, hpass⟩ := ih hpassed
    exact ⟨event :: inner, .report event hrest, by simp [passAll, hpass]⟩
  | ask q resume ih =>
    cases h with
    | ask answer h =>
      obtain ⟨inner, hrest, hpass⟩ := ih answer h
      exact ⟨inner, .ask answer hrest, hpass⟩
  | tooDeep => exact absurd h not_runs_tooDeep

/-- However the events of a part are passed on, a run of the part is one of the whole. -/
theorem exists_runs_through {a : Activity α} {log : List Exchange} {es : List Event} {r : α}
    (h : Runs a log es r) (step : ω → Event → List Event × ω) (s : ω) :
    ∃ es' s', Runs (a.through step s) log es' (r, s') := by
  induction h generalizing s with
  | done result => exact ⟨[], s, .done (result, s)⟩
  | report event _ ih =>
    obtain ⟨es', s', hrest⟩ := ih (step s event).2
    exact ⟨_, s', runs_reporting.mpr ⟨es', rfl, hrest⟩⟩
  | ask answer _ ih =>
    obtain ⟨es', s', hrest⟩ := ih s
    exact ⟨es', s', .ask answer hrest⟩

/-! ## Runs that can fail -/

section Failing

variable {ε : Type}

theorem runs_ok {a : α} {r : Except ε α} {log : List Exchange} {es : List Event} :
    Runs (pure a : ExceptT ε Activity α).run log es r ↔ log = [] ∧ es = [] ∧ r = .ok a := runs_pure

theorem runs_throw {e : ε} {r : Except ε α} {log : List Exchange} {es : List Event} :
    Runs (throw e : ExceptT ε Activity α).run log es r ↔ log = [] ∧ es = [] ∧ r = .error e :=
  runs_pure

/-- A run of two parts ends with the failure of the first, or goes on with its result. -/
theorem runs_andThen {x : ExceptT ε Activity α} {f : α → ExceptT ε Activity β}
    {log : List Exchange} {es : List Event} {r : Except ε β} :
    Runs (x >>= f).run log es r ↔ (∃ e, r = .error e ∧ Runs x.run log es (.error e)) ∨
      ∃ log₁ es₁ a log₂ es₂, log = log₁ ++ log₂ ∧ es = es₁ ++ es₂ ∧
        Runs x.run log₁ es₁ (.ok a) ∧ Runs (f a).run log₂ es₂ r := by
  rw [ExceptT.run_bind, runs_bind]
  constructor
  · rintro ⟨log₁, es₁, x, log₂, es₂, rfl, rfl, hx, hf⟩
    cases x with
    | ok a => exact .inr ⟨log₁, es₁, a, log₂, es₂, rfl, rfl, hx, hf⟩
    | error e =>
      obtain ⟨rfl, rfl, rfl⟩ := runs_pure.mp hf
      exact .inl ⟨e, rfl, by simpa using hx⟩
  · rintro (⟨e, rfl, hx⟩ | ⟨log₁, es₁, a, log₂, es₂, rfl, rfl, hx, hf⟩)
    · exact ⟨log, es, .error e, [], [], by simp, by simp, hx, .done _⟩
    · exact ⟨log₁, es₁, .ok a, log₂, es₂, rfl, rfl, hx, hf⟩

/-- A part that succeeds and a run of the rest are a run of both. -/
theorem Runs.andThen {x : ExceptT ε Activity α} {f : α → ExceptT ε Activity β} {a : α}
    {log₁ log₂ : List Exchange} {es₁ es₂ : List Event} {r : Except ε β}
    (hx : Runs x.run log₁ es₁ (.ok a)) (hf : Runs (f a).run log₂ es₂ r) :
    Runs (x >>= f).run (log₁ ++ log₂) (es₁ ++ es₂) r :=
  runs_andThen.mpr (.inr ⟨log₁, es₁, a, log₂, es₂, rfl, rfl, hx, hf⟩)

theorem run_liftThen {a : Activity α} {f : α → ExceptT ε Activity β} :
    ((liftM a : ExceptT ε Activity α) >>= f).run = a >>= fun x => (f x).run := by
  show (Except.ok <$> a) >>= ExceptT.bindCont f = _
  rw [bind_map_left]
  rfl

theorem runs_liftThen {a : Activity α} {f : α → ExceptT ε Activity β} {log : List Exchange}
    {es : List Event} {r : Except ε β} :
    Runs ((liftM a : ExceptT ε Activity α) >>= f).run log es r ↔ ∃ log₁ es₁ x log₂ es₂,
      log = log₁ ++ log₂ ∧ es = es₁ ++ es₂ ∧ Runs a log₁ es₁ x ∧ Runs (f x).run log₂ es₂ r := by
  rw [run_liftThen]
  exact runs_bind

theorem runs_ofExcept {x r : Except ε α} {log : List Exchange} {es : List Event} :
    Runs (MonadExcept.ofExcept x : ExceptT ε Activity α).run log es r ↔
      log = [] ∧ es = [] ∧ r = x := by
  cases x with
  | ok a => exact runs_ok
  | error e => exact runs_throw

theorem runs_mapOk {x : ExceptT ε Activity α} {f : α → β} {log : List Exchange} {es : List Event}
    {r : Except ε β} :
    Runs (f <$> x).run log es r ↔ ∃ r', Runs x.run log es r' ∧ r = r'.map f := by
  rw [ExceptT.run_map]
  exact runs_map

theorem runs_adapt {ε' : Type} {x : ExceptT ε Activity α} {f : ε → ε'} {log : List Exchange}
    {es : List Event} {r : Except ε' α} :
    Runs (x.adapt f).run log es r ↔ ∃ r', Runs x.run log es r' ∧ r = r'.mapError f := by
  show Runs (Except.mapError f <$> x.run) log es r ↔ _
  exact runs_map

end Failing

/-! ## Kinds of activities -/

/-- A kind of activities that contains those without any step, and with two activities the one that
does first the one and then the other. -/
structure Compositional (P : {α : Type} → Activity α → Prop) : Prop where
  pure : ∀ {α : Type} (a : α), P (Pure.pure a : Activity α)
  bind : ∀ {α β : Type} {a : Activity α} {f : α → Activity β},
    P a → (∀ x, P (f x)) → P (a >>= f)

namespace Compositional

variable {P : {α : Type} → Activity α → Prop} {ε : Type}

theorem map (hP : Compositional P) {a : Activity α} (f : α → β) (ha : P a) : P (f <$> a) := by
  rw [map_eq_pure_bind]
  exact hP.bind ha fun x => hP.pure (f x)

theorem ok (hP : Compositional P) (a : α) : P (Pure.pure a : ExceptT ε Activity α).run :=
  hP.pure (Except.ok a)

theorem throw (hP : Compositional P) (e : ε) :
    P (MonadExcept.throw e : ExceptT ε Activity α).run := hP.pure (Except.error e)

theorem ofExcept (hP : Compositional P) (x : Except ε α) :
    P (MonadExcept.ofExcept x : ExceptT ε Activity α).run := by
  cases x with
  | ok a => exact hP.ok a
  | error e => exact hP.throw e

theorem lift (hP : Compositional P) {a : Activity α} (ha : P a) :
    P (liftM a : ExceptT ε Activity α).run := hP.map Except.ok ha

theorem andThen (hP : Compositional P) {x : ExceptT ε Activity α}
    {f : α → ExceptT ε Activity β} (hx : P x.run) (hf : ∀ a, P (f a).run) :
    P (x >>= f).run := by
  rw [ExceptT.run_bind]
  refine hP.bind hx fun r => ?_
  cases r with
  | ok a => exact hf a
  | error e => exact hP.pure (Except.error e)

theorem mapOk (hP : Compositional P) {x : ExceptT ε Activity α} (f : α → β) (hx : P x.run) :
    P (f <$> x).run := by
  rw [map_eq_pure_bind]
  exact hP.andThen hx fun a => hP.ok (f a)

theorem mapM (hP : Compositional P) {f : α → ExceptT ε Activity β} (hf : ∀ a, P (f a).run)
    (xs : List α) : P (xs.mapM f).run := by
  induction xs with
  | nil => exact hP.ok []
  | cons x rest ih =>
    rw [List.mapM_cons]
    exact hP.andThen (hf x) fun y => hP.andThen ih fun ys => hP.ok _

theorem foldlM (hP : Compositional P) {f : β → α → ExceptT ε Activity β}
    (hf : ∀ b a, P (f b a).run) (xs : List α) (b : β) : P (xs.foldlM f b).run := by
  induction xs generalizing b with
  | nil => exact hP.ok b
  | cons x rest ih =>
    rw [List.foldlM_cons]
    exact hP.andThen (hf b x) fun b => ih b

end Compositional

/-! ## What holds of every run -/

/-- However the activity goes, its exchange and its events are of this kind. -/
def Within (L : List Exchange → List Event → Prop) (a : Activity α) : Prop :=
  ∀ ⦃log es r⦄, Runs a log es r → L log es

theorem within_map {L : List Exchange → List Event → Prop} {a : Activity α} (f : α → β)
    (ha : Within L a) : Within L (f <$> a) := by
  intro log es r h
  obtain ⟨x, hx, rfl⟩ := runs_map.mp h
  exact ha hx

theorem within_lift {ε : Type} {L : List Exchange → List Event → Prop} {a : Activity α}
    (ha : Within L a) : Within L (liftM a : ExceptT ε Activity α).run := within_map Except.ok ha

/-- A kind of runs that contains the run without anything, and with two runs the one that is first
the one and then the other. -/
structure Composable (L : List Exchange → List Event → Prop) : Prop where
  nil : L [] []
  append : ∀ {log₁ log₂ : List Exchange} {es₁ es₂ : List Event},
    L log₁ es₁ → L log₂ es₂ → L (log₁ ++ log₂) (es₁ ++ es₂)

theorem Composable.within {L : List Exchange → List Event → Prop} (hL : Composable L) :
    Compositional (Within L) where
  pure := by
    intro α a log es r h
    obtain ⟨rfl, rfl, rfl⟩ := runs_pure.mp h
    exact hL.nil
  bind := by
    intro α β a f ha hf log es r h
    obtain ⟨log₁, es₁, x, log₂, es₂, rfl, rfl, h₁, h₂⟩ := runs_bind.mp h
    exact hL.append (ha h₁) (hf x h₂)

end Activity

end Agents
