import Agents.Proofs.Run.Transcript

/-! # Activities on their way

A run that is followed to its end says nothing about an activity that is dropped before it comes
there. `Activity.Advances` follows an activity for a while: it tells what is exchanged and reported
so far, and what is left to do. An activity runs to its end if nothing but a result is left
(`runs_iff_advances`).

- An activity followed by another is on its way in the first, or through with it and on its way in
  the second (`advances_bind`).
- `Always` is to `Advances` what `Within` is to `Runs`, and as easy to put together.
-/

namespace Agents.Activity

variable {α β ω ε : Type}

/-- The activity goes on for a while; `left` is what it has still to do. -/
inductive Advances : Activity α → List Exchange → List Event → Activity α → Prop
  | here (a : Activity α) : Advances a [] [] a
  | report (event : Event) {rest left : Activity α} {log : List Exchange} {es : List Event} :
      Advances rest log es left → Advances (.report event rest) log (event :: es) left
  | ask {query : Query} (answer : query.Answer) {resume : query.Answer → Activity α}
      {left : Activity α} {log : List Exchange} {es : List Event} :
      Advances (resume answer) log es left →
      Advances (.ask query resume) (⟨query, answer⟩ :: log) es left

def Finished (a : Activity α) : Prop := ∃ r, a = .done r

theorem finished_done (r : α) : Finished (.done r : Activity α) := ⟨r, rfl⟩

theorem not_finished_report (event : Event) (rest : Activity α) :
    ¬ Finished (.report event rest) := nofun

theorem not_finished_ask (query : Query) (resume : query.Answer → Activity α) :
    ¬ Finished (.ask query resume) := nofun

theorem not_finished_tooDeep : ¬ Finished (.tooDeep : Activity α) := nofun

theorem runs_iff_advances {a : Activity α} {log : List Exchange} {es : List Event} {r : α} :
    Runs a log es r ↔ Advances a log es (.done r) := by
  constructor
  · intro h
    induction h with
    | done r => exact .here _
    | report event _ ih => exact .report event ih
    | ask answer _ ih => exact .ask answer ih
  · intro h
    generalize hleft : Activity.done r = left at h
    induction h with
    | here a =>
      subst hleft
      exact .done r
    | report event _ ih => exact .report event (ih hleft)
    | ask answer _ ih => exact .ask answer (ih hleft)

theorem Advances.trans {a b c : Activity α} {log₁ log₂ : List Exchange} {es₁ es₂ : List Event}
    (h₁ : Advances a log₁ es₁ b) (h₂ : Advances b log₂ es₂ c) :
    Advances a (log₁ ++ log₂) (es₁ ++ es₂) c := by
  induction h₁ with
  | here a => exact h₂
  | report event _ ih => exact .report event (ih h₂)
  | ask answer _ ih => exact .ask answer (ih h₂)

theorem advances_done {r : α} {log : List Exchange} {es : List Event} {left : Activity α}
    (h : Advances (.done r) log es left) : log = [] ∧ es = [] ∧ left = .done r := by
  cases h
  exact ⟨rfl, rfl, rfl⟩

theorem advances_ofExcept {x : Except ε α} {log : List Exchange} {es : List Event}
    {left : Activity (Except ε α)}
    (h : Advances (MonadExcept.ofExcept x : ExceptT ε Activity α).run log es left) :
    log = [] ∧ es = [] := by
  cases x with
  | ok a =>
    obtain ⟨hlog, hes, -⟩ := advances_done h
    exact ⟨hlog, hes⟩
  | error e =>
    obtain ⟨hlog, hes, -⟩ := advances_done h
    exact ⟨hlog, hes⟩

theorem advances_tooDeep {log : List Exchange} {es : List Event} {left : Activity α}
    (h : Advances .tooDeep log es left) : log = [] ∧ es = [] ∧ left = .tooDeep := by
  cases h
  exact ⟨rfl, rfl, rfl⟩

/-! ## One activity after another -/

theorem finished_of_bind {a : Activity α} {f : α → Activity β} (h : Finished (a >>= f)) :
    Finished a := by
  cases a with
  | done x => exact finished_done x
  | report event rest => exact absurd h (not_finished_report event _)
  | ask query resume => exact absurd h (not_finished_ask query _)
  | tooDeep => exact absurd h not_finished_tooDeep

theorem advances_bind {a : Activity α} {f : α → Activity β} {log : List Exchange}
    {es : List Event} {left : Activity β} (h : Advances (a >>= f) log es left) :
    (∃ left', Advances a log es left' ∧ ¬ Finished left' ∧ left = left' >>= f) ∨
      ∃ log₁ es₁ x log₂ es₂, log = log₁ ++ log₂ ∧ es = es₁ ++ es₂ ∧ Runs a log₁ es₁ x ∧
        Advances (f x) log₂ es₂ left := by
  induction a generalizing log es with
  | done x => exact .inr ⟨[], [], x, log, es, rfl, rfl, .done x, h⟩
  | report event rest ih =>
    cases h with
    | here => exact .inl ⟨_, .here _, not_finished_report event rest, rfl⟩
    | report _ h =>
      rcases ih h with ⟨left', ha, hopen, rfl⟩ | ⟨log₁, es₁, x, log₂, es₂, rfl, rfl, ha, hf⟩
      · exact .inl ⟨left', .report event ha, hopen, rfl⟩
      · exact .inr ⟨log₁, event :: es₁, x, log₂, es₂, rfl, rfl, .report event ha, hf⟩
  | ask query resume ih =>
    cases h with
    | here => exact .inl ⟨_, .here _, not_finished_ask query resume, rfl⟩
    | ask answer h =>
      rcases ih answer h with
        ⟨left', ha, hopen, rfl⟩ | ⟨log₁, es₁, x, log₂, es₂, rfl, rfl, ha, hf⟩
      · exact .inl ⟨left', .ask answer ha, hopen, rfl⟩
      · exact .inr ⟨_ :: log₁, es₁, x, log₂, es₂, rfl, rfl, .ask answer ha, hf⟩
  | tooDeep =>
    obtain ⟨rfl, rfl, rfl⟩ := advances_tooDeep h
    exact .inl ⟨_, .here _, not_finished_tooDeep, rfl⟩

theorem advances_map {a : Activity α} {f : α → β} {log : List Exchange} {es : List Event}
    {left : Activity β} (h : Advances (f <$> a) log es left) :
    ∃ left', Advances a log es left' ∧ left = f <$> left' := by
  rw [map_eq_pure_bind] at h
  rcases advances_bind h with ⟨left', ha, _, rfl⟩ | ⟨log₁, es₁, x, log₂, es₂, rfl, rfl, ha, hf⟩
  · exact ⟨left', ha, (map_eq_pure_bind _ _).symm⟩
  · obtain ⟨rfl, rfl, rfl⟩ := advances_done hf
    exact ⟨.done x, by simpa using runs_iff_advances.mp ha, rfl⟩

theorem advances_query {q : Query} {log : List Exchange} {es : List Event}
    {left : Activity q.Answer} (h : Advances (query q) log es left) :
    es = [] ∧ (log = [] ∨ ∃ answer, log = [⟨q, answer⟩]) := by
  cases h with
  | here => exact ⟨rfl, .inl rfl⟩
  | ask answer h =>
    obtain ⟨rfl, rfl, _⟩ := advances_done h
    exact ⟨rfl, .inr ⟨answer, rfl⟩⟩

theorem advances_reporting {events : List Event} {a : Activity α} {log : List Exchange}
    {es : List Event} {left : Activity α} (h : Advances (reporting events a) log es left) :
    (log = [] ∧ es <+: events) ∨ ∃ es', es = events ++ es' ∧ Advances a log es' left := by
  induction events generalizing es with
  | nil => exact .inr ⟨es, rfl, h⟩
  | cons event rest ih =>
    change Advances (.report event (reporting rest a)) log es left at h
    cases h with
    | here => exact .inl ⟨rfl, List.nil_prefix⟩
    | report _ h =>
      rcases ih h with ⟨rfl, hes⟩ | ⟨es', rfl, ha⟩
      · exact .inl ⟨rfl, (List.prefix_cons_inj event).mpr hes⟩
      · exact .inr ⟨es', rfl, ha⟩

theorem advances_reportAll {events : List Event} {log : List Exchange} {es : List Event}
    {left : Activity Unit} (h : Advances (reportAll events) log es left) :
    log = [] ∧ es <+: events := by
  rcases advances_reporting h with hshort | ⟨es', rfl, hdone⟩
  · exact hshort
  · obtain ⟨rfl, rfl, _⟩ := advances_done hdone
    exact ⟨rfl, by simp⟩

/-! ## Events of a part -/

/-- What is seen of a part on its way is the beginning of what is made of its events. -/
theorem advances_through {step : ω → Event → List Event × ω} {s : ω} {a : Activity α}
    {log : List Exchange} {es : List Event} {left : Activity (α × ω)}
    (h : Advances (a.through step s) log es left) :
    ∃ said left', Advances a log said left' ∧ es <+: (passAll step s said).1 := by
  induction a generalizing s log es with
  | done x =>
    obtain ⟨rfl, rfl, _⟩ := advances_done h
    exact ⟨[], _, .here _, List.nil_prefix⟩
  | report event rest ih =>
    change Advances (reporting (step s event).1 (rest.through step (step s event).2)) log es left
      at h
    rcases advances_reporting h with ⟨rfl, hes⟩ | ⟨es', rfl, hrest⟩
    · exact ⟨[event], rest, .report event (.here rest), hes.trans (List.prefix_append _ _)⟩
    · obtain ⟨said, left', ha, hes⟩ := ih hrest
      exact ⟨event :: said, left', .report event ha, (List.prefix_append_right_inj _).mpr hes⟩
  | ask query resume ih =>
    cases h with
    | here => exact ⟨[], _, .here _, List.nil_prefix⟩
    | ask answer h =>
      obtain ⟨said, left', ha, hes⟩ := ih answer h
      exact ⟨said, left', .ask answer ha, hes⟩
  | tooDeep =>
    obtain ⟨rfl, rfl, _⟩ := advances_tooDeep h
    exact ⟨[], _, .here _, List.nil_prefix⟩

/-! ## Activities that can fail -/

theorem advances_andThen {x : ExceptT ε Activity α} {f : α → ExceptT ε Activity β}
    {log : List Exchange} {es : List Event} {left : Activity (Except ε β)}
    (h : Advances (x >>= f).run log es left) :
    (∃ left', Advances x.run log es left' ∧ ¬ Finished left' ∧ ¬ Finished left) ∨
      (∃ e, left = .done (.error e) ∧ Runs x.run log es (.error e)) ∨
      ∃ log₁ es₁ a log₂ es₂, log = log₁ ++ log₂ ∧ es = es₁ ++ es₂ ∧ Runs x.run log₁ es₁ (.ok a) ∧
        Advances (f a).run log₂ es₂ left := by
  rw [ExceptT.run_bind] at h
  rcases advances_bind h with
    ⟨left', hx, hopen, rfl⟩ | ⟨log₁, es₁, r, log₂, es₂, rfl, rfl, hx, hf⟩
  · exact .inl ⟨left', hx, hopen, fun hdone => hopen (finished_of_bind hdone)⟩
  · cases r with
    | error e =>
      obtain ⟨rfl, rfl, rfl⟩ := advances_done hf
      exact .inr (.inl ⟨e, rfl, by simpa using hx⟩)
    | ok a => exact .inr (.inr ⟨log₁, es₁, a, log₂, es₂, rfl, rfl, hx, hf⟩)

theorem advances_liftThen {a : Activity α} {f : α → ExceptT ε Activity β} {log : List Exchange}
    {es : List Event} {left : Activity (Except ε β)}
    (h : Advances ((liftM a : ExceptT ε Activity α) >>= f).run log es left) :
    (∃ left', Advances a log es left' ∧ ¬ Finished left) ∨
      ∃ log₁ es₁ x log₂ es₂, log = log₁ ++ log₂ ∧ es = es₁ ++ es₂ ∧ Runs a log₁ es₁ x ∧
        Advances (f x).run log₂ es₂ left := by
  rw [run_liftThen] at h
  rcases advances_bind h with ⟨left', ha, hopen, rfl⟩ | hafter
  · exact .inl ⟨left', ha, fun hdone => hopen (finished_of_bind hdone)⟩
  · exact .inr hafter

/-! ## What holds all the way -/

/-- However far the activity goes, its exchange and its events are of this kind. -/
def Always (L : List Exchange → List Event → Prop) (a : Activity α) : Prop :=
  ∀ ⦃log es left⦄, Advances a log es left → L log es

theorem Composable.always {L : List Exchange → List Event → Prop} (hL : Composable L) :
    Compositional (Always L) where
  pure := by
    intro α a log es left h
    obtain ⟨rfl, rfl, _⟩ := advances_done h
    exact hL.nil
  bind := by
    intro α β a f ha hf log es left h
    rcases advances_bind h with ⟨left', h₁, _, _⟩ | ⟨log₁, es₁, x, log₂, es₂, rfl, rfl, h₁, h₂⟩
    · exact ha h₁
    · exact hL.append (ha (runs_iff_advances.mp h₁)) (hf x h₂)

end Agents.Activity
