import Agents.Run.Query

/-! # Activities

An activity is a run seen from outside: it reports events, asks queries and goes on with the
answers, until it is done. Agents that run agents may be nested deeper than was allowed for; such an
activity has no result.

An activity that can fail is done with an error. The events that it reported stay reported.
-/

namespace Agents

inductive Activity (α : Type) where
  | done (result : α)
  | report (event : Event) (rest : Activity α)
  | ask (query : Query) (resume : query.Answer → Activity α)
  /-- Agents are nested deeper than allowed. -/
  | tooDeep

/-- An activity that ends with a result or an error. -/
abbrev Fallible (α : Type) := ExceptT Error Activity α

namespace Activity

variable {α β ω : Type}

def bind (a : Activity α) (next : α → Activity β) : Activity β :=
  match a with
  | .done result => next result
  | .report event rest => .report event (rest.bind next)
  | .ask query resume => .ask query fun answer => (resume answer).bind next
  | .tooDeep => .tooDeep

instance : Monad Activity where
  pure := .done
  bind := bind

theorem bind_done (a : Activity α) : a.bind .done = a := by
  induction a with
  | done result => rfl
  | report event rest ih => simp [bind, ih]
  | ask query resume ih => simp [bind, ih]
  | tooDeep => rfl

theorem bind_assoc {γ : Type} (a : Activity α) (f : α → Activity β) (g : β → Activity γ) :
    (a.bind f).bind g = a.bind fun x => (f x).bind g := by
  induction a with
  | done result => rfl
  | report event rest ih => simp [bind, ih]
  | ask query resume ih => simp [bind, ih]
  | tooDeep => rfl

/-- Reports some events before going on. -/
def reporting (events : List Event) (rest : Activity α) : Activity α := events.foldr .report rest

def reportAll (events : List Event) : Activity Unit := reporting events (.done ())

def query (q : Query) : Activity q.Answer := .ask q .done

def now : Activity Timestamp := query .clock

/-! ## Events of a part -/

/-- Replaces every event by others, with a state that is kept between them. -/
def through (step : ω → Event → List Event × ω) (s : ω) : Activity α → Activity (α × ω)
  | .done result => .done (result, s)
  | .report event rest =>
    let (events, s) := step s event
    reporting events (rest.through step s)
  | .ask query resume => .ask query fun answer => (resume answer).through step s
  | .tooDeep => .tooDeep

end Activity

end Agents
