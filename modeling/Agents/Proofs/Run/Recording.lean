import Agents.Proofs.Run.Transcript
import Agents.Run.Services

/-! # Recorded services

Services that keep a record of the events they take (`Services.recording`) show what an activity
reports when it is served to its end, beside what it gives (`Services.observe`).

- Two activities in a row are recorded one after the other (`Services.record_bind`).
- What is recorded is one of the activity's runs (`Services.runs_of_observe`).
-/

namespace Agents

open Activity

/-- A result with the events that were reported until then, and the cache at that time. -/
structure Observation (α : Type) where
  result : α
  events : List Event
  cache : Option Cache

section Recording

variable {σ α β : Type}

def keepRecord (x : StateM σ α) : StateM (σ × List Event) α := fun (state, record) =>
  let (result, state) := x.run state
  (result, (state, record))

def Services.recording (s : Services (StateM σ)) : Services (StateM (σ × List Event)) where
  model messages settings := keepRecord (s.model messages settings)
  images prompt settings count := keepRecord (s.images prompt settings count)
  agent identity := keepRecord (s.agent identity)
  endpoint name := keepRecord (s.endpoint name)
  memory identity := keepRecord (s.memory identity)
  http request := keepRecord (s.http request)
  clock := keepRecord s.clock
  newTask := keepRecord s.newTask
  report event := fun (state, record) => ((), (((s.report event).run state).2, record ++ [event]))

/-- Serves an activity with a record from this cache and this state on. -/
def Services.record (s : Services (StateM σ)) (a : Activity α) (cache : Option Cache)
    (state : σ × List Event) : (Option α × Option Cache) × (σ × List Event) :=
  ((s.recording.serve a).run cache).run state

/-- What is observed of an activity that is served to its end; nothing is of one that is too
deep. -/
def Services.observe (s : Services (StateM σ)) (a : Activity α) (cache : Option Cache)
    (state : σ) : Option (Observation α) :=
  match s.record a cache (state, []) with
  | ((result, cache), (_, events)) => result.map (⟨·, events, cache⟩)

theorem Services.serve_bind {m : Type → Type} [Monad m] [LawfulMonad m] (s : Services m)
    (a : Activity α) (f : α → Activity β) :
    s.serve (a >>= f) = s.serve a >>= fun result =>
      match result with
      | some x => s.serve (f x)
      | none => pure none := by
  show s.serve (a.bind f) = _
  induction a with
  | done x => simp [Activity.bind, serve]
  | report event rest ih => simp [Activity.bind, serve, ih]
  | ask q resume ih => simp [Activity.bind, serve, ih]
  | tooDeep => simp [Activity.bind, serve]

theorem Services.record_bind (s : Services (StateM σ)) (a : Activity α) (f : α → Activity β)
    (cache : Option Cache) (state : σ × List Event) :
    s.record (a >>= f) cache state =
      match s.record a cache state with
      | ((some x, cache), state) => s.record (f x) cache state
      | ((none, cache), state) => ((none, cache), state) := by
  unfold record
  rw [serve_bind]
  change (fun p : (Option α × Option Cache) × (σ × List Event) =>
    ((match p.1.1 with
      | some x => s.recording.serve (f x)
      | none => pure none).run p.1.2).run p.2) (((s.recording.serve a).run cache).run state) = _
  generalize ((s.recording.serve a).run cache).run state = served
  obtain ⟨⟨_ | x, cache'⟩, state'⟩ := served <;> rfl

/-- Recorded queries are answered without an event, and ids are those that the services mint. -/
theorem Services.recording_answer (s : Services (StateM σ)) (q : Query) (cache : Option Cache)
    (state : σ × List Event) : ∃ answer cache' state',
      ((s.recording.answer q).run cache).run state = ((answer, cache'), (state', state.2)) ∧
      ∀ id ∈ mintedIds [⟨q, answer⟩], ∃ state, (s.newTask.run state).1 = id := by
  obtain ⟨state, record⟩ := state
  cases q with
  | newTask => exact ⟨_, _, _, rfl, List.forall_mem_singleton.mpr ⟨state, rfl⟩⟩
  | _ => exact ⟨_, _, _, rfl, List.forall_mem_nil _⟩

theorem Services.runs_of_record (s : Services (StateM σ)) {a : Activity α} {r : α}
    {cache cache' : Option Cache} {state state' : σ × List Event}
    (h : s.record a cache state = ((some r, cache'), state')) :
    ∃ log es, Runs a log es r ∧ state'.2 = state.2 ++ es ∧
      ∀ id ∈ mintedIds log, ∃ state, (s.newTask.run state).1 = id := by
  induction a generalizing cache state with
  | done result =>
    cases h
    exact ⟨[], [], .done r, (List.append_nil _).symm, List.forall_mem_nil _⟩
  | report event rest ih =>
    have hrest : s.record rest cache (((s.report event).run state.1).2, state.2 ++ [event]) =
        ((some r, cache'), state') := h
    obtain ⟨log, es, hrun, hes, hids⟩ := ih hrest
    exact ⟨log, event :: es, .report event hrun, by rw [hes, List.append_assoc]; rfl, hids⟩
  | ask q resume ih =>
    obtain ⟨answer, cache₁, state₁, hanswer, hid⟩ := s.recording_answer q cache state
    have hstep : s.record (.ask q resume) cache state =
        (fun p => s.record (resume p.1.1) p.1.2 p.2)
          (((s.recording.answer q).run cache).run state) := rfl
    rw [hanswer] at hstep
    obtain ⟨log, es, hrun, hes, hids⟩ := ih answer (hstep.symm.trans h)
    refine ⟨_, es, .ask answer hrun, hes, fun id hmem => ?_⟩
    have hmem' : id ∈ mintedIds ([⟨q, answer⟩] ++ log) := hmem
    rw [mintedIds_append] at hmem'
    exact (List.mem_append.mp hmem').elim (hid id) (hids id)
  | tooDeep => cases h

theorem Services.runs_of_observe {s : Services (StateM σ)} {a : Activity α}
    {cache : Option Cache} {state : σ} {seen : Observation α}
    (h : s.observe a cache state = some seen) :
    ∃ log, Runs a log seen.events seen.result ∧
      ∀ id ∈ mintedIds log, ∃ state, (s.newTask.run state).1 = id := by
  unfold observe at h
  split at h
  next result cache' state' events hrecord =>
  obtain ⟨r, rfl, rfl⟩ := Option.map_eq_some_iff.mp h
  obtain ⟨log, es, hrun, rfl, hids⟩ : ∃ log es, Runs a log es r ∧ events = es ∧ _ :=
    s.runs_of_record hrecord
  exact ⟨log, hrun, hids⟩

end Recording

/-- Services that know nothing. They count the tasks that began, and their clock counts as well. -/
def countingServices : Services (StateM Nat) where
  model _ _ := return .error .cancelled
  images _ _ _ := return .error .cancelled
  agent _ := return .ok none
  endpoint _ := return .ok none
  memory _ := return .ok []
  http _ := return .error .cancelled
  clock := fun n => (⟨n, 0⟩, n + 1)
  newTask := fun n => ("task-" ++ toString n, n + 1)
  report _ := return ()

end Agents
