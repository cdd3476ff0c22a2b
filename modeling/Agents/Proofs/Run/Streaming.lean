import Agents.Proofs.Run.Blocks
import Agents.Proofs.Run.Nesting
import Agents.Proofs.Run.Recording

/-! # Streamed runs

A run can be read in two ways: a call hands over its events and returns, a stream hands over updates
until it ends. Both are observed as recorded services see them.

- A call and a stream are the same run with another ending each, so both are served alike until it
  is over (`record_execute`, `record_stream`). Clock readings and minted ids are answers of the
  services like any other, and so are the turns of concurrent steps the same as well.
- Inside a task there are only events of tasks (`Event.IsInside.taskId?_ne_none`), also where
  tasks take turns and some of them are dropped. So no run reports an ERROR before its ending, and a
  stream ends once, after all of its events (`stream_agrees`).
-/

namespace Agents

open Activity

/-! ## Failures on the record -/

def Event.IsFailure : Event → Prop
  | .error _ => True
  | _ => False

theorem Event.not_isFailure {event : Event} (h : event.taskId? ≠ none) : ¬ event.IsFailure := by
  cases event <;> first | exact id | exact absurd rfl h

namespace Engine

variable {overlap : Overlap} {e : Engine} {projectId agentRef : String} {inputs : Json}
  {options : RunOptions} {log : List Exchange} {es : List Event}

/-- In the run of a task there is no ERROR. -/
theorem PerformsWith.not_isFailure {depth : Nat} {r : TaskRun}
    (h : e.PerformsWith overlap.process depth projectId agentRef inputs options r log es) :
    ∀ event ∈ es, ¬ event.IsFailure := by
  rw [h.events]
  intro event hevent
  rcases List.mem_append.mp hevent with hgreeting | hblock
  · obtain ⟨content, _, rfl⟩ := Option.map_eq_some_iff.mp (Option.mem_toList.mp hgreeting)
    exact id
  · rcases TaskRun.mem_block hblock with hinner | hown
    · exact Event.not_isFailure (h.nested event hinner).taskId?_ne_none
    · refine Event.not_isFailure ?_
      rw [hown]
      exact Option.some_ne_none _

/-- A run reports no ERROR, and a failed one has reported the start of a task exactly if one was
started; otherwise it has reported nothing. -/
theorem run_failures {depth : Nat} {res : Except RunFailure Json}
    (h : Runs (e.runWith overlap.process depth projectId agentRef inputs options).run log es res) :
    (∀ event ∈ es, ¬ event.IsFailure) ∧ ∀ failure, res = .error failure →
      (failure.started = true ∧ ∃ r : TaskRun, r.startEvent ∈ es) ∨
      (failure.started = false ∧ es = []) := by
  cases depth with
  | zero => exact absurd h not_runs_tooDeep
  | succ depth =>
  rcases run_cases h with ⟨rfl, hskips⟩ | ⟨r, hperforms, rfl⟩
  · refine ⟨fun event hevent => absurd hevent List.not_mem_nil, fun failure hfailure => .inr ?_⟩
    rw [hfailure] at hskips
    exact ⟨hskips.started_eq_false, rfl⟩
  · refine ⟨hperforms.not_isFailure, fun failure hfailure => .inl ⟨?_, r, ?_⟩⟩
    · cases hr : r.outcome with
      | ok outputs => rw [hr] at hfailure; cases hfailure
      | error error => rw [hr] at hfailure; cases hfailure; rfl
    · rw [hperforms.events]
      simp [TaskRun.block]

end Engine

/-! ## Calls and streams -/

/-- Nothing comes after such an update. -/
def RunUpdate.IsTerminal : RunUpdate → Prop
  | event e => e.IsFailure
  | completed _ => True

/-- The last update is the only one that nothing comes after. -/
def EndsOnce (updates : List RunUpdate) : Prop :=
  ∃ before last, updates = before ++ [last] ∧ last.IsTerminal ∧ ∀ u ∈ before, ¬ u.IsTerminal

/-- The updates of a stream, as they follow from what a call reports and gives. -/
inductive StreamsAs : List Event → Except Error Json → List RunUpdate → Prop
  /-- The events of the call, and then its outputs. -/
  | completed (events : List Event) (outputs : Json) :
      StreamsAs events (.ok outputs) (events.map .event ++ [.completed outputs])
  /-- A task began and the run failed: the events of the call, of which the last is its ERROR. -/
  | failed {before : List Event} {r : TaskRun} (failure : Error) (now : Timestamp) :
      r.startEvent ∈ before →
      StreamsAs (before ++ [.error (.ofError failure now)]) (.error failure)
        ((before ++ [Event.error (.ofError failure now)]).map .event)
  /-- The run failed before any task: an ERROR, of which the call reports nothing. -/
  | refused (failure : Error) (now : Timestamp) :
      StreamsAs [] (.error failure) [.event (.error (.ofError failure now))]

theorem EndsOnce.of_events {events : List Event} (h : ∀ event ∈ events, ¬ event.IsFailure)
    {last : RunUpdate} (hlast : last.IsTerminal) : EndsOnce (events.map .event ++ [last]) := by
  refine ⟨_, last, rfl, hlast, fun u hu => ?_⟩
  obtain ⟨event, hevent, rfl⟩ := List.mem_map.mp hu
  exact h event hevent

section Serving

variable {σ : Type} {s : Services (StateM σ)} {work : TaskContext → Json → Fallible TaskResult}
  {e : Engine} {depth : Nat} {agentRef : String} {inputs : Json} {options : RunOptions}
  {cache cache' : Option Cache} {state state' : σ × List Event}

def Services.errorAt (s : Services (StateM σ)) (failure : Error) (state : σ) : Event :=
  .error (.ofError failure (s.clock.run state).1)

/-- What a call without a parent reports after its run. -/
def Services.callEnding (s : Services (StateM σ)) (state : σ) :
    Except RunFailure Json → List Event
  | .ok _ => []
  | .error failure => if failure.started then [s.errorAt failure.error state] else []

def Services.streamEnding (s : Services (StateM σ)) (state : σ) :
    Except RunFailure Json → List Event
  | .ok _ => []
  | .error failure => [s.errorAt failure.error state]

theorem record_execute {projectId : String} {r : Except RunFailure Json}
    (hparent : options.parentTaskId = none)
    (h : s.record (e.runWith work depth projectId agentRef inputs options).run cache state =
      ((some r, cache'), state')) : ∃ last,
    s.record (e.executeWith work depth projectId agentRef inputs options).run cache state =
      ((some (r.mapError RunFailure.error), cache'),
        (last, state'.2 ++ s.callEnding state'.1 r)) := by
  rw [Engine.executeWith, run_liftThen, Services.record_bind, h]
  cases r with
  | ok outputs => exact ⟨state'.1, by rw [Services.callEnding, List.append_nil]; rfl⟩
  | error failure =>
    dsimp only [Services.callEnding]
    rw [hparent]
    cases failure.started with
    | false => exact ⟨state'.1, congrArg (_, state'.1, ·) (List.append_nil _).symm⟩
    | true => exact ⟨_, rfl⟩

theorem record_stream {r : Except RunFailure Json}
    (h : s.record (e.runWith work depth e.project.id agentRef inputs options).run cache state =
      ((some r, cache'), state')) : ∃ last,
    s.record (e.streamWith work depth agentRef inputs options) cache state =
      ((some r.toOption, cache'), (last, state'.2 ++ s.streamEnding state'.1 r)) := by
  rw [Engine.streamWith, Services.record_bind, h]
  cases r with
  | ok outputs => exact ⟨state'.1, by rw [Services.streamEnding, List.append_nil]; rfl⟩
  | error failure => exact ⟨_, rfl⟩

end Serving

/-- A stream agrees with a call of the same agent that is served alike and in which concurrent steps
overlap alike: its updates are those that follow from what the call reports and gives, and they end
once. Only a run that is too deep gives nothing, read either way. -/
theorem stream_agrees {σ : Type} (s : Services (StateM σ)) (overlap : Overlap) (e : Engine)
    (depth : Nat) (agentRef : String) (inputs : Json) {options : RunOptions}
    (hparent : options.parentTaskId = none) (cache : Option Cache) (state : σ) :
    (s.observe (e.executeWith overlap.process depth e.project.id agentRef inputs options).run
        cache state = none ∧
      s.observe (e.streamWith overlap.process depth agentRef inputs options) cache state = none) ∨
    ∃ call stream,
      s.observe (e.executeWith overlap.process depth e.project.id agentRef inputs options).run
        cache state = some call ∧
      s.observe (e.streamWith overlap.process depth agentRef inputs options) cache state =
        some stream ∧
      stream.cache = call.cache ∧
      StreamsAs call.events call.result (RunUpdate.ofRun stream.events stream.result) ∧
      EndsOnce (RunUpdate.ofRun stream.events stream.result) := by
  obtain ⟨r, cache', state', events, hrun⟩ : ∃ r cache' state' events,
      s.record (e.runWith overlap.process depth e.project.id agentRef inputs options).run
        cache (state, []) = ((r, cache'), (state', events)) := ⟨_, _, _, _, rfl⟩
  cases r with
  | none =>
    left
    unfold Services.observe
    rw [Engine.executeWith, Engine.streamWith]
    rw [run_liftThen, Services.record_bind, Services.record_bind, hrun]
    exact ⟨rfl, rfl⟩
  | some r =>
  right
  obtain ⟨log, es, hruns, rfl, _⟩ : ∃ log es, Runs _ log es r ∧ events = es ∧ _ :=
    s.runs_of_record hrun
  obtain ⟨hclean, hfailures⟩ := Engine.run_failures hruns
  obtain ⟨_, hexecute⟩ := record_execute hparent hrun
  obtain ⟨_, hstream⟩ := record_stream hrun
  unfold Services.observe
  rw [hexecute, hstream]
  refine ⟨_, _, rfl, rfl, rfl, ?_⟩
  cases r with
  | ok outputs =>
    simp only [Services.callEnding, Services.streamEnding, List.append_nil]
    exact ⟨.completed events outputs, .of_events hclean trivial⟩
  | error failure =>
    obtain ⟨now, hnow⟩ : ∃ now, s.errorAt failure.error state' =
      .error (.ofError failure.error now) := ⟨_, rfl⟩
    have hupdates : RunUpdate.ofRun (events ++ [s.errorAt failure.error state']) none =
        events.map .event ++ [.event (s.errorAt failure.error state')] := by
      simp [RunUpdate.ofRun]
    simp only [Services.callEnding, Services.streamEnding, Except.toOption, hupdates]
    refine ⟨?_, .of_events hclean trivial⟩
    rw [hnow]
    rcases hfailures failure rfl with ⟨hstarted, r, hr⟩ | ⟨hstarted, rfl⟩
    · rw [if_pos hstarted]
      have hfailed := StreamsAs.failed failure.error now hr
      rw [List.map_append] at hfailed
      exact hfailed
    · rw [if_neg (by simp [hstarted])]
      exact .refused failure.error now

/-! ## A failure among concurrent steps -/

/-- An agent that fails where there is no model for images. -/
def sketcher : Definition :=
  { id := "sketcher", name := "Sketcher", kind := .imageGeneration { prompt := "a tree" } }

/-- An agent that runs it twice at a time. -/
def album : Definition :=
  { id := "album", name := "Album"
    kind := .pipeline
      { steps := [{ name := "cover", agent := "sketcher", concurrent := true },
                  { name := "page", agent := "sketcher", concurrent := true }] } }

def studioEngine : Engine := { project := { id := "studio", agents := [album, sketcher] } }

/-- Every step begins before one of them goes on. -/
def allStarted : Overlap := .atStart fun _ => true

/-- The failure of one child, while another one has begun, ends the stream of the parent, once. -/
theorem stream_agrees_album : ∃ call stream,
    countingServices.observe
      (studioEngine.executeWith allStarted.process 2 "studio" "album" .null {}).run none 0 =
        some call ∧
    countingServices.observe (studioEngine.streamWith allStarted.process 2 "album" .null {})
      none 0 = some stream ∧
    call.events.map Event.typeName = ["INPUT", "EXECUTE", "INPUT", "EXECUTE", "INPUT", "EXECUTE",
      "EXECUTE", "EXECUTE", "ERROR"] ∧
    StreamsAs call.events call.result (RunUpdate.ofRun stream.events stream.result) ∧
    EndsOnce (RunUpdate.ofRun stream.events stream.result) := by
  have hnames : (countingServices.observe
      (studioEngine.executeWith allStarted.process 2 "studio" "album" .null {}).run none 0).map
        (fun call => call.events.map Event.typeName) =
      some ["INPUT", "EXECUTE", "INPUT", "EXECUTE", "INPUT", "EXECUTE", "EXECUTE", "EXECUTE",
        "ERROR"] := by
    decide +kernel
  obtain ⟨call, hcall, htypes⟩ := Option.map_eq_some_iff.mp hnames
  have hparent : ({} : RunOptions).parentTaskId = none := rfl
  rcases stream_agrees countingServices allStarted studioEngine 2 "album" .null hparent none 0 with
    ⟨hnone, _⟩ | ⟨call', stream, hcall', hstream, _, hstreams, hends⟩
  · exact absurd (hcall.symm.trans hnone) nofun
  · cases hcall.symm.trans hcall'
    exact ⟨call, stream, hcall, hstream, htypes, hstreams, hends⟩

end Agents
