import Agents.Proofs.Trace.Chain

/-! # What a recorder holds

A recorder that was given some events holds them (`Recorder.Holds`): its entries are a chain from
the beginning, numbered without gaps, and digest, terminal hash and replay agree with them.
Recording one more event keeps this (`Recorder.Holds.record`), so it is enough to know which events
reach the recorder.

A sink records an event once for each tee that it is made of and then calls the callback inside,
if there is one. Over all uses of a recorder and its sinks this gives what the recorder holds and
what each callback was called with (`Recording.run_holds`).
-/

namespace Agents

/-! ## The invariant of a log -/

namespace Recorder

/-- The recorder of this run that was given these events, in this order. -/
structure Holds (r : Recorder) (runId : String) (given : List Event) : Prop where
  isSound : r.isSound = true
  events : r.events = given
  /-- The next sequence number is the number of entries. -/
  sequence : r.sequence = r.entries.length
  sequences : ∀ (i : ℕ) (h : i < r.entries.length), r.entries[i].sequence = i
  run : r.runId = runId
  runs : ∀ entry ∈ r.entries, entry.runId = runId
  first : ∀ h : 0 < r.entries.length, r.entries[0].prevHash = Chain.genesis
  next : ∀ (i : ℕ) (h : i + 1 < r.entries.length),
    r.entries[i + 1].prevHash = r.entries[i].thisHash
  digest : r.digest = (r.entries.getLast?.map (·.thisHash)).getD Chain.genesis
  terminalHash : r.terminalHash = if given = [] then "" else r.digest
  replay : ∀ userId assistantId,
    r.replay userId assistantId = given.foldl TaskTree.reduce (TaskTree.new userId assistantId)

theorem holds_new (runId : String) : (new runId).Holds runId [] where
  isSound := rfl
  events := rfl
  sequence := rfl
  sequences := nofun
  run := rfl
  runs := nofun
  first := nofun
  next := nofun
  digest := rfl
  terminalHash := rfl
  replay _ _ := rfl

variable {r : Recorder} {runId : String} {given : List Event}

def entryOf (r : Recorder) (e : Event) : RecordedEvent :=
  ⟨r.sequence, r.runId, e, r.digest, Chain.hash r.runId r.sequence r.digest e⟩

theorem entries_record (r : Recorder) (e : Event) :
    (r.record e).entries = r.entries ++ [r.entryOf e] := rfl

/-- One more event: only the last entry is new, and the digest before it is the one it names. -/
theorem Holds.record (h : r.Holds runId given) (e : Event) :
    (r.record e).Holds runId (given ++ [e]) := by
  have hlinked : r.Linked := ⟨h.isSound, h.digest⟩
  have hevents : (r.record e).events = given ++ [e] := by rw [events_record, h.events]
  constructor
  case isSound => exact (hlinked.record e).verify
  case events => exact hevents
  case sequence =>
    show r.sequence + 1 = _
    rw [entries_record, List.length_append, h.sequence, List.length_singleton]
  case sequences =>
    intro i hi
    simp only [entries_record] at hi ⊢
    rcases Nat.lt_or_ge i r.entries.length with hlt | hge
    · rw [List.getElem_append_left hlt]
      exact h.sequences i hlt
    · have hlast : i = r.entries.length := by
        rw [List.length_append, List.length_singleton] at hi
        omega
      subst hlast
      rw [List.getElem_concat_length rfl]
      exact h.sequence
  case run => exact h.run
  case runs =>
    intro entry hentry
    rcases List.mem_append.mp hentry with hold | hnew
    · exact h.runs entry hold
    · rw [List.mem_singleton.mp hnew]
      exact h.run
  case first =>
    intro hpos
    simp only [entries_record]
    rcases List.eq_nil_or_concat' r.entries with hnil | ⟨front, last, hconcat⟩
    · have hdigest := h.digest
      simp only [hnil] at hdigest ⊢
      exact hdigest
    · have hlt : 0 < r.entries.length := by rw [hconcat]; simp
      rw [List.getElem_append_left hlt]
      exact h.first hlt
  case next =>
    intro i hi
    simp only [entries_record] at hi ⊢
    rcases Nat.lt_or_ge (i + 1) r.entries.length with hlt | hge
    · rw [List.getElem_append_left hlt, List.getElem_append_left (by omega)]
      exact h.next i hlt
    · have hlast : i + 1 = r.entries.length := by
        rw [List.length_append, List.length_singleton] at hi
        omega
      have hlt : i < r.entries.length := by omega
      have hindex : r.entries.length - 1 = i := by omega
      have hold : r.entries.getLast? = some r.entries[i] := by
        rw [List.getLast?_eq_getElem?, hindex]
        exact List.getElem?_eq_getElem hlt
      rw [List.getElem_append_left hlt, List.getElem_concat_length hlast]
      show r.digest = _
      rw [h.digest, hold]
      rfl
  case digest => exact (hlinked.record e).digest
  case terminalHash =>
    rw [if_neg (List.append_ne_nil_of_right_ne_nil given (List.cons_ne_nil e []))]
    simp [Recorder.terminalHash, Recorder.record]
  case replay =>
    intro userId assistantId
    rw [Recorder.replay, hevents]
    rfl

theorem Holds.recordAll (h : r.Holds runId given) (es : List Event) :
    (r.recordAll es).Holds runId (given ++ es) := by
  induction es generalizing r given with
  | nil =>
    rw [List.append_nil]
    exact h
  | cons e rest ih =>
    rw [List.append_cons given e rest]
    exact ih (h.record e)

end Recorder

/-! ## Sinks -/

namespace EventSink

/-- How often the recorder is told of an event: once for each tee. -/
def tees : EventSink → ℕ
  | discard => 0
  | callback _ => 0
  | tee inner => inner.tees + 1

def callback? : EventSink → Option ℕ
  | discard => none
  | callback id => some id
  | tee inner => inner.callback?

theorem recorder_emit (sink : EventSink) (e : Event) (s : Recording) :
    (sink.emit e s).recorder = s.recorder.recordAll (List.replicate sink.tees e) := by
  induction sink generalizing s with
  | discard => rfl
  | callback id => rfl
  | tee inner ih =>
    show (inner.emit e { s with recorder := s.recorder.record e }).recorder = _
    rw [ih]
    rfl

/-- The callback inside is called once, and no other one. -/
theorem calls_emit (sink : EventSink) (e : Event) (s : Recording) (id : ℕ) :
    (sink.emit e s).calls id = s.calls id ++ if sink.callback? = some id then [e] else [] := by
  induction sink generalizing s with
  | discard => exact (List.append_nil _).symm
  | callback id' =>
    show (if id = id' then s.calls id ++ [e] else s.calls id) = _
    by_cases hid : id' = id
    · rw [if_pos hid.symm, callback?, if_pos (congrArg some hid)]
    · rw [if_neg (Ne.symm hid), callback?, if_neg (fun h => hid (Option.some.inj h)),
        List.append_nil]
  | tee inner ih => exact ih _

end EventSink

/-! ## Uses of a recorder -/

namespace Recording

def Step.recorded : Step → List Event
  | record e => [e]
  | emit sink e => List.replicate sink.tees e

/-- What a use gives to a callback: the event that went into a sink around it. -/
def Step.passed (id : ℕ) : Step → List Event
  | record _ => []
  | emit sink e => if sink.callback? = some id then [e] else []

theorem recorder_step (s : Recording) (step : Step) :
    (s.step step).recorder = s.recorder.recordAll step.recorded := by
  cases step with
  | record e => rfl
  | emit sink e => exact sink.recorder_emit e s

theorem calls_step (s : Recording) (step : Step) (id : ℕ) :
    (s.step step).calls id = s.calls id ++ step.passed id := by
  cases step with
  | record e => exact (List.append_nil _).symm
  | emit sink e => exact sink.calls_emit e s id

theorem calls_run (s : Recording) (steps : List Step) (id : ℕ) :
    (s.run steps).calls id = s.calls id ++ steps.flatMap (·.passed id) := by
  induction steps generalizing s with
  | nil => exact (List.append_nil _).symm
  | cons step rest ih =>
    show ((s.step step).run rest).calls id = _
    rw [ih, calls_step, List.flatMap_cons, List.append_assoc]

theorem holds_run {s : Recording} {runId : String} {given : List Event}
    (h : s.recorder.Holds runId given) (steps : List Step) :
    (s.run steps).recorder.Holds runId (given ++ steps.flatMap Step.recorded) := by
  induction steps generalizing s given with
  | nil =>
    rw [List.flatMap_nil, List.append_nil]
    exact h
  | cons step rest ih =>
    have hstep : (s.step step).recorder.Holds runId (given ++ step.recorded) := by
      rw [recorder_step]
      exact h.recordAll step.recorded
    rw [List.flatMap_cons, ← List.append_assoc]
    exact ih hstep

/-- Whatever is recorded directly and through sinks, and at whatever point one looks: the recorder
holds exactly what it was given, and each callback was called with exactly what went into the sinks
around it. -/
theorem run_holds (runId : String) (steps : List Step) :
    ((new runId).run steps).recorder.Holds runId (steps.flatMap Step.recorded) ∧
      ∀ id, ((new runId).run steps).calls id = steps.flatMap (·.passed id) := by
  constructor
  · have hnew : (new runId).recorder.Holds runId [] := Recorder.holds_new runId
    exact holds_run hnew steps
  · intro id
    exact calls_run (new runId) steps id

example (e f g : Event) :
    let steps : List Step := [.emit (.tee (.tee (.callback 0))) e, .record f, .emit .recordOnly g]
    steps.flatMap Step.recorded = [e, e, f, g] ∧ steps.flatMap (·.passed 0) = [e] := ⟨rfl, rfl⟩

end Recording

end Agents
