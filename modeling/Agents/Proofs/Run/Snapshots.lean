import Mathlib.Data.List.Destutter
import Agents.Proofs.Run.Blocks
import Agents.Proofs.Run.Recording

/-! # Snapshots of a composed document

A document grows piece by piece, and whenever the value that it implies is new and conforms to the
partial schema, the task that composes it reports that value.

- What is reported of a growing document is, whatever the pieces are, the list of the values that
  its texts imply, without those that do not conform and without repetitions
  (`JsonDocument.destutter_candidates`).
- The pieces are those of the parts: text, values, and between quotes what an agent says
  (`TaskContext.Pieces`).
- So while a task composes a document its own events are the snapshots of the pieces, between those
  of its children, and the last of them is the value of the document, if that conforms
  (`renderJson_snapshots`).
-/

namespace Agents

open Activity

/-! ## A growing document -/

namespace JsonDocument

/-- Adds some pieces one after another; the values to report, and the document. -/
def appendAll (accepts : Json → Bool) (d : JsonDocument) : List String → List Json × JsonDocument
  | [] => ([], d)
  | piece :: rest =>
    let (new, d) := d.append accepts piece
    let (more, d) := appendAll accepts d rest
    (new.toList ++ more, d)

/-- The conforming values that a text implies as these pieces are added to it. -/
def candidates (accepts : Json → Bool) (text : String) (pieces : List String) : List Json :=
  ((pieces.scanl (· ++ ·) text).tail.filterMap PartialJson.repair).filter accepts

/-- The values that are worth a report while a document grows by these pieces: what it implies after
each piece, if that conforms and is not what was reported last. -/
def snapshotsOf (accepts : Json → Bool) (pieces : List String) : List Json :=
  (candidates accepts "" pieces).destutter fun last next => ¬ (last == next) = true

variable {accepts : Json → Bool} {d : JsonDocument} {piece : String} {pieces more : List String}

theorem append_of_none (h : (PartialJson.repair (d.text ++ piece)).filter accepts = none) :
    d.append accepts piece = (none, ⟨d.text ++ piece, d.snapshots⟩) := by
  unfold append
  dsimp only
  split
  · rfl
  · next value hvalue =>
    rw [hvalue] at h
    have hrefused : accepts value = false := by simpa [Option.filter] using h
    simp [PartialJson.SnapshotEmitter.offer, hrefused]

/-- A conforming value is reported, unless it is what was reported last. -/
theorem append_of_some {value : Json}
    (h : (PartialJson.repair (d.text ++ piece)).filter accepts = some value) :
    d.append accepts piece =
      if d.snapshots.last == some value then (none, ⟨d.text ++ piece, d.snapshots⟩)
      else (some value, ⟨d.text ++ piece, ⟨some value⟩⟩) := by
  obtain ⟨hvalue, haccepts⟩ := Option.filter_eq_some_iff.mp h
  unfold append
  dsimp only
  rw [hvalue]
  by_cases hlast : (d.snapshots.last == some value) = true <;>
    simp [PartialJson.SnapshotEmitter.offer, haccepts, hlast]

theorem append_text : (d.append accepts piece).2.text = d.text ++ piece := by
  unfold append
  dsimp only
  split <;> rfl

theorem appendAll_cons : d.appendAll accepts (piece :: pieces) =
    ((d.append accepts piece).1.toList ++ ((d.append accepts piece).2.appendAll accepts pieces).1,
      ((d.append accepts piece).2.appendAll accepts pieces).2) := rfl

theorem appendAll_append : d.appendAll accepts (pieces ++ more) =
    ((d.appendAll accepts pieces).1 ++ ((d.appendAll accepts pieces).2.appendAll accepts more).1,
      ((d.appendAll accepts pieces).2.appendAll accepts more).2) := by
  induction pieces generalizing d with
  | nil => rfl
  | cons piece rest ih =>
    rw [List.cons_append, appendAll_cons, ih, appendAll_cons, List.append_assoc]

theorem appendAll_text : (d.appendAll accepts pieces).2.text = pieces.foldl (· ++ ·) d.text := by
  induction pieces generalizing d with
  | nil => rfl
  | cons piece rest ih => rw [appendAll_cons, ih, append_text, List.foldl_cons]

theorem candidates_cons (text : String) : candidates accepts text (piece :: pieces) =
    ((PartialJson.repair (text ++ piece)).filter accepts).toList ++
      candidates accepts (text ++ piece) pieces := by
  have htexts : ((piece :: pieces).scanl (· ++ ·) text).tail =
      (text ++ piece) :: (pieces.scanl (· ++ ·) (text ++ piece)).tail := by
    cases pieces <;> simp
  unfold candidates
  rw [htexts, List.filterMap_cons]
  cases PartialJson.repair (text ++ piece) with
  | none => rfl
  | some value => cases h : accepts value <;> simp [Option.filter, h]

/-- What is reported of a document after its last report is what is new among the values that
follow. -/
theorem destutter_candidates (d : JsonDocument) :
    (d.snapshots.last.toList ++ candidates accepts d.text pieces).destutter
      (fun last next => ¬ (last == next) = true) =
    d.snapshots.last.toList ++ (d.appendAll accepts pieces).1 := by
  induction pieces generalizing d with
  | nil => cases d.snapshots.last <;> simp [candidates, appendAll]
  | cons piece rest ih =>
    obtain ⟨text, ⟨last⟩⟩ := d
    rw [candidates_cons, appendAll_cons]
    cases hvalue : (PartialJson.repair (text ++ piece)).filter accepts with
    | none =>
      rw [append_of_none (d := ⟨text, ⟨last⟩⟩) hvalue]
      exact ih ⟨text ++ piece, ⟨last⟩⟩
    | some value =>
      rw [append_of_some (d := ⟨text, ⟨last⟩⟩) hvalue]
      have hnew := ih ⟨text ++ piece, ⟨some value⟩⟩
      -- the value is compared to the last report, if there was one
      cases last with
      | none => exact hnew
      | some last =>
        dsimp only [Option.toList_some, List.cons_append, List.nil_append] at hnew ⊢
        rw [Option.some_beq_some, List.destutter_cons_cons]
        by_cases hsame : (last == value) = true
        · rw [if_neg (not_not.mpr hsame), if_pos hsame]
          exact ih ⟨text ++ piece, ⟨some last⟩⟩
        · rw [if_pos hsame, if_neg hsame]
          exact congrArg (last :: ·) hnew

theorem getLast?_candidates {text : String} {value : Json} (hpieces : pieces ≠ [])
    (hvalue : PartialJson.repair (pieces.foldl (· ++ ·) text) = some value)
    (haccepts : accepts value = true) :
    (candidates accepts text pieces).getLast? = some value := by
  induction pieces generalizing text with
  | nil => exact absurd rfl hpieces
  | cons piece rest ih =>
    rw [candidates_cons]
    cases rest with
    | nil =>
      rw [List.foldl_cons, List.foldl_nil] at hvalue
      simp [hvalue, Option.filter, haccepts, candidates]
    | cons next rest =>
      rw [List.getLast?_append, ih (List.cons_ne_nil _ _) hvalue]
      rfl

/-- The last value of a list is left, or an equal one in its place. -/
theorem getLast?_destutter' (last : Json) (values : List Json) : ∃ kept value,
    (values.destutter' (fun last next => ¬ (last == next) = true) last).getLast? = some kept ∧
    (last :: values).getLast? = some value ∧ (kept = value ∨ (kept == value) = true) := by
  induction values generalizing last with
  | nil => exact ⟨last, last, rfl, rfl, .inl rfl⟩
  | cons next rest ih =>
    by_cases hsame : (last == next) = true
    · rw [List.destutter'_cons_neg _ (not_not.mpr hsame)]
      cases rest with
      | nil => exact ⟨last, next, rfl, rfl, .inr hsame⟩
      | cons after rest => exact ih last
    · rw [List.destutter'_cons_pos _ hsame]
      obtain ⟨kept, value, hkept, hvalue, h⟩ := ih next
      refine ⟨kept, value, ?_, ?_, h⟩
      · rw [List.getLast?_cons, hkept]; rfl
      · rw [List.getLast?_cons, hvalue]; rfl

theorem getLast?_snapshotsOf {value : Json} (hvalue : PartialJson.repair (String.join pieces) =
    some value) (hpieces : pieces ≠ []) (haccepts : accepts value = true) :
    ∃ last, (snapshotsOf accepts pieces).getLast? = some last ∧
      (last = value ∨ (last == value) = true) := by
  have hlast := getLast?_candidates hpieces hvalue haccepts
  unfold snapshotsOf
  cases hcandidates : candidates accepts "" pieces with
  | nil =>
    rw [hcandidates] at hlast
    cases hlast
  | cons first rest =>
    rw [hcandidates] at hlast
    obtain ⟨kept, value', hkept, hvalue', h⟩ := getLast?_destutter' first rest
    obtain rfl := Option.some.inj (hvalue'.symm.trans hlast)
    exact ⟨kept, hkept, h⟩

end JsonDocument

/-! ## Events of two origins -/

/-- Two lists, with their members in the same order each. -/
inductive Merged {α : Type} : List α → List α → List α → Prop
  | nil : Merged [] [] []
  | left {x : α} {xs ys zs : List α} : Merged xs ys zs → Merged (x :: xs) ys (x :: zs)
  | right {y : α} {xs ys zs : List α} : Merged xs ys zs → Merged xs (y :: ys) (y :: zs)

namespace Merged

variable {α β : Type} {xs xs' ys ys' zs zs' : List α}

theorem append (h : Merged xs ys zs) (h' : Merged xs' ys' zs') :
    Merged (xs ++ xs') (ys ++ ys') (zs ++ zs') := by
  induction h with
  | nil => exact h'
  | left _ ih => exact .left ih
  | right _ ih => exact .right ih

theorem all_left (xs : List α) : Merged xs [] xs := by
  induction xs with
  | nil => exact .nil
  | cons x rest ih => exact .left ih

/-- What is found in the first list only is found in the same order in both together. -/
theorem filterMap_eq {f : α → Option β} (h : Merged xs ys zs) (hys : ∀ y ∈ ys, f y = none) :
    zs.filterMap f = xs.filterMap f := by
  induction h with
  | nil => rfl
  | left _ ih => rw [List.filterMap_cons, List.filterMap_cons, ih hys]
  | right _ ih =>
    obtain ⟨hy, hys⟩ := List.forall_mem_cons.mp hys
    rw [List.filterMap_cons_none hy, ih hys]

end Merged

def Event.object? (id : TaskId) : Event → Option Json
  | .chunk taskId _ delta _ => if taskId = id then delta.object else none
  | _ => none

def Event.content? (id : TaskId) : Event → Option String
  | .chunk taskId _ delta _ => if taskId = id then delta.content else none
  | _ => none

def objectsOf (id : TaskId) (es : List Event) : List Json := es.filterMap (Event.object? id)

def textsOf (id : TaskId) (es : List Event) : List String := es.filterMap (Event.content? id)

theorem Event.object?_of_taskId? {id : TaskId} {event : Event} (h : event.taskId? ≠ some id) :
    event.object? id = none := by
  cases event with
  | chunk taskId assistantId delta respondAs => exact if_neg fun heq => h (congrArg some heq)
  | _ => rfl

theorem Event.content?_of_taskId? {id : TaskId} {event : Event} (h : event.taskId? ≠ some id) :
    event.content? id = none := by
  cases event with
  | chunk taskId assistantId delta respondAs => exact if_neg fun heq => h (congrArg some heq)
  | _ => rfl

/-- What an emitter reports as objects are the objects of its task. -/
theorem objectsOf_objects {emitter : TaskEmitter} (hmuted : emitter.muted = false)
    (values : List Json) : objectsOf emitter.taskId (values.flatMap emitter.object) = values := by
  induction values with
  | nil => rfl
  | cons value rest ih =>
    have hobject : emitter.object value = [.chunk emitter.taskId emitter.assistantId
        (.ofObject value) emitter.respondAs] := TaskEmitter.emit_of_not_muted hmuted _
    have hfound : Event.object? emitter.taskId (.chunk emitter.taskId emitter.assistantId
        (.ofObject value) emitter.respondAs) = some value := if_pos rfl
    unfold objectsOf at ih ⊢
    rw [List.flatMap_cons, hobject, List.singleton_append, List.filterMap_cons_some hfound, ih]

/-! ## What a child says -/

/-- A child that was run by this task says the texts of its own pieces of output. A run without a
task says nothing. -/
inductive Says (parent : TaskId) : List Event → List String → Prop
  | nothing : Says parent [] []
  | task {r : TaskRun} : r.parent = some parent →
      Says parent (r.block r.events) (textsOf r.id (r.block r.events))

theorem ChildWatch.observeAll_cons (w : ChildWatch) (event : Event) (rest : List Event) :
    w.observeAll (event :: rest) =
      (event, (w.observe event).2) :: (w.observe event).1.observeAll rest := rfl

theorem ChildWatch.observe_known {w : ChildWatch} {id : TaskId} (h : w.child = some id)
    (event : Event) : w.observe event = (w, event.content? id) := by
  obtain ⟨watcher, child⟩ := w
  obtain rfl : child = some id := h
  unfold observe
  split
  · split <;> rfl
  · simp [Event.content?, eq_comm]
  · next hnot => cases event <;> first | rfl | exact absurd rfl (hnot _ _ _ _)

theorem ChildWatch.observeAll_known {w : ChildWatch} {id : TaskId} (h : w.child = some id)
    (es : List Event) : w.observeAll es = es.map fun event => (event, event.content? id) := by
  induction es with
  | nil => rfl
  | cons event rest ih => rw [observeAll_cons, observe_known h, ih, List.map_cons]

theorem ChildWatch.filterMap_observeAll {w : ChildWatch} {id : TaskId} (h : w.child = some id)
    (es : List Event) : (w.observeAll es).filterMap Prod.snd = textsOf id es := by
  rw [observeAll_known h, List.filterMap_map]
  rfl

/-- Whoever watches the block of a child hears what the child says. -/
theorem ChildWatch.filterMap_observeAll_block {r : TaskRun} {parent : TaskId}
    (h : r.parent = some parent) (inner : List Event) :
    (observeAll { watcher := parent } (r.block inner)).filterMap Prod.snd =
      textsOf r.id (r.block inner) := by
  have hinput : ({ watcher := parent } : ChildWatch).observe r.inputEvent =
      ({ watcher := parent, child := some r.id }, none) := by
    unfold observe TaskRun.inputEvent
    rw [h]
    exact if_pos rfl
  have hblock : observeAll { watcher := parent } (r.block inner) = (r.inputEvent, none) ::
      observeAll { watcher := parent, child := some r.id }
        (r.startEvent :: (inner ++ [r.endEvent])) := by
    rw [TaskRun.block, observeAll_cons, hinput]
  rw [hblock, List.filterMap_cons_none rfl, filterMap_observeAll rfl]
  rfl

theorem Says.filterMap_observeAll {parent : TaskId} {es : List Event} {texts : List String}
    (h : Says parent es texts) :
    (ChildWatch.observeAll { watcher := parent } es).filterMap Prod.snd = texts := by
  cases h with
  | nothing => rfl
  | task hparent => exact ChildWatch.filterMap_observeAll_block hparent _

section Children

variable {e : Engine} {depth : Nat} {projectId agentRef : String} {options : RunOptions}
  {parent : TaskId} {inputs : Json} {log : List Exchange} {es : List Event}
  {res : Except Error Json}

theorem Engine.exists_says
    (h : Runs (e.childRun depth projectId options parent agentRef inputs).run log es res) :
    ∃ texts, Says parent es texts := by
  rcases childRun_cases h with ⟨rfl, _⟩ | ⟨depth', r, _, hperforms⟩
  · exact ⟨[], .nothing⟩
  · have hes : es = r.block r.events := hperforms.events
    rw [hes]
    exact ⟨_, .task hperforms.id_eq⟩

theorem Engine.free_of_childRun {id : TaskId}
    (h : Runs (e.childRun depth projectId options parent agentRef inputs).run log es res)
    (hid : id ∉ mintedIds log) : Free id es := by
  rcases childRun_cases h with ⟨rfl, _⟩ | ⟨depth', r, _, hperforms⟩
  · exact fun event hevent => absurd hevent List.not_mem_nil
  · obtain ⟨tasks, hinside⟩ := inside_of_ran depth' hperforms.context hperforms.ran
    have hes : es = r.block r.events := hperforms.events
    have howned : Owned (r.id :: taskIds tasks) es := by
      rw [hes]
      exact .block List.mem_cons_self (hinside.owned.mono (by simp))
    have hminted : (r.id :: taskIds tasks).Sublist (mintedIds log) :=
      (hinside.minted.cons_cons r.id).trans hperforms.minted
    exact howned.free fun hmem => hid (hminted.subset hmem)

end Children

/-! ## Composing -/

/-- A document `d` grew into `d'` by these pieces. What was reported meanwhile are the events of
others, in between the values that were worth a report. -/
structure Composer.Grows (c : Composer) (d : JsonDocument) (pieces : List String)
    (others es : List Event) (d' : JsonDocument) : Prop where
  merged : Merged ((d.appendAll c.accepts pieces).1.flatMap c.emitter.object) others es
  document : d' = (d.appendAll c.accepts pieces).2

namespace Composer

variable {c : Composer} {d d' d'' : JsonDocument} {pieces more : List String}
  {others others' es es' : List Event}

theorem Grows.nil : c.Grows d [] [] [] d := ⟨.nil, rfl⟩

theorem Grows.append (h : c.Grows d pieces others es d') (h' : c.Grows d' more others' es' d'') :
    c.Grows d (pieces ++ more) (others ++ others') (es ++ es') d'' := by
  obtain ⟨hmerged, rfl⟩ := h
  obtain ⟨hmerged', rfl⟩ := h'
  refine ⟨?_, ?_⟩
  · rw [JsonDocument.appendAll_append, List.flatMap_append]
    exact hmerged.append hmerged'
  · rw [JsonDocument.appendAll_append]

theorem Grows.other (event : Event) (h : c.Grows d pieces others es d') :
    c.Grows d pieces (event :: others) (event :: es) d' := ⟨.right h.merged, h.document⟩

theorem grows_add (piece : String) : c.Grows d [piece] [] (c.add d piece).1 (c.add d piece).2 := by
  refine ⟨?_, rfl⟩
  have hevents : (d.appendAll c.accepts [piece]).1.flatMap c.emitter.object = (c.add d piece).1 := by
    show (((d.append c.accepts piece).1.toList ++ []).flatMap c.emitter.object) =
      (((d.append c.accepts piece).1).map c.emitter.object).getD []
    cases (d.append c.accepts piece).1 <;> simp
  rw [hevents]
  exact .all_left _

theorem grows_write {piece : String} {log : List Exchange} {r : Except Error JsonDocument}
    (h : Runs (c.write d piece).run log es r) :
    log = [] ∧ ∃ d', r = .ok d' ∧ c.Grows d [piece] [] es d' := by
  obtain ⟨log₁, es₁, _, log₂, es₂, rfl, rfl, hreport, hret⟩ := runs_liftThen.mp h
  obtain ⟨rfl, rfl⟩ := runs_reportAll.mp hreport
  obtain ⟨rfl, rfl, rfl⟩ := runs_ok.mp hret
  refine ⟨rfl, _, rfl, ?_⟩
  rw [List.append_nil]
  exact grows_add piece

/-- While a child is run, the document grows by what is heard of it. -/
theorem grows_passAll (hmuted : c.emitter.muted = false) (w : ChildWatch) (said : List Event) :
    c.Grows d (((w.observeAll said).filterMap Prod.snd).map JsonDocument.escapeFragment) said
      (passAll c.observe (w, d) said).1 (passAll c.observe (w, d) said).2.2 := by
  induction said generalizing w d with
  | nil => exact .nil
  | cons event rest ih =>
    have hemit : c.emitter.emit event = [event] := TaskEmitter.emit_of_not_muted hmuted event
    show c.Grows d _ _
      ((c.observe (w, d) event).1 ++ (passAll c.observe (c.observe (w, d) event).2 rest).1)
      (passAll c.observe (c.observe (w, d) event).2 rest).2.2
    cases hsaid : (w.observe event).2 with
    | none =>
      have hstep : c.observe (w, d) event = ([event], ((w.observe event).1, d)) := by
        simp [observe, hsaid, hemit]
      have hheard : (w.observeAll (event :: rest)).filterMap Prod.snd =
          ((w.observe event).1.observeAll rest).filterMap Prod.snd := by
        simp [ChildWatch.observeAll, hsaid]
      rw [hstep, hheard]
      exact (ih _).other event
    | some text =>
      have hstep : c.observe (w, d) event =
          ([event] ++ (c.add d (JsonDocument.escapeFragment text)).1,
            ((w.observe event).1, (c.add d (JsonDocument.escapeFragment text)).2)) := by
        simp [observe, hsaid, hemit]
      have hheard : (w.observeAll (event :: rest)).filterMap Prod.snd =
          text :: ((w.observe event).1.observeAll rest).filterMap Prod.snd := by
        simp [ChildWatch.observeAll, hsaid]
      rw [hstep, hheard]
      exact ((grows_add _).append (ih _)).other event

end Composer

/-- The pieces that a part adds to a document, and whether the next part follows; `others` is what
its child reports. The piece that ends a quotation is missing if the child fails. -/
inductive TaskContext.PartPieces (t : TaskContext) : Script.DocumentPart → List Exchange →
    (others : List Event) → (pieces : List String) → Except Error Unit → Prop
  | raw (text : String) : t.PartPieces (.raw text) [] [] [text] (.ok ())
  | value (value : Json) : t.PartPieces (.value value) [] [] [value.compact] (.ok ())
  | agent {agent : String} {inputs outputs : Json} {log : List Exchange} {said : List Event}
      {texts : List String} : Runs (t.runChild agent inputs).run log said (.ok outputs) →
      Says t.emitter.taskId said texts →
      t.PartPieces (.agent agent inputs) log said
        ("\"" :: (texts.map JsonDocument.escapeFragment ++ ["\""])) (.ok ())
  | failed {agent : String} {inputs : Json} {failure : Error} {log : List Exchange}
      {said : List Event} {texts : List String} :
      Runs (t.runChild agent inputs).run log said (.error failure) →
      Says t.emitter.taskId said texts →
      t.PartPieces (.agent agent inputs) log said
        ("\"" :: texts.map JsonDocument.escapeFragment) (.error failure)

/-- The pieces that some parts add to a document, as far as its composition comes. -/
inductive TaskContext.Pieces (t : TaskContext) : List Script.DocumentPart → List Exchange →
    (others : List Event) → (pieces : List String) → Except Error Unit → Prop
  | done : t.Pieces [] [] [] [] (.ok ())
  | next {part : Script.DocumentPart} {parts : List Script.DocumentPart}
      {log more : List Exchange} {others others' : List Event} {pieces pieces' : List String}
      {res : Except Error Unit} : t.PartPieces part log others pieces (.ok ()) →
      t.Pieces parts more others' pieces' res →
      t.Pieces (part :: parts) (log ++ more) (others ++ others') (pieces ++ pieces') res
  | stop {part : Script.DocumentPart} {parts : List Script.DocumentPart} {log : List Exchange}
      {others : List Event} {pieces : List String} {failure : Error} :
      t.PartPieces part log others pieces (.error failure) →
      t.Pieces (part :: parts) log others pieces (.error failure)

section Composing

variable {e : Engine} {depth : Nat} {identity : Identity} {d : Definition} {options : RunOptions}
  {id : TaskId} {log : List Exchange} {es : List Event}

theorem grows_addPart {accepts : Json → Bool} {document : JsonDocument}
    {part : Script.DocumentPart} {r : Except Error JsonDocument}
    (h : Runs (Composer.addPart ⟨.forAgent d id options.parentTaskId, accepts⟩
      (e.taskContext depth identity d options id) document part).run log es r) :
    ∃ others pieces res document',
      (e.taskContext depth identity d options id).PartPieces part log others pieces res ∧
      Composer.Grows ⟨.forAgent d id options.parentTaskId, accepts⟩ document pieces others es
        document' ∧
      r = res.map fun _ => document' := by
  cases part with
  | raw text =>
    obtain ⟨rfl, document', rfl, hgrows⟩ := Composer.grows_write h
    exact ⟨[], [text], .ok (), document', .raw text, hgrows, rfl⟩
  | value value =>
    obtain ⟨rfl, document', rfl, hgrows⟩ := Composer.grows_write h
    exact ⟨[], [value.compact], .ok (), document', .value value, hgrows, rfl⟩
  | agent agent inputs =>
    rcases runs_andThen.mp h with
      ⟨failure, rfl, h₁⟩ | ⟨log₁, es₁, document₁, log₂, es₂, rfl, rfl, h₁, h₂⟩
    · obtain ⟨_, _, hok, _⟩ := Composer.grows_write h₁
      cases hok
    obtain ⟨rfl, _, hok, hopened⟩ := Composer.grows_write h₁
    cases hok
    obtain ⟨log₃, es₃, found, log₄, es₄, rfl, rfl, hthrough, h₃⟩ := runs_liftThen.mp h₂
    obtain ⟨said, hchild, hpass⟩ := runs_through hthrough
    obtain ⟨result, watch, document₂⟩ := found
    obtain ⟨texts, hspoken⟩ := Engine.exists_says hchild
    -- what is heard of the child is what it says
    have hheard : Composer.Grows ⟨.forAgent d id options.parentTaskId, accepts⟩ document₁
        (texts.map JsonDocument.escapeFragment) said es₃ document₂ := by
      have hgrows := Composer.grows_passAll (d := document₁)
        (c := ⟨.forAgent d id options.parentTaskId, accepts⟩) rfl { watcher := id } said
      rw [hspoken.filterMap_observeAll] at hgrows
      rwa [show passAll _ ({ watcher := id }, document₁) said = (es₃, (watch, document₂)) from
        hpass] at hgrows
    rcases runs_andThen.mp h₃ with
      ⟨failure, rfl, h₄⟩ | ⟨log₅, es₅, outputs, log₆, es₆, rfl, rfl, h₄, h₅⟩
    · obtain ⟨rfl, rfl, hresult⟩ := runs_ofExcept.mp h₄
      obtain rfl : Except.error failure = result := hresult
      refine ⟨said, _, .error failure, document₂, .failed (by simpa using hchild) hspoken, ?_, rfl⟩
      simpa using hopened.append hheard
    · obtain ⟨rfl, rfl, hresult⟩ := runs_ofExcept.mp h₄
      obtain rfl : Except.ok outputs = result := hresult
      obtain ⟨rfl, document₃, rfl, hclosed⟩ := Composer.grows_write h₅
      refine ⟨said, _, .ok (), document₃, .agent (by simpa using hchild) hspoken, ?_, rfl⟩
      simpa using hopened.append (hheard.append hclosed)

theorem grows_addParts {accepts : Json → Bool} {document : JsonDocument}
    {parts : List Script.DocumentPart} {r : Except Error JsonDocument}
    (h : Runs (parts.foldlM (Composer.addPart ⟨.forAgent d id options.parentTaskId, accepts⟩
      (e.taskContext depth identity d options id)) document).run log es r) :
    ∃ others pieces res document',
      (e.taskContext depth identity d options id).Pieces parts log others pieces res ∧
      Composer.Grows ⟨.forAgent d id options.parentTaskId, accepts⟩ document pieces others es
        document' ∧
      r = res.map fun _ => document' := by
  induction parts generalizing document log es with
  | nil =>
    obtain ⟨rfl, rfl, rfl⟩ := runs_ok.mp h
    exact ⟨[], [], .ok (), document, .done, .nil, rfl⟩
  | cons part rest ih =>
    rw [List.foldlM_cons] at h
    rcases runs_andThen.mp h with
      ⟨failure, rfl, h₁⟩ | ⟨log₁, es₁, document₁, log₂, es₂, rfl, rfl, h₁, h₂⟩
    · obtain ⟨others, pieces, res, document', hpart, hgrows, hres⟩ := grows_addPart h₁
      cases res with
      | ok _ => cases hres
      | error failure' =>
        cases hres
        exact ⟨others, pieces, .error failure, document', .stop hpart, hgrows, rfl⟩
    · obtain ⟨others, pieces, res, document', hpart, hgrows, hres⟩ := grows_addPart h₁
      cases res with
      | error _ => cases hres
      | ok _ =>
        cases hres
        obtain ⟨others', pieces', res', document'', hparts, hgrows', rfl⟩ := ih h₂
        exact ⟨_, _, res', document'', .next hpart hparts, hgrows.append hgrows', rfl⟩

/-- What children report meanwhile is of other tasks, if the ids that are minted are new. -/
theorem free_of_pieces {parts : List Script.DocumentPart} {others : List Event}
    {pieces : List String} {res : Except Error Unit}
    (h : (e.taskContext depth identity d options id).Pieces parts log others pieces res)
    (hid : id ∉ mintedIds log) : Free id others := by
  have hpart : ∀ {part log others pieces res}, id ∉ mintedIds log →
      (e.taskContext depth identity d options id).PartPieces part log others pieces res →
      Free id others := by
    intro part log others pieces res hid hpart
    cases hpart with
    | raw _ => exact fun event hevent => absurd hevent List.not_mem_nil
    | value _ => exact fun event hevent => absurd hevent List.not_mem_nil
    | agent hchild _ => exact Engine.free_of_childRun hchild hid
    | failed hchild _ => exact Engine.free_of_childRun hchild hid
  induction h with
  | done => exact fun event hevent => absurd hevent List.not_mem_nil
  | next hfirst _ ih =>
    rw [mintedIds_append, List.mem_append, not_or] at hid
    exact (hpart hid.1 hfirst).append (ih hid.2)
  | stop hfirst => exact hpart hid hfirst

end Composing

theorem PartialJson.repair_of_parse {text : String} {value : Json} (h : Json.parse text = .ok value) :
    repair text = some value := by
  unfold Json.parse at h
  split at h
  · next json hjson =>
    cases h
    simp [repair, value?, hjson, Except.toOption]
  · cases h

/-- The own events of a task that composes a document are the snapshots of the document, one after
another between the events of its children: the values that the document implies after each piece,
but for those that do not conform and those that were reported last. The last snapshot is the value
that the composition gives, if that conforms. -/
theorem renderJson_snapshots {e : Engine} {depth : Nat} {identity : Identity} {d : Definition}
    {options : RunOptions} {id : TaskId} {parts : List Script.DocumentPart} {log : List Exchange}
    {es : List Event} {res : Except Error Json}
    (h : Runs (ScriptedLogic.answer (e.taskContext depth identity d options id)
      (.forAgent d id options.parentTaskId) (.renderJson parts)).run log es res) :
    ∃ others pieces outcome snapshots,
      (e.taskContext depth identity d options id).Pieces parts log others pieces outcome ∧
      snapshots = JsonDocument.snapshotsOf (e.verifier.accepts (.partialOf d)) pieces ∧
      Merged (snapshots.flatMap (TaskEmitter.forAgent d id options.parentTaskId).object) others es ∧
      (id ∉ mintedIds log → objectsOf id es = snapshots) ∧
      res = outcome.bind (fun _ => JsonDocument.value { text := String.join pieces }) ∧
      ∀ v, res = .ok v → e.verifier.accepts (.partialOf d) v = true →
        ∃ last, snapshots.getLast? = some last ∧ (last = v ∨ (last == v) = true) := by
  obtain ⟨others, pieces, outcome, document, hpieces, hgrows, hres⟩ : ∃ others pieces outcome
      document, (e.taskContext depth identity d options id).Pieces parts log others pieces outcome ∧
      Composer.Grows ⟨.forAgent d id options.parentTaskId, e.verifier.accepts (.partialOf d)⟩ {}
        pieces others es document ∧
      res = outcome.bind fun _ => document.value := by
    rcases runs_andThen.mp h with
      ⟨failure, rfl, h₁⟩ | ⟨log₁, es₁, document₁, log₂, es₂, rfl, rfl, h₁, h₂⟩
    · obtain ⟨others, pieces, outcome, document, hpieces, hgrows, houtcome⟩ := grows_addParts h₁
      refine ⟨others, pieces, outcome, document, hpieces, hgrows, ?_⟩
      cases outcome with
      | ok _ => cases houtcome
      | error _ => cases houtcome; rfl
    · obtain ⟨others, pieces, outcome, document, hpieces, hgrows, houtcome⟩ := grows_addParts h₁
      obtain ⟨rfl, rfl, rfl⟩ := runs_ofExcept.mp h₂
      rw [List.append_nil, List.append_nil]
      refine ⟨others, pieces, outcome, document, hpieces, hgrows, ?_⟩
      cases outcome with
      | error _ => cases houtcome
      | ok _ => cases houtcome; rfl
  obtain ⟨hmerged, rfl⟩ := hgrows
  have hsnapshots : (JsonDocument.appendAll (e.verifier.accepts (.partialOf d)) {} pieces).1 =
      JsonDocument.snapshotsOf (e.verifier.accepts (.partialOf d)) pieces :=
    (JsonDocument.destutter_candidates {}).symm
  have hvalue : (JsonDocument.appendAll (e.verifier.accepts (.partialOf d)) {} pieces).2.value =
      JsonDocument.value { text := String.join pieces } := by
    unfold JsonDocument.value
    rw [JsonDocument.appendAll_text]
    rfl
  rw [hsnapshots] at hmerged
  rw [hvalue] at hres
  refine ⟨others, pieces, outcome, _, hpieces, rfl, hmerged, fun hid => ?_, hres,
    fun v hv haccepts => ?_⟩
  · have hothers := free_of_pieces hpieces hid
    rw [objectsOf, hmerged.filterMap_eq fun event hevent =>
      Event.object?_of_taskId? (hothers event hevent)]
    have hmuted : (TaskEmitter.forAgent d id options.parentTaskId).muted = false := rfl
    exact objectsOf_objects hmuted _
  · rw [hv] at hres
    cases outcome with
    | error failure => cases hres
    | ok _ =>
      obtain ⟨value, hparsed, hvalue⟩ : ∃ value, Json.parse (String.join pieces) = .ok value ∧
          v = value := by
        change Except.ok v = (Json.parse (String.join pieces)).mapError _ at hres
        cases hparse : Json.parse (String.join pieces) with
        | error _ => rw [hparse] at hres; cases hres
        | ok value => rw [hparse] at hres; cases hres; exact ⟨v, rfl, rfl⟩
      subst hvalue
      -- a document without any piece has no value
      have hpieces : pieces ≠ [] := by
        rintro rfl
        have hempty : (Json.parse "").toOption.isSome = false := by decide +kernel
        rw [show Json.parse "" = .ok v from hparsed] at hempty
        cases hempty
      exact JsonDocument.getLast?_snapshotsOf (PartialJson.repair_of_parse hparsed) hpieces haccepts

/-- An agent that says what a model says. -/
def narrator : Definition :=
  { id := "narrator", name := "Narrator", outputs := [{ name := "text", streamingText := true }]
    kind := .modelPrompt { messages := [⟨.user, "Tell."⟩] } }

def editor : Definition :=
  { id := "editor", name := "Editor", outputs := [{ name := "title", type := .string }]
    kind := .scriptedLogic { source := "" } }

def press : Engine := { project := { id := "press", agents := [narrator, editor] }, model := some {} }

def tellingServices : Services (StateM Nat) :=
  { countingServices with model := fun _ _ => return .ok [.ok (.text "Once "), .ok (.text "upon")] }

/-- What the editor reports and gives when it composes an object around what the narrator says. -/
def editorObserved : Option (Observation (Except Error Json)) :=
  tellingServices.observe (ScriptedLogic.answer
    (press.taskContext 1 (.inProject "press" "editor") editor {} "editor")
    (.forAgent editor "editor" none)
    (.renderJson [.raw "\x7b\"title\":", .agent "narrator" (.obj []), .raw "\x7d"])).run none 0

/-- The words of a child arrive one after another, and so do the snapshots. -/
theorem renderJson_snapshots_editor : ∃ log es value others pieces,
    Runs (ScriptedLogic.answer
      (press.taskContext 1 (.inProject "press" "editor") editor {} "editor")
      (.forAgent editor "editor" none)
      (.renderJson [.raw "\x7b\"title\":", .agent "narrator" (.obj []), .raw "\x7d"])).run
      log es (.ok value) ∧
    Merged ((objectsOf "editor" es).flatMap (TaskEmitter.forAgent editor "editor" none).object)
      others es ∧
    objectsOf "editor" es =
      JsonDocument.snapshotsOf (press.verifier.accepts (.partialOf editor)) pieces ∧
    (objectsOf "editor" es).map Json.compact = ["\x7b\x7d", "\x7b\"title\":\"\"\x7d",
      "\x7b\"title\":\"Once \"\x7d", "\x7b\"title\":\"Once upon\"\x7d"] ∧
    ∃ last, (objectsOf "editor" es).getLast? = some last ∧
      (last = value ∨ (last == value) = true) := by
  have hseen : editorObserved.map (fun seen =>
      ((objectsOf "editor" seen.events).map Json.compact,
        seen.result.toOption.any (press.verifier.accepts (.partialOf editor)))) =
      some (["\x7b\x7d", "\x7b\"title\":\"\"\x7d", "\x7b\"title\":\"Once \"\x7d",
        "\x7b\"title\":\"Once upon\"\x7d"], true) := by
    decide +kernel
  obtain ⟨⟨result, es, cache⟩, hobserved, hmatch⟩ := Option.map_eq_some_iff.mp hseen
  obtain ⟨htexts, haccepted⟩ := Prod.mk.inj hmatch
  obtain ⟨log, hruns, hids⟩ := Services.runs_of_observe hobserved
  cases result with
  | error failure => cases haccepted
  | ok value =>
    have hfresh : "editor" ∉ mintedIds log := by
      intro hmem
      obtain ⟨n, hn⟩ := hids _ hmem
      have hfirst := congrArg (fun id => id.toList.head?) hn
      change ("task-" ++ toString n).toList.head? = some 'e' at hfirst
      rw [String.toList_append] at hfirst
      cases hfirst
    obtain ⟨others, pieces, _, _, _, rfl, hmerged, hobjects, _, hlast⟩ :=
      renderJson_snapshots hruns
    rw [← hobjects hfresh] at hmerged
    refine ⟨log, es, value, others, pieces, hruns, hmerged, hobjects hfresh, htexts, ?_⟩
    rw [hobjects hfresh]
    exact hlast value rfl haccepted

end Agents
