import Agents.Proofs.Script.Place
import Agents.Proofs.Script.Relay
import Agents.Run.ScriptedLogic

/-! # Reading the streams of a result

When a script has ended, its result holds a mark for every stream, and what was pushed into the
streams is sent after it, stream by stream. Reading goes the other way: the marks are searched, the
stream of each is read, and what it held is written where the mark is.

Both agree on the paths. What is sent for a stream is what is pending at its path
(`chunksFor_relayOf`), and reading it takes nothing from another one. After some streams were read
the result is again the value with something in the place of every stream: what they gave for those
that were read, and a mark for the others (`readStreams_run`). So in the end every stream has been
replaced by its items (`readStreams_ofEnd`).
-/

namespace Agents

namespace Script

/-! ## What was pushed -/

/-- The items that were pushed into a stream, in order. -/
def State.pushed (s : State) (id : Nat) : List StreamItem := (s.streams[id]?.getD []).reverse

def StreamItem.data? : StreamItem → Option Json
  | .data value => some value
  | .failure _ => none

def StreamItem.failure? : StreamItem → Option String
  | .data _ => none
  | .failure message => some message

def streamError (message : String) : Error := .script ⟨⟨"StreamError", message⟩, []⟩

def StreamItem.chunk : StreamItem → RelayChunk
  | .data value => .data value
  | .failure message => .failure message

theorem chunksOf_eq (items : List StreamItem) : ∃ last,
    chunksOf items = items.map StreamItem.chunk ++ last ∧ itemsOf last = [] := by
  unfold chunksOf
  split
  · exact ⟨[], (List.append_nil _).symm, rfl⟩
  · exact ⟨[.done], rfl, rfl⟩

/-- The items of a stream that was read are the values that were pushed into it, or else the first
failure. -/
theorem collect_chunksOf (items : List StreamItem) :
    Stream.collect (itemsOf (chunksOf items)) =
      match items.findSome? StreamItem.failure? with
      | some message => .error (streamError message)
      | none => .ok (items.filterMap StreamItem.data?) := by
  obtain ⟨last, hchunks, hlast⟩ := chunksOf_eq items
  rw [hchunks]
  clear hchunks
  induction items with
  | nil =>
    rw [List.map_nil, List.nil_append, hlast]
    rfl
  | cons item rest ih =>
    cases item with
    | data value =>
      simp only [List.map_cons, List.cons_append, StreamItem.chunk, itemsOf, Stream.collect, ih,
        List.findSome?_cons, StreamItem.failure?]
      cases rest.findSome? StreamItem.failure? <;> rfl
    | failure message => rfl

/-! ## What is sent -/

theorem chunksFor_map_self (path : String) (chunks : List RelayChunk) :
    chunksFor path (chunks.map (⟨path, ·⟩)) = chunks := by
  induction chunks with
  | nil => rfl
  | cons chunk rest ih => rw [List.map_cons, chunksFor_cons, if_pos rfl, ih]

theorem chunksFor_map_ne {path other : String} (h : other ≠ path) (chunks : List RelayChunk) :
    chunksFor path (chunks.map (⟨other, ·⟩)) = [] := by
  induction chunks with
  | nil => rfl
  | cons chunk rest ih => rw [List.map_cons, chunksFor_cons, if_neg h, ih]

theorem chunksFor_relayOf_of_notMem (streams : Array (List StreamItem))
    {xs : List (List String × Nat)} {path : String}
    (h : path ∉ xs.map fun x => Json.Pointer.ofTokens x.1) :
    chunksFor path (relayOf streams xs) = [] := by
  induction xs generalizing streams with
  | nil => rfl
  | cons x rest ih =>
    obtain ⟨hx, hrest⟩ := not_or.mp (mt List.mem_cons.mpr h)
    rw [relayOf, chunksFor_append, chunksFor_map_ne (Ne.symm hx), ih _ hrest, List.append_nil]

/-- For a stream that is found at one path only, what was pushed into it is sent for that path. -/
theorem chunksFor_relayOf (streams : Array (List StreamItem)) {xs : List (List String × Nat)}
    (hpaths : (xs.map (·.1)).Nodup) (hids : (xs.map (·.2)).Nodup) {x : List String × Nat}
    (hx : x ∈ xs) :
    chunksFor (Json.Pointer.ofTokens x.1) (relayOf streams xs) =
      chunksOf (streams[x.2]?.getD []).reverse := by
  induction xs generalizing streams with
  | nil => cases hx
  | cons y rest ih =>
    obtain ⟨hpath, hpaths⟩ := List.nodup_cons.mp hpaths
    obtain ⟨hid, hids⟩ := List.nodup_cons.mp hids
    rw [relayOf, chunksFor_append]
    rcases List.mem_cons.mp hx with rfl | hrest
    · rw [chunksFor_map_self, chunksFor_relayOf_of_notMem, List.append_nil]
      intro hmem
      obtain ⟨z, hz, heq⟩ := List.mem_map.mp hmem
      exact hpath (List.mem_map.mpr ⟨z, hz, Json.Pointer.ofTokens_injective heq⟩)
    · have hpath_ne : y.1 ≠ x.1 := fun heq => hpath (List.mem_map.mpr ⟨x, hrest, heq.symm⟩)
      have hid_ne : y.2 ≠ x.2 := fun heq => hid (List.mem_map.mpr ⟨x, hrest, heq.symm⟩)
      rw [chunksFor_map_ne (fun heq => hpath_ne (Json.Pointer.ofTokens_injective heq)),
        List.nil_append, ih _ hpaths hids hrest, Array.getElem?_setIfInBounds_ne hid_ne]

/-! ## What takes the place of a stream -/

/-- What a stream at a path is replaced by. -/
def State.drained (d : Definition) (s : State) (path : List String) (id : Nat) : Json :=
  let values := (s.pushed id).filterMap StreamItem.data?
  if ∃ o ∈ d.outputs, o.streamingText ∧ Json.Pointer.ofTokens path = "/" ++ o.name then
    .str (String.join (values.map Json.valueText))
  else .arr values

end Script

namespace ScriptedLogic

open Script

variable {t : TaskContext} {attempt : Nat}

theorem isNarrative_iff {d : Definition} {path : String} :
    isNarrative d path = true ↔ ∃ o ∈ d.outputs, o.streamingText ∧ path = "/" ++ o.name := by
  have htext (name : List Char) :
      d.isStreamingText (String.ofList name) = true ↔
        ∃ o ∈ d.outputs, o.streamingText ∧ '/' :: name = '/' :: o.name.toList := by
    simp only [Definition.isStreamingText, List.any_eq_true, Bool.and_eq_true, decide_eq_true_eq,
      List.cons.injEq, true_and, ← String.toList_inj, String.toList_ofList]
    exact exists_congr fun o => and_congr_right' (and_congr_right' eq_comm)
  have hpath (o : OutputDecl) : path = "/" ++ o.name ↔ path.toList = '/' :: o.name.toList := by
    rw [← String.toList_inj]
    simp
  simp only [hpath, isNarrative]
  split
  · next name hname => rw [hname, htext]
  · next hother =>
    refine iff_of_false Bool.false_ne_true ?_
    rintro ⟨o, -, -, h⟩
    exact hother _ h

/-! ## Reading -/

theorem reporting_bind {α β : Type} (es : List Event) (a : Activity α) (f : α → Activity β) :
    Activity.reporting es a >>= f = Activity.reporting es (a >>= f) := by
  induction es with
  | nil => rfl
  | cons e rest ih => exact congrArg (Activity.report e) ih

theorem reporting_append {α : Type} (es es' : List Event) (a : Activity α) :
    Activity.reporting es (Activity.reporting es' a) = Activity.reporting (es ++ es') a :=
  List.foldr_append.symm

theorem run_report (events : List Event) :
    (TaskContext.report events).run = Activity.reporting events (.done (.ok ())) :=
  reporting_bind events _ _

theorem reporting_andThen {α β : Type} {x : Fallible α} {es : List Event} {result : Except Error α}
    (h : x.run = Activity.reporting es (.done result)) (next : α → Fallible β) :
    (x >>= next).run = Activity.reporting es
      (match result with
      | .ok a => (next a).run
      | .error e => .done (.error e)) := by
  rw [ExceptT.run_bind, h, reporting_bind]
  cases result <;> rfl

def present (d : Definition) (path : String) (values : List Json) : Json :=
  if isNarrative d path then .str (String.join (values.map Json.valueText)) else .arr values

def heard (t : TaskContext) (attempt : Nat) (text : Bool) (items : Stream Json) : List Event :=
  if text = true ∧ attempt = 1 then (items.received.map Json.valueText).flatMap t.emitter.text
  else []

/-- Reading a stream asks for nothing, and makes one thing of all its items. -/
theorem readStream_run (t : TaskContext) (attempt : Nat) (path : String) (items : Stream Json) :
    (readStream t attempt path items).run =
      Activity.reporting (heard t attempt (isNarrative t.definition path) items)
        (.done (items.collect.map (present t.definition path))) := by
  have hcollect : (MonadExcept.ofExcept items.collect : Fallible (List Json)).run =
      Activity.reporting [] (.done items.collect) := by
    cases items.collect <;> rfl
  have hpresent (make : List Json → Json) :
      ((MonadExcept.ofExcept items.collect : Fallible (List Json)) >>= fun vs => pure (make vs)).run
        = Activity.reporting [] (.done (items.collect.map make)) := by
    rw [reporting_andThen hcollect]
    cases items.collect <;> rfl
  unfold readStream present heard
  by_cases htext : isNarrative t.definition path = true
  · by_cases hattempt : attempt = 1
    · simp only [if_pos htext, if_pos hattempt, if_pos (And.intro htext hattempt)]
      rw [reporting_andThen (run_report _)]
      exact congrArg _ (hpresent _)
    · simp only [if_pos htext, if_neg hattempt, if_neg (mt And.right hattempt)]
      exact hpresent _
  · simp only [if_neg htext, if_neg (mt And.left htext)]
    exact hpresent _

theorem present_pushed (d : Definition) (s : State) (x : List String × Nat) :
    present d (Json.Pointer.ofTokens x.1) ((s.pushed x.2).filterMap StreamItem.data?) =
      s.drained d x.1 x.2 :=
  if_congr isNarrative_iff rfl rfl

/-! ## All streams -/

variable {v : Value}

def firstFailure? (s : State) (xs : List (List String × Nat)) : Option String :=
  xs.findSome? fun x => (s.pushed x.2).findSome? StreamItem.failure?

theorem firstFailure?_eq_none_iff {s : State} {xs : List (List String × Nat)} :
    firstFailure? s xs = none ↔ ∀ x ∈ xs, ∀ message, .failure message ∉ s.pushed x.2 := by
  have hitem (item : StreamItem) :
      item.failure? = none ↔ ∀ message, item ≠ .failure message := by
    cases item <;> simp [StreamItem.failure?]
  simp only [firstFailure?, List.findSome?_eq_none_iff, hitem]
  refine forall₂_congr fun x hx => ⟨fun h message hmem => h _ hmem message rfl, ?_⟩
  rintro h item hmem message rfl
  exact h message hmem

def failureOf (items : Stream Json) : Option Error :=
  match items.collect with
  | .ok _ => none
  | .error e => some e

/-- What is heard of streams that are read one after another, until one fails. -/
def heardAll (t : TaskContext) (attempt : Nat) (text : List String → Bool)
    (given : List String → Nat → Stream Json) : List (List String × Nat) → List Event
  | [] => []
  | x :: rest =>
    heard t attempt (text x.1) (given x.1 x.2) ++
      if (failureOf (given x.1 x.2)).isSome then [] else heardAll t attempt text given rest

/-- Whether the stream at a place is read as a text. -/
def readsText (d : Definition) (path : List String) : Bool :=
  isNarrative d (Json.Pointer.ofTokens path)

/-- If the streams that were read are replaced and the others are pending, reading the others
replaces them too, unless one fails. -/
theorem readStreams_run (t : TaskContext) (attempt : Nat) (hsound : v.Sound)
    (given : List String → Nat → Stream Json) (made : List String → Nat → Json)
    {todo : List (List String × Nat)} (htodo : todo.Sublist (v.streams []))
    {held : List String → Nat → Json} {relay : Relay}
    (hmade : ∀ x ∈ todo, ∀ values, (given x.1 x.2).collect = .ok values →
      present t.definition (Json.Pointer.ofTokens x.1) values = made x.1 x.2)
    (hheld : ∀ x ∈ v.streams [], x ∉ todo → held x.1 x.2 = made x.1 x.2)
    (hgiven : ∀ x ∈ todo, itemsOf (relay.pending (Json.Pointer.ofTokens x.1)) = given x.1 x.2) :
    (readStreams t attempt (v.fill held []) relay
        (todo.map fun x => Json.Pointer.ofTokens x.1)).run =
      Activity.reporting (heardAll t attempt (readsText t.definition) given todo)
        (.done (match todo.findSome? fun x => failureOf (given x.1 x.2) with
        | some e => .error e
        | none => .ok (v.fill made []))) := by
  induction todo generalizing held relay with
  | nil =>
    refine congrArg (Activity.done ∘ Except.ok) (Value.fill_congr fun x hx => ?_)
    exact hheld x hx List.not_mem_nil
  | cons x rest ih =>
    have hnodup := Value.nodup_paths hsound []
    have hx : x ∈ v.streams [] := htodo.mem List.mem_cons_self
    have hx_rest : x.1 ∉ rest.map (·.1) :=
      (List.nodup_cons.mp (hnodup.sublist (htodo.map _))).1
    obtain ⟨hitems, hothers⟩ := Relay.items_spec (Json.Pointer.ofTokens x.1) relay
    rw [hgiven x List.mem_cons_self] at hitems
    have hread := readStream_run t attempt (Json.Pointer.ofTokens x.1) (given x.1 x.2)
    rw [← hitems] at hread
    have hstep := reporting_andThen hread fun new => readStreams t attempt
      ((Json.replaceAt? (Json.Pointer.ofTokens x.1) new (v.fill held [])).getD (v.fill held []))
      (relay.items (Json.Pointer.ofTokens x.1)).2 (rest.map fun x => Json.Pointer.ofTokens x.1)
    refine hstep.trans ?_
    rw [hitems, heardAll, ← reporting_append, List.findSome?_cons, failureOf]
    refine congrArg _ ?_
    cases hcollect : (given x.1 x.2).collect with
    | error e => rfl
    | ok values =>
      have hnew := hmade x List.mem_cons_self values hcollect
      have hheld_rest : ∀ y ∈ v.streams [], y ∉ rest →
          Value.put x.1 (made x.1 x.2) held y.1 y.2 = made y.1 y.2 := by
        intro y hy hmem
        unfold Value.put
        split
        · next heq => rw [List.inj_on_of_nodup_map hnodup hy hx heq]
        · next hne =>
          refine hheld y hy fun hcons => ?_
          rcases List.mem_cons.mp hcons with rfl | h
          · exact hne rfl
          · exact hmem h
      have hgiven_rest : ∀ y ∈ rest,
          itemsOf ((relay.items (Json.Pointer.ofTokens x.1)).2.pending
            (Json.Pointer.ofTokens y.1)) = given y.1 y.2 := by
        intro y hy
        rw [hothers _ fun heq => hx_rest (List.mem_map.mpr
          ⟨y, hy, Json.Pointer.ofTokens_injective heq⟩)]
        exact hgiven y (List.mem_cons_of_mem x hy)
      have hrest := ih ((List.sublist_cons_self x rest).trans htodo)
        (fun y hy => hmade y (List.mem_cons_of_mem x hy)) hheld_rest hgiven_rest
      simp only [Except.map, hnew, Value.replaceAt?_fill hsound held hx, Option.getD_some, hrest]
      rfl

theorem failureOf_pushed (items : List StreamItem) :
    failureOf (itemsOf (chunksOf items)) =
      (items.findSome? StreamItem.failure?).map streamError := by
  rw [failureOf, collect_chunksOf]
  cases items.findSome? StreamItem.failure? <;> rfl

/-- Where what was pushed into the streams is there to be read, each is replaced by it, unless one
has failed. -/
theorem readStreams_eq (t : TaskContext) (attempt : Nat) (s : State) (hsound : v.Sound)
    {todo : List (List String × Nat)} (htodo : todo.Sublist (v.streams []))
    {held : List String → Nat → Json} {relay : Relay}
    (hheld : ∀ x ∈ v.streams [], x ∉ todo → held x.1 x.2 = s.drained t.definition x.1 x.2)
    (hpending : ∀ x ∈ todo, relay.pending (Json.Pointer.ofTokens x.1) = chunksOf (s.pushed x.2)) :
    ∃ es, (readStreams t attempt (v.fill held []) relay
        (todo.map fun x => Json.Pointer.ofTokens x.1)).run =
      Activity.reporting es (.done (match firstFailure? s todo with
        | some message => .error (streamError message)
        | none => .ok (v.fill (s.drained t.definition) []))) := by
  have hmade : ∀ x ∈ todo, ∀ values,
      Stream.collect (itemsOf (chunksOf (s.pushed x.2))) = .ok values →
      present t.definition (Json.Pointer.ofTokens x.1) values = s.drained t.definition x.1 x.2 := by
    intro x _ values hcollect
    rw [collect_chunksOf] at hcollect
    split at hcollect
    · cases hcollect
    · cases hcollect
      exact present_pushed t.definition s x
  have hrun := readStreams_run t attempt hsound (fun _ id => itemsOf (chunksOf (s.pushed id)))
    (s.drained t.definition) htodo hmade hheld fun x hx => congrArg itemsOf (hpending x hx)
  refine ⟨_, hrun.trans (congrArg (Activity.reporting _ ∘ Activity.done) ?_)⟩
  have hfailure : (todo.findSome? fun x => failureOf (itemsOf (chunksOf (s.pushed x.2)))) =
      (firstFailure? s todo).map streamError := by
    rw [firstFailure?, List.map_findSome?]
    exact congrArg (todo.findSome? ·) (funext fun x => failureOf_pushed (s.pushed x.2))
  rw [hfailure]
  cases firstFailure? s todo <;> rfl

/-! ## The result -/

/-- Every stream of a result is relayed to its place: what a script ends with marks each of its
streams, each at a path of its own that leads to the mark. Reading them succeeds exactly if none of
them was failed, and then every stream has been replaced by what was pushed into it. -/
theorem readStreams_ofEnd (l : SandboxLimits) (v : Value) (s : State) (hsound : v.Sound)
    (hplain : v.Unmarked) (honce : ((v.streams []).map (·.2)).Nodup) :
    ∃ o, Outcome.ofEnd l (.ok v, s) = .ok o ∧ o.value = v.fill Value.mark [] ∧
      streamPaths o.value = (v.streams []).map (fun x => Json.Pointer.ofTokens x.1) ∧
      (streamPaths o.value).Nodup ∧
      (∀ path ∈ streamPaths o.value,
        Json.pointer? path o.value = some (.obj [(streamKey, .str path)])) ∧
      ∀ (t : TaskContext) (attempt : Nat), ∃ es result,
        (readStreams t attempt o.value { channel := o.relay } (streamPaths o.value)).run =
          Activity.reporting es (.done result) ∧
        ∀ out, result = .ok out ↔
          (∀ x ∈ v.streams [], ∀ message, .failure message ∉ s.pushed x.2) ∧
          out = v.fill (s.drained t.definition) [] := by
  have hnodup := Value.nodup_paths hsound []
  have hpaths := Value.streamPaths_toJson hplain []
  refine ⟨_, rfl, Value.toJson_eq_fill v [], hpaths, ?_, fun path hpath => ?_, fun t attempt => ?_⟩
  · have hmap : (v.streams []).map (fun x => Json.Pointer.ofTokens x.1) =
        ((v.streams []).map (·.1)).map Json.Pointer.ofTokens := by
      rw [List.map_map]
      rfl
    rw [hpaths, hmap]
    exact hnodup.map Json.Pointer.ofTokens_injective
  · rw [hpaths] at hpath
    obtain ⟨x, hx, rfl⟩ := List.mem_map.mp hpath
    rw [Value.toJson_eq_fill]
    exact Value.pointer?_fill hsound Value.mark hx
  · have hpending (x : List String × Nat) (hx : x ∈ v.streams []) :
        ({ channel := relayOf s.streams (v.streams []) } : Relay).pending
          (Json.Pointer.ofTokens x.1) = chunksOf (s.pushed x.2) :=
      chunksFor_relayOf s.streams hnodup honce hx
    have hheld : ∀ x ∈ v.streams [], x ∉ v.streams [] →
        Value.mark x.1 x.2 = s.drained t.definition x.1 x.2 := fun x hx hmem => absurd hx hmem
    obtain ⟨es, hread⟩ := readStreams_eq t attempt s hsound (List.Sublist.refl _) hheld hpending
    rw [← Value.toJson_eq_fill, ← hpaths] at hread
    refine ⟨es, _, hread, fun out => ?_⟩
    rw [← firstFailure?_eq_none_iff]
    cases firstFailure? s (v.streams []) with
    | some message => exact iff_of_false nofun fun h => nomatch h.1
    | none => exact ⟨fun h => ⟨rfl, (Except.ok.inj h).symm⟩, fun h => h.2 ▸ rfl⟩

/-! ## Streams under any keys -/

/-- A result with a stream below a slash, one deep below a tilde, and one that is a text. -/
def letters : Value :=
  .object [("a/b", .stream 0), ("m~n", .array [.unit, .object [("", .stream 2)]]),
    ("tale", .stream 1)]

def lettersState : State :=
  { streams := #[[.data (Json.ofInt 2), .data (Json.ofInt 1)], [.data "upon", .data "once "], []] }

def tellerTask : TaskContext where
  engine := { project := { id := "inn" } }
  definition :=
    { id := "teller", name := "Teller"
      outputs := [{ name := "tale", type := .string, streamingText := true }]
      kind := .scriptedLogic { source := "" } }
  identity := .inProject "inn" "teller"
  emitter := { taskId := "a", assistantId := "teller", assistantName := "Teller" }
  options := {}
  runChild := fun _ _ => pure .null

theorem sound_letters : letters.Sound := by
  have hunit : Value.unit.Sound := .intro trivial (List.forall_mem_nil _)
  have hinner : (Value.object [("", .stream 2)]).Sound :=
    .intro (List.pairwise_singleton _ _) (List.forall_mem_singleton.mpr (Value.sound_stream 2))
  have hmiddle : (Value.array [.unit, .object [("", .stream 2)]]).Sound :=
    .intro (by decide) (List.forall_mem_cons.mpr ⟨hunit, List.forall_mem_singleton.mpr hinner⟩)
  have hkeys : ["a/b", "m~n", "tale"].Pairwise (· < ·) := by decide
  refine .intro (List.pairwise_map.mp hkeys) ?_
  simp only [letters, Value.parts, List.forall_mem_cons]
  exact ⟨Value.sound_stream 0, hmiddle, Value.sound_stream 1, List.forall_mem_nil _⟩

theorem unmarked_letters : letters.Unmarked := by
  have hunit : Value.unit.Unmarked := .intro (by simp) (List.forall_mem_nil _)
  have hinner : (Value.object [("", .stream 2)]).Unmarked :=
    .intro (by simp [streamKey]) (List.forall_mem_singleton.mpr (Value.unmarked_stream 2))
  have hmiddle : (Value.array [.unit, .object [("", .stream 2)]]).Unmarked :=
    .intro (by simp) (List.forall_mem_cons.mpr ⟨hunit, List.forall_mem_singleton.mpr hinner⟩)
  refine .intro (by simp [letters]) ?_
  simp only [letters, Value.parts, List.forall_mem_cons]
  exact ⟨Value.unmarked_stream 0, hmiddle, Value.unmarked_stream 1, List.forall_mem_nil _⟩

def told : Json :=
  .obj [("a/b", .arr [Json.ofInt 1, Json.ofInt 2]), ("m~n", .arr [.null, .obj [("", .arr [])]]),
    ("tale", "once upon")]

theorem readStreams_ofEnd_letters : ((letters.streams []).map (·.2)).Nodup ∧
    ∃ o, Outcome.ofEnd {} (.ok letters, lettersState) = .ok o ∧
      streamPaths o.value = ["/a~1b", "/m~0n/1/", "/tale"] ∧
      ∃ es, (readStreams tellerTask 1 o.value { channel := o.relay } (streamPaths o.value)).run =
        Activity.reporting es (.done (.ok told)) := by
  have honce : ((letters.streams []).map (·.2)).Nodup := by decide
  obtain ⟨o, hend, -, hpaths, -, -, hread⟩ :=
    readStreams_ofEnd {} letters lettersState sound_letters unmarked_letters honce
  obtain ⟨es, result, hrun, hresult⟩ := hread tellerTask 1
  refine ⟨honce, o, hend, hpaths.trans (by decide), es, ?_⟩
  have htold : result = .ok told := (hresult told).mpr ⟨firstFailure?_eq_none_iff.mp rfl, rfl⟩
  rw [hrun, htold]

end ScriptedLogic

end Agents
