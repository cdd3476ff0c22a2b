import Agents.Proofs.Extraction
import Agents.Proofs.Json.Overlay
import Agents.Proofs.Run.Snapshots
import Agents.Run.ModelPrompt

/-! # What an attempt makes of an answer

A model's answer arrives in deltas, and what an attempt makes of it depends on their text only
(`fencedAttempt_of_text`). The narrative of the canonical split is what the first attempt says, and
later attempts say nothing. Each output is found in the last block that has it, else in the answer
as a whole, else, if it is streamed, in the narrative.

The exchange with the model decides everything else of an attempt (`Activity.Runs.unique`), so it
is enough to give the one run that there is for each answer.
-/

namespace Agents

open Activity

/-! ## Streams -/

namespace Stream

variable {α : Type}

theorem received_map_ok_append (items : List α) {rest : Stream α} (h : rest.received = []) :
    received (items.map .ok ++ rest) = items := by
  induction items with
  | nil => exact h
  | cons item items ih => exact congrArg (item :: ·) ih

theorem collect_map_ok (items : List α) : collect (items.map .ok) = .ok items := by
  induction items with
  | nil => rfl
  | cons item items ih =>
    rw [List.map_cons, collect, ih]
    rfl

theorem collect_map_ok_error (items : List α) (e : Error) (more : Stream α) :
    collect (items.map .ok ++ .error e :: more) = .error e := by
  induction items with
  | nil => rfl
  | cons item items ih =>
    rw [List.map_cons, List.cons_append, collect, ih]
    rfl

end Stream

def textOfDeltas (deltas : List ModelDelta) : String :=
  String.join (deltas.map fun d => d.content.getD "")

theorem Response.text_ofDeltas (deltas : List ModelDelta) :
    (Response.ofDeltas deltas).text = textOfDeltas deltas := by
  have hfold (r : Response) : (deltas.foldl Response.add r).text = r.text ++ textOfDeltas deltas := by
    induction deltas generalizing r with
    | nil => simp [textOfDeltas]
    | cons d deltas ih =>
      rw [List.foldl_cons, ih]
      simp [Response.add, textOfDeltas, String.append_assoc]
  rw [ofDeltas, hfold, String.empty_append]

namespace ModelPrompt

/-! ## Narrative and blocks -/

/-- What is outside of blocks. -/
def narrativeOf (chunks : List ExtractChunk) : String := String.join (chunks.filterMap textOf?)

def blocksOf (chunks : List ExtractChunk) : List String := chunks.filterMap blockOf?

theorem narrativeOf_joinText (s : List Char) (chunks : List ExtractChunk) :
    narrativeOf (Extractor.joinText s chunks) = String.ofList s ++ narrativeOf chunks := by
  cases chunks with
  | nil => simp [narrativeOf, Extractor.joinText, textOf?]
  | cons chunk rest =>
    cases chunk <;> simp [narrativeOf, textOf?, String.ofList_append, String.append_assoc]

theorem narrativeOf_mergeText (chunks : List ExtractChunk) :
    narrativeOf (Extractor.mergeText chunks) = narrativeOf chunks := by
  induction chunks with
  | nil => rfl
  | cons chunk rest ih =>
    cases chunk with
    | text s =>
      rw [Extractor.mergeText_text, narrativeOf_joinText, ih]
      simp [narrativeOf, textOf?]
    | block s => exact ih

theorem blocksOf_joinText (s : List Char) (chunks : List ExtractChunk) :
    blocksOf (Extractor.joinText s chunks) = blocksOf chunks := by
  cases chunks with
  | nil => rfl
  | cons chunk rest => cases chunk <;> rfl

theorem blocksOf_mergeText (chunks : List ExtractChunk) :
    blocksOf (Extractor.mergeText chunks) = blocksOf chunks := by
  induction chunks with
  | nil => rfl
  | cons chunk rest ih =>
    cases chunk with
    | text s =>
      rw [Extractor.mergeText_text, blocksOf_joinText, ih]
      rfl
    | block s => exact congrArg (String.ofList s :: ·) ih

/-! ## Outputs -/

theorem ordered_membersOf (text : String) : (membersOf text).Ordered := by
  unfold membersOf
  split
  · next h => exact Json.ordered_of_parse h
  · exact List.Pairwise.nil

/-- A streamed output that has no value gets the narrative. -/
def filled? (d : Definition) (narrative : String) (key : String) : Option Json :=
  if d.isStreamingText key then some (.str (Text.trim narrative)) else none

theorem get?_fillStreamed (d : Definition) (narrative : String) (outputs : Json.Fields)
    (key : String) : Json.Fields.get? key (fillStreamed d narrative outputs) =
      (Json.Fields.get? key outputs).or (filled? d narrative key) := by
  have hany : d.isStreamingText key = (d.outputs.filter (·.streamingText)).any (·.name = key) :=
    List.any_filter.symm
  unfold fillStreamed filled?
  rw [hany]
  generalize d.outputs.filter (·.streamingText) = streamed
  induction streamed generalizing outputs with
  | nil => simp
  | cons o streamed ih =>
    rw [List.foldl_cons, ih, List.any_cons]
    by_cases hkey : o.name = key
    · subst hkey
      rw [decide_eq_true rfl, Bool.true_or, if_pos rfl]
      cases hfound : Json.Fields.get? o.name outputs with
      | some v =>
        rw [if_pos (by rw [Json.Fields.contains, hfound]; rfl), hfound]
        rfl
      | none =>
        rw [if_neg (by rw [Json.Fields.contains, hfound]; exact Bool.false_ne_true),
          Json.Fields.get?_insert_self]
        rfl
    · rw [decide_eq_false hkey, Bool.false_or]
      split
      · rfl
      · rw [Json.Fields.get?_insert_ne (Ne.symm hkey)]

theorem ordered_fillStreamed {outputs : Json.Fields} (h : outputs.Ordered) (d : Definition)
    (narrative : String) : (fillStreamed d narrative outputs).Ordered := by
  unfold fillStreamed
  generalize d.outputs.filter (·.streamingText) = streamed
  induction streamed generalizing outputs with
  | nil => exact h
  | cons o streamed ih =>
    rw [List.foldl_cons]
    split
    · exact ih h
    · exact ih (Json.Fields.ordered_insert h _ _)

/-- Where the outputs are read: in the last block that has the key, else in the answer as a whole,
else in the narrative. -/
def answered? (d : Definition) (delimiters : Delimiters) (text key : String) : Option Json :=
  let chunks := Extractor.canonical delimiters text.toList
  ((blocksOf chunks).reverse.findSome? fun block => Json.Fields.get? key (membersOf block)).or
    ((Json.Fields.get? key (membersOf text)).or (filled? d (narrativeOf chunks) key))

def membersIn (d : Definition) (raw : String) (chunks : List ExtractChunk) : Json.Fields :=
  fillStreamed d (narrativeOf chunks)
    (((raw :: blocksOf chunks).map membersOf).foldl Json.Fields.overlay [])

theorem ordered_membersIn (d : Definition) (raw : String) (chunks : List ExtractChunk) :
    (membersIn d raw chunks).Ordered :=
  ordered_fillStreamed (Json.Fields.ordered_foldl_overlay List.Pairwise.nil _) d _

theorem get?_membersIn (d : Definition) (raw key : String) (chunks : List ExtractChunk) :
    Json.Fields.get? key (membersIn d raw chunks) =
      ((blocksOf chunks).reverse.findSome? fun block => Json.Fields.get? key (membersOf block)).or
        ((Json.Fields.get? key (membersOf raw)).or (filled? d (narrativeOf chunks) key)) := by
  have hordered : ∀ fields ∈ (raw :: blocksOf chunks).map membersOf, fields.Ordered := by
    intro fields hfields
    obtain ⟨block, -, rfl⟩ := List.mem_map.mp hfields
    exact ordered_membersOf block
  unfold membersIn
  rw [get?_fillStreamed, Json.Fields.get?_foldl_overlay hordered, List.map_cons,
    List.reverse_cons, List.findSome?_append, ← List.map_reverse, List.findSome?_map]
  simp only [List.findSome?_cons, List.findSome?_nil, Json.Fields.get?_nil, Option.or_none,
    Option.or_assoc, Function.comp_def]
  cases Json.Fields.get? key (membersOf raw) <;> rfl

theorem membersIn_congr {chunks chunks' : List ExtractChunk}
    (h : Extractor.mergeText chunks = Extractor.mergeText chunks') (d : Definition)
    (raw : String) : membersIn d raw chunks = membersIn d raw chunks' := by
  unfold membersIn
  rw [← narrativeOf_mergeText, ← blocksOf_mergeText, h, narrativeOf_mergeText, blocksOf_mergeText]

/-! ## Texts that are reported -/

/-- The events of a task that are no text of its own. -/
def besidesText (id : TaskId) (es : List Event) : List Event :=
  es.filter fun event => (event.content? id).isNone

theorem textsOf_append (id : TaskId) (es more : List Event) :
    textsOf id (es ++ more) = textsOf id es ++ textsOf id more := List.filterMap_append

theorem besidesText_append (id : TaskId) (es more : List Event) :
    besidesText id (es ++ more) = besidesText id es ++ besidesText id more := List.filter_append ..

variable {t : TaskContext} {attempt : Nat}

theorem texts_text (hmuted : t.emitter.muted = false) (pieces : List String) :
    String.join (textsOf t.emitter.taskId (pieces.flatMap t.emitter.text)) = String.join pieces ∧
      besidesText t.emitter.taskId (pieces.flatMap t.emitter.text) = [] := by
  induction pieces with
  | nil => exact ⟨rfl, rfl⟩
  | cons piece pieces ih =>
    obtain ⟨htexts, hrest⟩ := ih
    rw [List.flatMap_cons, textsOf_append, besidesText_append, hrest]
    by_cases hempty : piece = ""
    · subst hempty
      have hnone : t.emitter.text "" = [] := if_pos rfl
      rw [hnone]
      exact ⟨by simpa [textsOf] using htexts, rfl⟩
    · have hchunk : t.emitter.text piece = [.chunk t.emitter.taskId t.emitter.assistantId
          (.ofText piece) t.emitter.respondAs] := by
        rw [TaskEmitter.text, if_neg hempty]
        exact TaskEmitter.emit_of_not_muted hmuted _
      have hcontent : textsOf t.emitter.taskId (t.emitter.text piece) = [piece] ∧
          besidesText t.emitter.taskId (t.emitter.text piece) = [] := by
        rw [hchunk]
        simp [textsOf, besidesText, Event.content?, ChunkDelta.ofText]
      rw [hcontent.1, hcontent.2]
      simp [htexts]

def narrated (t : TaskContext) (attempt : Nat) (chunks : List ExtractChunk) : List Event :=
  if attempt = 1 then (chunks.filterMap textOf?).flatMap t.emitter.text else []

theorem texts_narrated (hmuted : t.emitter.muted = false) (attempt : Nat)
    (chunks : List ExtractChunk) :
    String.join (textsOf t.emitter.taskId (narrated t attempt chunks)) =
        (if attempt = 1 then narrativeOf chunks else "") ∧
      besidesText t.emitter.taskId (narrated t attempt chunks) = [] := by
  unfold narrated
  split
  · exact texts_text hmuted _
  · exact ⟨rfl, rfl⟩

def counted (t : TaskContext) (usage : Option Usage) : List Event :=
  usage.toList.flatMap t.emitter.usage

theorem texts_counted (usage : Option Usage) :
    textsOf t.emitter.taskId (counted t usage) = [] ∧
      besidesText t.emitter.taskId (counted t usage) = counted t usage := by
  cases usage with
  | none => exact ⟨rfl, rfl⟩
  | some u =>
    unfold counted TaskEmitter.usage TaskEmitter.emit
    split <;> exact ⟨rfl, rfl⟩

/-! ## Attempts -/

theorem runs_reportNarrative (chunks : List ExtractChunk) :
    Runs (reportNarrative t attempt (chunks.filterMap textOf?)).run []
      (narrated t attempt chunks) (.ok ()) := by
  unfold reportNarrative narrated
  split
  · exact runs_map.mpr ⟨(), runs_reportAll.mpr ⟨rfl, rfl⟩, rfl⟩
  · exact runs_ok.mpr ⟨rfl, rfl, rfl⟩

theorem runs_reportUsage (usage : Option Usage) :
    Runs (t.reportUsage usage).run [] (counted t usage) (.ok ()) := by
  cases usage with
  | none => exact runs_ok.mpr ⟨rfl, rfl, rfl⟩
  | some u =>
    refine runs_map.mpr ⟨(), runs_reportAll.mpr ⟨rfl, ?_⟩, rfl⟩
    simp [counted]

def prompted (t : TaskContext) (messages : List ChatMessage) : List ChatMessage :=
  messages ++
    ((instruction? t.definition t.engine.config.extraction).map ChatMessage.system).toList

def asked (t : TaskContext) (messages : List ChatMessage) (settings : ModelSettings)
    (stream : Stream ModelDelta) : List Exchange :=
  [⟨.model (prompted t messages) settings, .ok stream⟩]

def fragmentsOf (deltas : List ModelDelta) : List (List Char) :=
  deltas.map fun d => (d.content.getD "").toList

theorem flatten_fragmentsOf (deltas : List ModelDelta) :
    (fragmentsOf deltas).flatten = (textOfDeltas deltas).toList := by
  induction deltas with
  | nil => rfl
  | cons d deltas ih =>
    rw [fragmentsOf, List.map_cons, List.flatten_cons]
    rw [fragmentsOf] at ih
    rw [ih]
    simp [textOfDeltas]

theorem chunksOf_ok (delimiters : Delimiters) (deltas : List ModelDelta) :
    chunksOf delimiters (deltas.map .ok) =
      ((Extractor.new delimiters).splitAll (fragmentsOf deltas)).1.map .ok := by
  rw [← Extractor.extractStream_ok, chunksOf, fragmentsOf, List.map_map, List.map_map]
  rfl

theorem chunksOf_error (delimiters : Delimiters) (deltas : List ModelDelta) (e : Error)
    (more : Stream ModelDelta) : ∃ rest, chunksOf delimiters (deltas.map .ok ++ .error e :: more) =
      ((Extractor.new delimiters).pushAll (fragmentsOf deltas)).1.map .ok ++ .error e :: rest := by
  have happend := Extractor.extractStream_append (Extractor.new delimiters) (fragmentsOf deltas)
    (.error e :: more.map fun item => item.map fun d => (d.content.getD "").toList)
  rw [Extractor.extractStream_cons_error] at happend
  rw [chunksOf, List.map_append, List.map_map]
  rw [fragmentsOf, List.map_map] at happend
  exact ⟨_, happend⟩

def settle (t : TaskContext) (attempt : Nat) (stream : Stream ModelDelta) : Fallible Json := do
  let chunks := chunksOf t.engine.config.extraction stream
  reportNarrative t attempt (chunks.received.filterMap textOf?)
  let chunks ← MonadExcept.ofExcept chunks.collect
  let answer ← MonadExcept.ofExcept (Response.ofStream stream)
  t.reportUsage answer.usage
  return outputsOf t.definition answer.text (blocksOf chunks) (narrativeOf chunks)

theorem runs_fencedAttempt {messages : List ChatMessage} {settings : ModelSettings}
    {stream : Stream ModelDelta} {es : List Event} {r : Except Error Json}
    (h : Runs (settle t attempt stream).run [] es r) :
    Runs (fencedAttempt t messages settings attempt).run (asked t messages settings stream) es r :=
  have hmodel : Runs (TaskContext.callModel (prompted t messages) settings).run
      (asked t messages settings stream) [] (.ok stream) := runs_query.mpr ⟨rfl, rfl⟩
  hmodel.andThen h

theorem runs_settle_ok (deltas : List ModelDelta) :
    Runs (settle t attempt (deltas.map .ok)).run []
      (narrated t attempt ((Extractor.new t.engine.config.extraction).splitAll
          (fragmentsOf deltas)).1 ++ counted t (Response.ofDeltas deltas).usage)
      (.ok (.obj (membersIn t.definition (textOfDeltas deltas)
        ((Extractor.new t.engine.config.extraction).splitAll (fragmentsOf deltas)).1))) := by
  have hresponse : Response.ofStream (deltas.map .ok) = .ok (Response.ofDeltas deltas) := by
    rw [Response.ofStream, Stream.collect_map_ok]
    rfl
  unfold settle
  dsimp only
  rw [chunksOf_ok, Stream.received_of_collect (Stream.collect_map_ok _), Stream.collect_map_ok,
    hresponse, ← Response.text_ofDeltas, ← List.append_nil (counted t _)]
  refine (runs_reportNarrative _).andThen ?_
  refine (runs_ofExcept.mpr ⟨rfl, rfl, rfl⟩).andThen ?_
  refine (runs_ofExcept.mpr ⟨rfl, rfl, rfl⟩).andThen ?_
  exact (runs_reportUsage _).andThen (runs_ok.mpr ⟨rfl, rfl, rfl⟩)

theorem runs_settle_error (deltas : List ModelDelta) (e : Error) (more : Stream ModelDelta) :
    Runs (settle t attempt (deltas.map .ok ++ .error e :: more)).run []
      (narrated t attempt ((Extractor.new t.engine.config.extraction).pushAll
          (fragmentsOf deltas)).1)
      (.error e) := by
  obtain ⟨rest, hchunks⟩ := chunksOf_error t.engine.config.extraction deltas e more
  unfold settle
  dsimp only
  rw [hchunks, Stream.received_map_ok_append _ rfl, Stream.collect_map_ok_error,
    ← List.append_nil (narrated t attempt _)]
  refine (runs_reportNarrative _).andThen ?_
  exact runs_andThen.mpr (.inl ⟨e, rfl, runs_ofExcept.mpr ⟨rfl, rfl, rfl⟩⟩)

/-- An answer that is given to the end may be cut in any way. -/
theorem fencedAttempt_whole (hmuted : t.emitter.muted = false) (messages : List ChatMessage)
    (settings : ModelSettings) (attempt : Nat) (deltas : List ModelDelta) : ∃ es,
    Runs (fencedAttempt t messages settings attempt).run
      (asked t messages settings (deltas.map .ok)) es
      (.ok (.obj (membersIn t.definition (textOfDeltas deltas)
        (Extractor.canonical t.engine.config.extraction (textOfDeltas deltas).toList)))) ∧
    String.join (textsOf t.emitter.taskId es) = (if attempt = 1 then narrativeOf
      (Extractor.canonical t.engine.config.extraction (textOfDeltas deltas).toList) else "") ∧
    besidesText t.emitter.taskId es = counted t (Response.ofDeltas deltas).usage := by
  set chunks := ((Extractor.new t.engine.config.extraction).splitAll (fragmentsOf deltas)).1
  have hmerged : Extractor.canonical t.engine.config.extraction (textOfDeltas deltas).toList =
      Extractor.mergeText chunks := by
    rw [Extractor.mergeText_splitAll_new, flatten_fragmentsOf]
  obtain ⟨hnarrated, hnothing⟩ := texts_narrated hmuted attempt chunks
  obtain ⟨hsilent, hcounted⟩ := texts_counted (t := t) (Response.ofDeltas deltas).usage
  rw [hmerged, narrativeOf_mergeText, membersIn_congr (Extractor.mergeText_mergeText chunks)]
  refine ⟨_, runs_fencedAttempt (runs_settle_ok deltas), ?_, ?_⟩
  · rw [textsOf_append, hsilent, List.append_nil, hnarrated]
  · rw [besidesText_append, hnothing, hcounted, List.nil_append]

/-- So may an answer that breaks off. -/
theorem fencedAttempt_part (hmuted : t.emitter.muted = false) (messages : List ChatMessage)
    (settings : ModelSettings) (attempt : Nat) (deltas : List ModelDelta) (e : Error)
    (more : Stream ModelDelta) : ∃ es,
    Runs (fencedAttempt t messages settings attempt).run
      (asked t messages settings (deltas.map .ok ++ .error e :: more)) es (.error e) ∧
    String.join (textsOf t.emitter.taskId es) = (if attempt = 1 then narrativeOf
      ((Extractor.new t.engine.config.extraction).push (textOfDeltas deltas).toList).1 else "") ∧
    besidesText t.emitter.taskId es = [] := by
  obtain ⟨hchunks, -⟩ := Extractor.pushAll_new t.engine.config.extraction (fragmentsOf deltas)
  obtain ⟨hnarrated, hnothing⟩ := texts_narrated hmuted attempt
    ((Extractor.new t.engine.config.extraction).pushAll (fragmentsOf deltas)).1
  refine ⟨_, runs_fencedAttempt (runs_settle_error deltas e more), ?_, hnothing⟩
  rw [hnarrated, ← narrativeOf_mergeText, hchunks, narrativeOf_mergeText, flatten_fragmentsOf]

/-- What an attempt reports and gives depends on the text of the answer only. The first attempt says
the narrative, later ones say nothing; an answer that breaks off is heard as far as it was sure to
be narrative. -/
theorem fencedAttempt_of_text (hmuted : t.emitter.muted = false) (messages : List ChatMessage)
    (settings : ModelSettings) (attempt : Nat) (text : String) :
    (∃ outputs : Json.Fields, outputs.Ordered ∧
      (∀ key, Json.Fields.get? key outputs =
        answered? t.definition t.engine.config.extraction text key) ∧
      ∀ deltas : List ModelDelta, textOfDeltas deltas = text → ∃ es,
        Runs (fencedAttempt t messages settings attempt).run
          (asked t messages settings (deltas.map .ok)) es (.ok (.obj outputs)) ∧
        String.join (textsOf t.emitter.taskId es) = (if attempt = 1 then
          narrativeOf (Extractor.canonical t.engine.config.extraction text.toList) else "") ∧
        besidesText t.emitter.taskId es = counted t (Response.ofDeltas deltas).usage) ∧
    ∃ said : String, ∀ deltas : List ModelDelta, textOfDeltas deltas = text →
      ∀ (e : Error) (more : Stream ModelDelta), ∃ es,
        Runs (fencedAttempt t messages settings attempt).run
          (asked t messages settings (deltas.map .ok ++ .error e :: more)) es (.error e) ∧
        String.join (textsOf t.emitter.taskId es) = said ∧
        besidesText t.emitter.taskId es = [] := by
  constructor
  · refine ⟨membersIn t.definition text
      (Extractor.canonical t.engine.config.extraction text.toList),
      ordered_membersIn _ _ _, fun key => get?_membersIn _ _ _ _, ?_⟩
    rintro deltas rfl
    exact fencedAttempt_whole hmuted messages settings attempt deltas
  · refine ⟨if attempt = 1 then
      narrativeOf ((Extractor.new t.engine.config.extraction).push text.toList).1 else "", ?_⟩
    rintro deltas rfl e more
    exact fencedAttempt_part hmuted messages settings attempt deltas e more

/-- An agent that says something and gives a number with it. -/
def reviewer : Definition :=
  { id := "reviewer", name := "Reviewer"
    outputs := [{ name := "text", streamingText := true }, { name := "score", type := .number }]
    kind := .modelPrompt { messages := [⟨.user, "Review."⟩] } }

def reviewTask : TaskContext :=
  Engine.taskContext { project := { id := "press", agents := [reviewer] }, model := some {} } 1
    (.inProject "press" "reviewer") reviewer {} "reviewer"

def review : List ModelDelta :=
  [.text "Good. ``", .text "`json\x7b\"score\": 1\x7d`", .text "``"]

/-- Both delimiters of the block are cut, and nothing of them is said. -/
theorem fencedAttempt_of_review : ∃ outputs es,
    Runs (fencedAttempt reviewTask [] {} 1).run (asked reviewTask [] {} (review.map .ok)) es
      (.ok (.obj outputs)) ∧
    String.join (textsOf "reviewer" es) = "Good. " ∧
    (Json.Fields.get? "text" outputs).map Json.compact = some "\"Good.\"" ∧
    (Json.Fields.get? "score" outputs).map Json.compact = some "1" := by
  obtain ⟨⟨outputs, -, hkeys, hwhole⟩, -⟩ := fencedAttempt_of_text (t := reviewTask) rfl [] {} 1
    "Good. ```json\x7b\"score\": 1\x7d```"
  obtain ⟨es, hruns, hsaid, -⟩ := hwhole review (by decide +kernel)
  refine ⟨outputs, es, hruns, ?_, ?_, ?_⟩
  · rw [Extractor.canonical_eq] at hsaid
    exact hsaid.trans (by decide +kernel)
  · rw [hkeys, answered?, Extractor.canonical_eq]
    decide +kernel
  · rw [hkeys, answered?, Extractor.canonical_eq]
    decide +kernel

/-- A later attempt does not say its narrative. -/
theorem narrative_unsaid_later :
    ¬ ∀ (t : TaskContext) (attempt : Nat) (deltas : List ModelDelta), t.emitter.muted = false →
      ∃ es r, Runs (fencedAttempt t [] {} attempt).run (asked t [] {} (deltas.map .ok)) es r ∧
        String.join (textsOf t.emitter.taskId es) = narrativeOf
          (Extractor.canonical t.engine.config.extraction (textOfDeltas deltas).toList) := by
  intro h
  obtain ⟨es, r, hruns, hsaid⟩ := h reviewTask 2 [.text "Good."] rfl
  obtain ⟨es', hruns', hsilent, -⟩ :=
    fencedAttempt_whole (t := reviewTask) rfl [] {} 2 [.text "Good."]
  obtain ⟨-, rfl, -⟩ := hruns.unique hruns' (congrArg (· ++ []) rfl)
  rw [hsilent, Extractor.canonical_eq] at hsaid
  exact absurd hsaid (by decide +kernel)

end ModelPrompt

end Agents
