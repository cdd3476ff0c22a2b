import Agents.Proofs.Json.Rereading
import Agents.Proofs.Timestamp.Reading
import Agents.Proofs.Trace.Recorder
import Agents.Proofs.Trace.Tables

/-! # A stored log is read back

Every event has a text from which it is read back (`Event.ofJson?_reread`), as long as it is one
that a program can hold and its output has no `null` for an object: a member that is `null` is
taken for one that was left out. The members of a record are looked for by their names, which
differ, so it does not matter that they are read in ascending order.

So the entries of a recorder can be stored and read back (`Recording.stored_log_survives`).
-/

namespace Agents

namespace Json

/-! ## Records -/

namespace Fields

variable {α β : Type} {decode : Decoder α} {fields : Fields} {next : α → Option β} {b : β}

theorem required_then (key : String) (v : Json) (hnames : (fields.map (·.1)).Nodup)
    (h : (key, v) ∈ fields) {a : α} (hv : decode v.reread = some a) (hnext : next a = some b) :
    (required key decode (rereadFields fields)).bind next = some b := by
  have hmem : (key, v.reread) ∈ fields.map fun member => (member.1, member.2.reread) :=
    List.mem_map_of_mem (f := fun member => (member.1, member.2.reread)) h
  have hget : get? key (rereadFields fields) = some v.reread :=
    get?_ofList (by rwa [List.map_map]) hmem
  rw [required, hget, Option.bind_some, hv]
  exact hnext

theorem text_then (key s : String) (hnames : (fields.map (·.1)).Nodup)
    (h : (key, .str s) ∈ fields) {next : String → Option β} (hnext : next s = some b) :
    (required key .string (rereadFields fields)).bind next = some b :=
  required_then key (.str s) hnames h rfl hnext

theorem optional_then (key : String) (encode : α → Json) (value : Option α)
    (hnames : (fields.map (·.1)).Nodup) (h : get? key fields = value.map encode)
    (hv : ∀ a ∈ value, decode (encode a).reread = some a ∧ (encode a).reread.isNull = false)
    {next : Option α → Option β} (hnext : next value = some b) :
    (optional key decode (rereadFields fields)).bind next = some b := by
  have hread : optional key decode (rereadFields fields) = some value := by
    rw [optional, get?_reread hnames, h]
    cases value with
    | none => rfl
    | some a =>
      obtain ⟨hdecode, hnull⟩ := hv a rfl
      show Decoder.nullable decode (encode a).reread = _
      rw [Decoder.nullable, hnull, hdecode]
      rfl
  rw [hread]
  exact hnext

theorem text?_then (key : String) (value : Option String) (hnames : (fields.map (·.1)).Nodup)
    (h : get? key fields = value.map Json.str) {next : Option String → Option β}
    (hnext : next value = some b) :
    (optional key .string (rereadFields fields)).bind next = some b :=
  optional_then key Json.str value hnames h (fun _ _ => ⟨rfl, rfl⟩) hnext

end Fields

theorem list_reread {α : Type} {decode : Decoder α} {encode : α → Json} {as : List α}
    (h : ∀ a ∈ as, decode (encode a).reread = some a) :
    Decoder.list decode (Json.arr (as.map encode)).reread = some as := by
  rw [reread_arr, List.map_map]
  show (as.map (reread ∘ encode)).mapM decode = some as
  induction as with
  | nil => rfl
  | cons a rest ih =>
    obtain ⟨ha, hrest⟩ := List.forall_mem_cons.mp h
    rw [List.map_cons, List.mapM_cons, ih hrest]
    show (decode (encode a).reread >>= _) = _
    rw [ha]
    rfl

theorem word_reread {n : ℕ} (h : n < 2 ^ 64) : Decoder.word 64 (ofNat n).reread = some n := by
  show (if (0 : ℤ) ≤ n then some (n : ℤ).toNat else none).bind _ = _
  rw [if_pos (by omega)]
  exact if_pos h

/-! ## What is written -/

theorem legible_ofNat {n : ℕ} (h : n < 2 ^ 64) : (ofNat n).Legible :=
  .num (number_int (by omega) (by omega))

theorem legible_texts (texts : List String) : (Json.arr (texts.map Json.str)).Legible := by
  refine .arr fun a ha => ?_
  obtain ⟨s, -, rfl⟩ := List.mem_map.mp ha
  exact .str s

theorem legible_member? {α : Type} {key : String} {encode : α → Json} {value : Option α}
    (h : ∀ a ∈ value, (encode a).Legible) :
    ∀ member ∈ member? key encode value, member.2.Legible := by
  intro member hmember
  cases value with
  | none => cases hmember
  | some a =>
    cases List.mem_singleton.mp hmember
    exact h a rfl

end Json

/-! ## Messages -/

theorem Role.ofJson?_name (r : Role) : Role.ofJson? (.str r.name) = some r := by
  cases r <;> rfl

theorem ContentPart.ofJson?_reread (p : ContentPart) : ofJson? p.toJson.reread = some p := by
  cases p with
  | text s =>
    have hnames : ([("type", Json.str "text"), ("text", Json.str s)].map (·.1)).Nodup := by simp
    rw [toJson, Json.reread_obj]
    refine Json.Fields.text_then "type" "text" hnames (by simp) ?_
    show Option.map text _ = _
    rw [Option.map_eq_bind]
    exact Json.Fields.text_then "text" s hnames (by simp) rfl
  | image url =>
    have hnames : ([("type", Json.str "image_url"), ("url", Json.str url)].map (·.1)).Nodup := by
      simp
    rw [toJson, Json.reread_obj]
    refine Json.Fields.text_then "type" "image_url" hnames (by simp) ?_
    show Option.map image _ = _
    rw [Option.map_eq_bind]
    exact Json.Fields.text_then "url" url hnames (by simp) rfl

theorem MessageContent.ofJson?_reread (c : MessageContent) : ofJson? c.toJson.reread = some c := by
  cases c with
  | text s => rfl
  | parts ps =>
    have hlist := Json.list_reread fun p (_ : p ∈ ps) => ContentPart.ofJson?_reread p
    rw [toJson]
    rw [Json.reread_arr] at hlist ⊢
    rw [ofJson?, hlist]
    · rfl
    · exact nofun

theorem ChatMessage.ofJson?_reread (m : ChatMessage) : ofJson? m.toJson.reread = some m := by
  have hnames : ([("role", Json.str m.role.name), ("content", m.content.toJson)].map (·.1)).Nodup :=
    by simp
  rw [toJson, Json.reread_obj]
  refine Json.Fields.required_then "role" (.str m.role.name) hnames (by simp)
    (Role.ofJson?_name m.role) ?_
  exact Json.Fields.required_then "content" m.content.toJson hnames (by simp)
    m.content.ofJson?_reread rfl

theorem RespondAs.ofJson?_reread (r : RespondAs) : ofJson? r.toJson.reread = some r := by
  cases r <;> rfl

theorem ExecutePhase.ofJson?_name (p : ExecutePhase) : ofJson? (.str p.name) = some p := by
  cases p <;> rfl

theorem Usage.ofJson?_reread {u : Usage} (hprompt : u.promptTokens < 2 ^ 64)
    (hcompletion : u.completionTokens < 2 ^ 64) (htotal : u.totalTokens < 2 ^ 64) :
    ofJson? u.toJson.reread = some u := by
  have hnames : ([("promptTokens", Json.ofNat u.promptTokens),
      ("completionTokens", Json.ofNat u.completionTokens),
      ("totalTokens", Json.ofNat u.totalTokens)].map (·.1)).Nodup := by simp
  rw [toJson, Json.reread_obj]
  refine Json.Fields.required_then "promptTokens" (.ofNat u.promptTokens) hnames (by simp)
    (Json.word_reread hprompt) ?_
  refine Json.Fields.required_then "completionTokens" (.ofNat u.completionTokens) hnames (by simp)
    (Json.word_reread hcompletion) ?_
  exact Json.Fields.required_then "totalTokens" (.ofNat u.totalTokens) hnames (by simp)
    (Json.word_reread htotal) rfl

/-! ## Pieces of output and reports -/

theorem ChunkDelta.ofJson?_reread {d : ChunkDelta} (hproper : ∀ object ∈ d.object, object.Proper)
    (hnull : d.object ≠ some .null) : ofJson? d.toJson.reread = some d := by
  obtain ⟨content, object, images⟩ := d
  have hnames : ((Json.member? "content" Json.str content ++ Json.member? "object" id object
      ++ Json.member? "images" (fun urls => .arr (urls.map Json.str)) images).map (·.1)).Nodup := by
    cases content <;> cases object <;> cases images <;> simp [Json.member?]
  have hobject : ∀ a ∈ object,
      Json.Decoder.any (id a : Json).reread = some a ∧ (id a : Json).reread.isNull = false := by
    rintro a rfl
    have hread : a.reread = a := (hproper a rfl).reread
    refine ⟨congrArg some hread, ?_⟩
    show a.reread.isNull = false
    rw [hread]
    cases a with
    | null => exact absurd rfl hnull
    | _ => rfl
  have himages : ∀ urls ∈ images,
      Json.Decoder.list .string (Json.arr (urls.map Json.str)).reread = some urls ∧
        (Json.arr (urls.map Json.str)).reread.isNull = false := by
    intro urls _
    exact ⟨Json.list_reread fun _ _ => rfl, by rw [Json.reread_arr]; rfl⟩
  rw [toJson, Json.reread_obj]
  refine Json.Fields.text?_then "content" content hnames
    (by simp [Json.get?_append, Json.get?_member?]) ?_
  refine Json.Fields.optional_then "object" id object hnames
    (by simp [Json.get?_append, Json.get?_member?]) hobject ?_
  exact Json.Fields.optional_then "images" (fun urls => .arr (urls.map Json.str)) images hnames
    (by simp [Json.get?_append, Json.get?_member?]) himages rfl

theorem Timestamp.ofJson?_reread {t : Timestamp} (h : t.Valid ∧ t.HasYear) :
    ofJson? t.toJson.reread = some t := by
  have hstring : t.toJson.reread.str? = some t.text := rfl
  rw [ofJson?, hstring, Option.bind_some]
  exact parse?_text h.1 h.2

theorem ErrorReport.ofJson?_reread {r : ErrorReport}
    (h : ∀ t ∈ r.timestamp, t.Valid ∧ t.HasYear) : ofJson? r.toJson.reread = some r := by
  obtain ⟨message, kind, timestamp⟩ := r
  have hnames : ((("message", Json.str message) :: (Json.member? "type" Json.str kind
      ++ Json.member? "timestamp" Timestamp.toJson timestamp)).map (·.1)).Nodup := by
    cases kind <;> cases timestamp <;> simp [Json.member?]
  rw [toJson, Json.reread_obj]
  refine Json.Fields.text_then "message" message hnames (by simp) ?_
  refine Json.Fields.text?_then "type" kind hnames
    (by simp [Json.Fields.get?_cons, Json.get?_append, Json.get?_member?]) ?_
  exact Json.Fields.optional_then "timestamp" Timestamp.toJson timestamp hnames
    (by simp [Json.Fields.get?_cons, Json.get?_append, Json.get?_member?])
    (fun t ht => ⟨Timestamp.ofJson?_reread (h t ht), rfl⟩) rfl

/-! ## Events -/

namespace Event

/-- The values that an event carries as they are. -/
def payloads : Event → List Json
  | .input _ _ _ _ inputs _ => [inputs]
  | .chunk _ _ delta _ => delta.object.toList
  | .progress payload => [payload]
  | .inputParameter _ | .execute .. | .usage .. | .log .. | .error _ => []

def counts : Event → List ℕ
  | .usage _ _ u => [u.promptTokens, u.completionTokens, u.totalTokens]
  | .inputParameter _ | .input .. | .chunk .. | .execute .. | .log .. | .error _ | .progress _ => []

/-- An event that a program can hold, without a `null` for the object of a piece of output: a text
does not tell that from no object. -/
structure Storable (e : Event) : Prop where
  payloads : ∀ a ∈ e.payloads, a.Proper
  counts : ∀ n ∈ e.counts, n < 2 ^ 64
  timestamps : ∀ t ∈ e.timestamps, t.Valid ∧ t.HasYear
  object : ∀ delta ∈ e.delta?, delta.object ≠ some .null

theorem nodup_names (e : Event) :
    ((("type", Json.str e.typeName) :: e.members).map (·.1)).Nodup := by
  cases e with
  | input task parent assistant name inputs prompt =>
    cases parent <;> cases prompt <;> simp [members, Json.member?]
  | chunk task assistant delta respondAs => cases respondAs <;> simp [members, Json.member?]
  | execute task parent assistant name phase timestamp =>
    cases parent <;> cases name <;> cases timestamp <;> simp [members, Json.member?]
  | _ => simp [members]

theorem phaseOfJson?_reread (p : ExecutePhase) :
    phaseOfJson? (Json.obj [("currentPhase", .str p.name)]).reread = some p := by
  have hread : (Json.Fields.required "currentPhase" ExecutePhase.ofJson?
      (Json.rereadFields [("currentPhase", .str p.name)])).bind some = some p :=
    Json.Fields.required_then "currentPhase" (.str p.name) (by simp) (by simp) p.ofJson?_name rfl
  rw [Option.bind_fun_some] at hread
  rw [Json.reread_obj]
  exact hread

theorem ofJson?_reread {e : Event} (h : e.Storable) : ofJson? e.toJson.reread = some e := by
  have hnames := e.nodup_names
  rw [toJson, Json.reread_obj]
  refine Json.Fields.text_then "type" e.typeName hnames List.mem_cons_self ?_
  cases e with
  | inputParameter content =>
    exact Json.Fields.text_then "content" content hnames (by simp [members]) rfl
  | input task parent assistant name inputs prompt =>
    have hinputs : inputs.reread = inputs := (h.payloads inputs List.mem_cons_self).reread
    refine Json.Fields.text_then "taskId" task hnames (by simp [members]) ?_
    refine Json.Fields.text?_then "parentTaskId" parent hnames
      (by simp [members, Json.Fields.get?_cons, Json.get?_append, Json.get?_member?]) ?_
    refine Json.Fields.text_then "assistantId" assistant hnames (by simp [members]) ?_
    refine Json.Fields.text_then "assistantName" name hnames (by simp [members]) ?_
    refine Json.Fields.required_then "inputParameters" inputs hnames (by simp [members])
      (congrArg some hinputs) ?_
    exact Json.Fields.optional_then "promptMessages" (fun ms => .arr (ms.map ChatMessage.toJson))
      prompt hnames (by simp [members, Json.Fields.get?_cons, Json.get?_append, Json.get?_member?])
      (fun ms _ => ⟨Json.list_reread fun m _ => m.ofJson?_reread, by rw [Json.reread_arr]; rfl⟩) rfl
  | chunk task assistant delta respondAs =>
    have hdelta : ChunkDelta.ofJson? delta.toJson.reread = some delta :=
      ChunkDelta.ofJson?_reread (fun object hobject => h.payloads object (by simpa [payloads]))
        (h.object delta rfl)
    refine Json.Fields.text_then "taskId" task hnames (by simp [members]) ?_
    refine Json.Fields.text_then "assistantId" assistant hnames (by simp [members]) ?_
    refine Json.Fields.required_then "delta" delta.toJson hnames (by simp [members]) hdelta ?_
    exact Json.Fields.optional_then "respondAs" RespondAs.toJson respondAs hnames
      (by simp [members, Json.Fields.get?_cons, Json.get?_member?])
      (fun r _ => ⟨r.ofJson?_reread, by cases r <;> rfl⟩) rfl
  | execute task parent assistant name phase timestamp =>
    refine Json.Fields.text_then "taskId" task hnames (by simp [members]) ?_
    refine Json.Fields.text?_then "parentTaskId" parent hnames
      (by simp [members, Json.Fields.get?_cons, Json.get?_append, Json.get?_member?]) ?_
    refine Json.Fields.text_then "assistantId" assistant hnames (by simp [members]) ?_
    refine Json.Fields.text?_then "assistantName" name hnames
      (by simp [members, Json.Fields.get?_cons, Json.get?_append, Json.get?_member?]) ?_
    refine Json.Fields.required_then "execution" (.obj [("currentPhase", .str phase.name)]) hnames
      (by simp [members]) (phaseOfJson?_reread phase) ?_
    exact Json.Fields.optional_then "timestamp" Timestamp.toJson timestamp hnames
      (by simp [members, Json.Fields.get?_cons, Json.get?_append, Json.get?_member?])
      (fun t ht => ⟨Timestamp.ofJson?_reread (h.timestamps t (Option.mem_toList.mpr ht)), rfl⟩) rfl
  | usage task assistant counts =>
    have hcounts : Usage.ofJson? counts.toJson.reread = some counts :=
      Usage.ofJson?_reread (h.counts _ (by simp [Event.counts])) (h.counts _ (by simp [Event.counts]))
        (h.counts _ (by simp [Event.counts]))
    refine Json.Fields.text_then "taskId" task hnames (by simp [members]) ?_
    refine Json.Fields.text_then "assistantId" assistant hnames (by simp [members]) ?_
    exact Json.Fields.required_then "usage" counts.toJson hnames (by simp [members]) hcounts rfl
  | log task assistant line timestamp =>
    refine Json.Fields.text_then "taskId" task hnames (by simp [members]) ?_
    refine Json.Fields.text_then "assistantId" assistant hnames (by simp [members]) ?_
    refine Json.Fields.text_then "log" line hnames (by simp [members]) ?_
    exact Json.Fields.required_then "timestamp" timestamp.toJson hnames (by simp [members])
      (Timestamp.ofJson?_reread (h.timestamps timestamp List.mem_cons_self)) rfl
  | error report =>
    exact Json.Fields.required_then "error" report.toJson hnames (by simp [members])
      (ErrorReport.ofJson?_reread fun t ht => h.timestamps t (Option.mem_toList.mpr ht)) rfl
  | progress payload =>
    have hpayload : payload.reread = payload := (h.payloads payload List.mem_cons_self).reread
    have hget : Json.Fields.get? "payload" (Json.rereadFields (("type", .str "PROGRESS") ::
        [("payload", payload)])) = some payload := by
      rw [Json.Fields.get?_reread (by simp), ← hpayload]
      simp [Json.Fields.get?_cons, hpayload]
    refine Option.bind_eq_some_iff.mpr ⟨payload, ?_, rfl⟩
    show Json.Fields.defaulted "payload" .any .null (Json.rereadFields
      (("type", .str "PROGRESS") :: [("payload", payload)])) = _
    unfold Json.Fields.defaulted
    rw [hget]
    rfl

end Event

/-! ## Texts of events -/

theorem ContentPart.legible (p : ContentPart) : p.toJson.Legible := by
  cases p <;> exact .obj (by simp [Json.Legible.str])

theorem ChatMessage.legible (m : ChatMessage) : m.toJson.Legible := by
  have hcontent : m.content.toJson.Legible := by
    cases m.content with
    | text s => exact .str s
    | parts ps =>
      refine .arr fun a ha => ?_
      obtain ⟨p, -, rfl⟩ := List.mem_map.mp ha
      exact p.legible
  exact .obj (by simp [Json.Legible.str, hcontent])

theorem ChunkDelta.legible {d : ChunkDelta} (h : ∀ object ∈ d.object, object.Proper) :
    d.toJson.Legible := by
  refine .obj (List.forall_mem_append.mpr ⟨List.forall_mem_append.mpr ⟨?_, ?_⟩, ?_⟩)
  · exact Json.legible_member? fun s _ => .str s
  · exact Json.legible_member? fun object hobject => (h object hobject).legible
  · exact Json.legible_member? fun urls _ => Json.legible_texts urls

theorem ErrorReport.legible (r : ErrorReport) : r.toJson.Legible := by
  refine .obj (List.forall_mem_cons.mpr ⟨.str r.message, List.forall_mem_append.mpr ⟨?_, ?_⟩⟩)
  · exact Json.legible_member? fun s _ => .str s
  · exact Json.legible_member? fun t _ => .str t.text

theorem Event.legible {e : Event} (h : e.Storable) : e.toJson.Legible := by
  refine .obj (List.forall_mem_cons.mpr ⟨.str e.typeName, ?_⟩)
  cases e with
  | inputParameter content => simp [members, Json.Legible.str]
  | input task parent assistant name inputs prompt =>
    have hinputs : inputs.Legible := (h.payloads inputs List.mem_cons_self).legible
    refine List.forall_mem_append.mpr ⟨List.forall_mem_append.mpr ⟨List.forall_mem_cons.mpr
      ⟨.str task, ?_⟩, ?_⟩, ?_⟩
    · exact Json.legible_member? fun s _ => .str s
    · simp [Json.Legible.str, hinputs]
    · refine Json.legible_member? fun ms _ => .arr fun a ha => ?_
      obtain ⟨m, -, rfl⟩ := List.mem_map.mp ha
      exact m.legible
  | chunk task assistant delta respondAs =>
    have hdelta : delta.toJson.Legible := ChunkDelta.legible fun object hobject =>
      h.payloads object (Option.mem_toList.mpr hobject)
    refine List.forall_mem_append.mpr ⟨?_, ?_⟩
    · simp [Json.Legible.str, hdelta]
    · refine Json.legible_member? fun r _ => ?_
      cases r <;> exact .str _
  | execute task parent assistant name phase timestamp =>
    have hphase : (Json.obj [("currentPhase", .str phase.name)]).Legible :=
      .obj (by simp [Json.Legible.str])
    refine List.forall_mem_append.mpr ⟨List.forall_mem_append.mpr ⟨List.forall_mem_append.mpr
      ⟨List.forall_mem_append.mpr ⟨List.forall_mem_cons.mpr ⟨.str task, ?_⟩, ?_⟩, ?_⟩, ?_⟩, ?_⟩
    · exact Json.legible_member? fun s _ => .str s
    · simp [Json.Legible.str]
    · exact Json.legible_member? fun s _ => .str s
    · simp [hphase]
    · exact Json.legible_member? fun t _ => .str t.text
  | usage task assistant counts =>
    have hcount : ∀ n ∈ [counts.promptTokens, counts.completionTokens, counts.totalTokens],
        (Json.ofNat n).Legible := fun n hn => Json.legible_ofNat (h.counts n hn)
    have hcounts : counts.toJson.Legible := .obj (by simpa using hcount)
    simp [members, Json.Legible.str, hcounts]
  | log task assistant line timestamp =>
    have htime : timestamp.toJson.Legible := .str timestamp.text
    simp [members, Json.Legible.str, htime]
  | error report => simp [members, report.legible]
  | progress payload =>
    have hpayload : payload.Legible := (h.payloads payload List.mem_cons_self).legible
    simp [members, hpayload]

/-! ## Entries -/

namespace RecordedEvent

/-- An entry whose sequence number has 64 bits, of an event that is told from its text. -/
structure Storable (e : RecordedEvent) : Prop where
  sequence_lt : e.sequence < 2 ^ 64
  event : e.event.Storable

theorem ofJson?_reread {e : RecordedEvent} (h : e.Storable) : ofJson? e.toJson.reread = some e := by
  have hnames : ([("sequence", Json.ofNat e.sequence), ("run_id", .str e.runId),
      ("event", e.event.toJson), ("prev_hash", .str e.prevHash),
      ("this_hash", .str e.thisHash)].map (·.1)).Nodup := by simp
  rw [toJson, Json.reread_obj]
  refine Json.Fields.required_then "sequence" (.ofNat e.sequence) hnames (by simp)
    (Json.word_reread h.sequence_lt) ?_
  refine Json.Fields.text_then "run_id" e.runId hnames (by simp) ?_
  refine Json.Fields.required_then "event" e.event.toJson hnames (by simp)
    (Event.ofJson?_reread h.event) ?_
  refine Json.Fields.text_then "prev_hash" e.prevHash hnames (by simp) ?_
  exact Json.Fields.text_then "this_hash" e.thisHash hnames (by simp) rfl

theorem legible {e : RecordedEvent} (h : e.Storable) : e.toJson.Legible := by
  have hsequence : (Json.ofNat e.sequence).Legible := Json.legible_ofNat h.sequence_lt
  have hevent : e.event.toJson.Legible := Event.legible h.event
  exact .obj (by simp [Json.Legible.str, hsequence, hevent])

/-- How deeply the containers of a stored log are nested. -/
def nesting (entries : List RecordedEvent) : ℕ := (Json.arr (entries.map toJson)).nesting

/-- A stored log is read back, unless it is nested too deeply for the reader. -/
theorem readAll?_writeAll {entries : List RecordedEvent} (h : ∀ e ∈ entries, e.Storable)
    (hnesting : nesting entries ≤ Json.maxDepth) : readAll? (writeAll entries) = some entries := by
  have hlegible : (Json.arr (entries.map toJson)).Legible := by
    refine .arr fun a ha => ?_
    obtain ⟨e, he, rfl⟩ := List.mem_map.mp ha
    exact legible (h e he)
  rw [readAll?, writeAll, Json.parse?_compact hlegible hnesting, Option.bind_some]
  exact Json.list_reread fun e he => ofJson?_reread (h e he)

end RecordedEvent

namespace Recording

theorem storable_entries {r : Recorder} {runId : String} {given : List Event}
    (h : r.Holds runId given) (hlength : given.length ≤ 2 ^ 64) (hgiven : ∀ e ∈ given, e.Storable) :
    ∀ entry ∈ r.entries, entry.Storable := by
  intro entry hentry
  have hcount : r.entries.length = given.length := by
    rw [← h.events, Recorder.events, List.length_map]
  obtain ⟨i, hi, rfl⟩ := List.mem_iff_getElem.mp hentry
  constructor
  · rw [h.sequences i hi]
    omega
  · have hevents := h.events
    exact hgiven _ (hevents ▸ List.mem_map_of_mem hentry)

/-- What a recorder holds is read back after it was stored, whatever it recorded and by whichever
sinks. So what is read is a chain again and gives the same task tree. -/
theorem stored_log_survives (runId : String) (steps : List Step)
    (hgiven : ∀ e ∈ steps.flatMap Step.recorded, e.Storable)
    (hlength : (steps.flatMap Step.recorded).length ≤ 2 ^ 64)
    (hnesting : RecordedEvent.nesting ((new runId).run steps).recorder.entries ≤ Json.maxDepth) :
    ∃ reloaded,
      RecordedEvent.readAll? (RecordedEvent.writeAll ((new runId).run steps).recorder.entries) =
        some reloaded ∧
      reloaded = ((new runId).run steps).recorder.entries ∧
      Chain.verify reloaded = true ∧
      ∀ userId assistantId,
        (TaskTree.new userId assistantId).reduceAll (reloaded.map (·.event)) =
          ((new runId).run steps).recorder.replay userId assistantId := by
  have hnew : (new runId).recorder.Holds runId [] := Recorder.holds_new runId
  have hholds := holds_run hnew steps
  rw [List.nil_append] at hholds
  refine ⟨_, ?_, rfl, hholds.isSound, fun _ _ => rfl⟩
  exact RecordedEvent.readAll?_writeAll (storable_entries hholds hlength hgiven) hnesting

/-- Some uses of a recorder, with a number that is no integer and an image in the prompt. -/
def diary : List Step :=
  [.record (.input "root" none "writer" "Writer"
      (.obj [("share", .num (.float 0.5)), ("words", .num (.int 300))])
      (some [⟨.user, .parts [.text "cats", .image "cat.png"]⟩])),
    .emit .recordOnly (.chunk "root" "writer" { object := some (.arr [.null]) } (some .message)),
    .emit (.tee (.callback 0)) (.log "root" "writer" "done" ⟨951782400, 5000000⟩)]

theorem storable_diary : ∀ e ∈ diary.flatMap Step.recorded, e.Storable := by
  have hshare : Json.number (Json.floatLayout.text 0.5).toList = .ok (.float 0.5, []) := by
    have htext : (Json.floatLayout.text 0.5).toList = ['0', '.', '5'] := rfl
    have hscale : Json.scaleByPowerOfTen 5 (-1) = some 0.5 := by decide +kernel
    rw [htext]
    show Json.finishFloat false 5 (-1) [] = _
    rw [Json.finishFloat, hscale]
    rfl
  have hinputs : (Json.obj [("share", .num (.float 0.5)), ("words", .num (.int 300))]).Proper := by
    refine .obj (by decide) (List.forall_mem_cons.mpr ⟨.float hshare, ?_⟩)
    exact List.forall_mem_singleton.mpr (.int (by decide) (by decide))
  have hobject : (Json.arr [.null]).Proper := .arr (List.forall_mem_singleton.mpr .null)
  have hclock : Timestamp.Valid ⟨951782400, 5000000⟩ := ⟨by decide, by decide⟩
  refine List.forall_mem_cons.mpr ⟨?_, List.forall_mem_cons.mpr
    ⟨?_, List.forall_mem_singleton.mpr ?_⟩⟩
  · exact ⟨List.forall_mem_singleton.mpr hinputs, nofun, nofun, nofun⟩
  · exact ⟨List.forall_mem_singleton.mpr hobject, nofun, nofun, by rintro _ ⟨⟩ ⟨⟩⟩
  · exact ⟨nofun, nofun, List.forall_mem_singleton.mpr ⟨hclock, by decide, by decide⟩, nofun⟩

theorem stored_log_survives_diary :
    (∀ e ∈ diary.flatMap Step.recorded, e.Storable) ∧
    (diary.flatMap Step.recorded).length ≤ 2 ^ 64 ∧
    RecordedEvent.nesting ((new "run").run diary).recorder.entries ≤ Json.maxDepth ∧
    ∃ reloaded,
      RecordedEvent.readAll? (RecordedEvent.writeAll ((new "run").run diary).recorder.entries) =
        some reloaded ∧
      reloaded = ((new "run").run diary).recorder.entries ∧
      Chain.verify reloaded = true ∧
      ∀ userId assistantId,
        (TaskTree.new userId assistantId).reduceAll (reloaded.map (·.event)) =
          ((new "run").run diary).recorder.replay userId assistantId := by
  have hlength : (diary.flatMap Step.recorded).length ≤ 2 ^ 64 := by decide
  have hnesting : RecordedEvent.nesting ((new "run").run diary).recorder.entries ≤ Json.maxDepth := by
    decide +kernel
  exact ⟨storable_diary, hlength, hnesting,
    stored_log_survives "run" diary storable_diary hlength hnesting⟩

end Recording

end Agents
