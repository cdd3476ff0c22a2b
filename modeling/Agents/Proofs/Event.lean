import Agents.Event
import Agents.Proofs.Timestamp

/-! # Events and their JSON

Different events are different JSON values (`toJson_injective`): the type tells which members
follow, each member has a name of its own, and what is left out differs from what is there. The
points in time of an event have to be such as clocks give, and those of an event that was read are
(`valid_of_ofJson?`).
-/

namespace Agents

/-! ## Members -/

namespace Json

theorem get?_append (key : String) (as bs : Fields) :
    Fields.get? key (as ++ bs) = (Fields.get? key as).or (Fields.get? key bs) := by
  induction as with
  | nil => rfl
  | cons head rest ih =>
    obtain ⟨k, v⟩ := head
    rw [List.cons_append, Fields.get?_cons, Fields.get?_cons]
    split_ifs
    · rfl
    · exact ih

theorem get?_member? {α : Type} (key k : String) (encode : α → Json) (value : Option α) :
    Fields.get? key (member? k encode value) = if k = key then value.map encode else none := by
  cases value with
  | none => exact (ite_self none).symm
  | some a => rfl

theorem str_injective : Function.Injective Json.str := fun _ _ h => Json.str.inj h

theorem ofNat_injective {m n : ℕ} (h : ofNat m = ofNat n) : m = n :=
  Int.ofNat.inj (Number.int.inj (Json.num.inj h))

theorem map_encode_inj {α : Type} {encode : α → Json} {value value' : Option α}
    (hencode : ∀ a ∈ value, ∀ b ∈ value', encode a = encode b → a = b)
    (h : value.map encode = value'.map encode) : value = value' := by
  cases value with
  | none =>
    cases value' with
    | none => rfl
    | some b => cases h
  | some a =>
    cases value' with
    | none => cases h
    | some b => rw [hencode a rfl b rfl (Option.some.inj h)]

end Json

/-! ## The parts of events -/

theorem Timestamp.toJson_injective {t u : Timestamp} (ht : t.Valid) (hu : u.Valid)
    (h : t.toJson = u.toJson) : t = u := text_injective ht hu (Json.str.inj h)

theorem Role.name_injective {a b : Role} (h : a.name = b.name) : a = b := by
  cases a <;> cases b <;> first | rfl | exact absurd h (by decide)

theorem ContentPart.toJson_injective {a b : ContentPart} (h : a.toJson = b.toJson) : a = b := by
  cases a <;> cases b <;> simp_all [toJson]

theorem MessageContent.toJson_injective {a b : MessageContent} (h : a.toJson = b.toJson) :
    a = b := by
  cases a with
  | text s =>
    cases b with
    | text t => exact congrArg _ (Json.str.inj h)
    | parts qs => cases h
  | parts ps =>
    cases b with
    | text t => cases h
    | parts qs =>
      have hparts : ps.map ContentPart.toJson = qs.map ContentPart.toJson := Json.arr.inj h
      exact congrArg _ (List.map_injective_iff.mpr
        (fun _ _ hpart => ContentPart.toJson_injective hpart) hparts)

theorem ChatMessage.toJson_injective {a b : ChatMessage} (h : a.toJson = b.toJson) : a = b := by
  obtain ⟨role, content⟩ := a
  obtain ⟨role', content'⟩ := b
  simp only [toJson, Json.obj.injEq, List.cons.injEq, Prod.mk.injEq, Json.str.injEq, true_and,
    and_true] at h
  rw [Role.name_injective h.1, MessageContent.toJson_injective h.2]

theorem Usage.toJson_injective {a b : Usage} (h : a.toJson = b.toJson) : a = b := by
  obtain ⟨prompt, completion, total⟩ := a
  obtain ⟨prompt', completion', total'⟩ := b
  simp only [toJson, Json.obj.injEq, List.cons.injEq, Prod.mk.injEq, true_and, and_true] at h
  rw [Json.ofNat_injective h.1, Json.ofNat_injective h.2.1, Json.ofNat_injective h.2.2]

theorem RespondAs.toJson_injective {a b : RespondAs} (h : a.toJson = b.toJson) : a = b := by
  cases a <;> cases b <;> simp_all [toJson]

theorem ExecutePhase.name_injective {a b : ExecutePhase} (h : a.name = b.name) : a = b := by
  cases a <;> cases b <;> first | rfl | exact absurd h (by decide)

theorem ChunkDelta.images_injective :
    Function.Injective fun urls : List String => Json.arr (urls.map Json.str) := fun _ _ h =>
  List.map_injective_iff.mpr Json.str_injective (Json.arr.inj h)

theorem ChunkDelta.toJson_injective {a b : ChunkDelta} (h : a.toJson = b.toJson) : a = b := by
  obtain ⟨content, object, images⟩ := a
  obtain ⟨content', object', images'⟩ := b
  have hmember (key : String) := congrArg (Json.Fields.get? key) (Json.obj.inj h)
  have hcontent := hmember "content"
  have hobject := hmember "object"
  have himages := hmember "images"
  simp [Json.get?_append, Json.get?_member?] at hcontent hobject himages
  rw [Option.map_injective Json.str_injective hcontent, hobject,
    Option.map_injective images_injective himages]

theorem ErrorReport.toJson_injective {a b : ErrorReport} (ha : ∀ t ∈ a.timestamp, t.Valid)
    (hb : ∀ t ∈ b.timestamp, t.Valid) (h : a.toJson = b.toJson) : a = b := by
  obtain ⟨message, kind, timestamp⟩ := a
  obtain ⟨message', kind', timestamp'⟩ := b
  have hmember (key : String) := congrArg (Json.Fields.get? key) (Json.obj.inj h)
  have hmessage := hmember "message"
  have hkind := hmember "type"
  have htime := hmember "timestamp"
  simp [Json.Fields.get?_cons, Json.get?_append, Json.get?_member?] at hmessage hkind htime
  have htime : timestamp = timestamp' := Json.map_encode_inj
    (fun t ht u hu heq => Timestamp.toJson_injective (ha t ht) (hb u hu) heq) htime
  rw [hmessage, Option.map_injective Json.str_injective hkind, htime]

/-! ## Events -/

namespace Event

def timestamps : Event → List Timestamp
  | .execute _ _ _ _ _ timestamp => timestamp.toList
  | .log _ _ _ timestamp => [timestamp]
  | .error report => report.timestamp.toList
  | .inputParameter _ | .input .. | .chunk .. | .usage .. | .progress _ => []

/-- An event whose points in time are such as clocks give. -/
def Valid (e : Event) : Prop := ∀ t ∈ e.timestamps, t.Valid

theorem prompt_injective :
    Function.Injective fun ms : List ChatMessage => Json.arr (ms.map ChatMessage.toJson) :=
  fun _ _ h => List.map_injective_iff.mpr (fun _ _ => ChatMessage.toJson_injective) (Json.arr.inj h)

theorem members_injective {a b : Event} (ha : a.Valid) (hb : b.Valid)
    (htype : a.typeName = b.typeName) (h : a.members = b.members) : a = b := by
  have hmember (key : String) := congrArg (Json.Fields.get? key) h
  cases a with
  | inputParameter content =>
    cases b with
    | inputParameter content' =>
      have hcontent := hmember "content"
      simp [members, Json.Fields.get?_cons] at hcontent
      rw [hcontent]
    | _ => exact absurd htype (by simp [typeName])
  | input task parent assistant name inputs prompt =>
    cases b with
    | input task' parent' assistant' name' inputs' prompt' =>
      have htask := hmember "taskId"
      have hparent := hmember "parentTaskId"
      have hassistant := hmember "assistantId"
      have hname := hmember "assistantName"
      have hinputs := hmember "inputParameters"
      have hprompt := hmember "promptMessages"
      simp [members, Json.Fields.get?_cons, Json.get?_append, Json.get?_member?]
        at htask hparent hassistant hname hinputs hprompt
      rw [htask, Option.map_injective Json.str_injective hparent, hassistant, hname, hinputs,
        Option.map_injective prompt_injective hprompt]
    | _ => exact absurd htype (by simp [typeName])
  | chunk task assistant delta respondAs =>
    cases b with
    | chunk task' assistant' delta' respondAs' =>
      have htask := hmember "taskId"
      have hassistant := hmember "assistantId"
      have hdelta := hmember "delta"
      have hrespond := hmember "respondAs"
      simp [members, Json.Fields.get?_cons, Json.get?_member?] at htask hassistant hdelta hrespond
      rw [htask, hassistant, ChunkDelta.toJson_injective hdelta,
        Option.map_injective (fun _ _ => RespondAs.toJson_injective) hrespond]
    | _ => exact absurd htype (by simp [typeName])
  | execute task parent assistant name phase timestamp =>
    cases b with
    | execute task' parent' assistant' name' phase' timestamp' =>
      have htask := hmember "taskId"
      have hparent := hmember "parentTaskId"
      have hassistant := hmember "assistantId"
      have hname := hmember "assistantName"
      have hphase := hmember "execution"
      have htime := hmember "timestamp"
      simp [members, Json.Fields.get?_cons, Json.get?_append, Json.get?_member?]
        at htask hparent hassistant hname hphase htime
      have htime : timestamp = timestamp' := Json.map_encode_inj (fun t ht u hu heq =>
        Timestamp.toJson_injective (ha t (Option.mem_toList.mpr ht))
          (hb u (Option.mem_toList.mpr hu)) heq) htime
      rw [htask, Option.map_injective Json.str_injective hparent, hassistant,
        Option.map_injective Json.str_injective hname, ExecutePhase.name_injective hphase, htime]
    | _ => exact absurd htype (by simp [typeName])
  | usage task assistant counts =>
    cases b with
    | usage task' assistant' counts' =>
      have htask := hmember "taskId"
      have hassistant := hmember "assistantId"
      have hcounts := hmember "usage"
      simp [members, Json.Fields.get?_cons] at htask hassistant hcounts
      rw [htask, hassistant, Usage.toJson_injective hcounts]
    | _ => exact absurd htype (by simp [typeName])
  | log task assistant line timestamp =>
    cases b with
    | log task' assistant' line' timestamp' =>
      have htask := hmember "taskId"
      have hassistant := hmember "assistantId"
      have hline := hmember "log"
      have htime := hmember "timestamp"
      simp [members, Json.Fields.get?_cons] at htask hassistant hline htime
      rw [htask, hassistant, hline, Timestamp.toJson_injective (ha timestamp List.mem_cons_self)
        (hb timestamp' List.mem_cons_self) htime]
    | _ => exact absurd htype (by simp [typeName])
  | error report =>
    cases b with
    | error report' =>
      have hreport := hmember "error"
      simp [members, Json.Fields.get?_cons] at hreport
      rw [ErrorReport.toJson_injective (fun t ht => ha t (Option.mem_toList.mpr ht))
        (fun t ht => hb t (Option.mem_toList.mpr ht)) hreport]
    | _ => exact absurd htype (by simp [typeName])
  | progress payload =>
    cases b with
    | progress payload' =>
      have hpayload := hmember "payload"
      simp [members, Json.Fields.get?_cons] at hpayload
      rw [hpayload]
    | _ => exact absurd htype (by simp [typeName])

/-- Different events are different JSON. -/
theorem toJson_injective {a b : Event} (ha : a.Valid) (hb : b.Valid) (h : a.toJson = b.toJson) :
    a = b := by
  obtain ⟨htype, hmembers⟩ := List.cons.inj (Json.obj.inj h)
  exact members_injective ha hb (Json.str.inj (Prod.mk.inj htype).2) hmembers

end Event

/-! ## What is read -/

theorem Timestamp.valid_of_ofJson? {json : Json} {t : Timestamp} (h : ofJson? json = some t) :
    t.Valid := by
  obtain ⟨s, -, hparse⟩ := Option.bind_eq_some_iff.mp h
  exact valid_of_parse? hparse

theorem Timestamp.valid_of_optional {fields : Json.Fields} {key : String}
    {time : Option Timestamp} (h : Json.Fields.optional key ofJson? fields = some time) :
    ∀ t ∈ time, t.Valid := by
  unfold Json.Fields.optional at h
  split at h
  · cases h
    exact nofun
  · unfold Json.Decoder.nullable at h
    split_ifs at h
    · cases h
      exact nofun
    · obtain ⟨t, ht, rfl⟩ := Option.map_eq_some_iff.mp h
      intro _ hmem
      cases hmem
      exact valid_of_ofJson? ht

theorem ErrorReport.valid_of_ofJson? {json : Json} {report : ErrorReport}
    (h : ofJson? json = some report) : ∀ t ∈ report.timestamp, t.Valid := by
  obtain ⟨fields, -, h⟩ := Option.bind_eq_some_iff.mp h
  obtain ⟨message, -, h⟩ := Option.bind_eq_some_iff.mp h
  obtain ⟨kind, -, h⟩ := Option.bind_eq_some_iff.mp h
  obtain ⟨timestamp, htime, h⟩ := Option.bind_eq_some_iff.mp h
  cases h
  exact Timestamp.valid_of_optional htime

/-- The points in time of an event that was read are such as clocks give. -/
theorem Event.valid_of_ofJson? {json : Json} {e : Event} (h : ofJson? json = some e) :
    e.Valid := by
  obtain ⟨fields, -, h⟩ := Option.bind_eq_some_iff.mp h
  obtain ⟨type, -, h⟩ := Option.bind_eq_some_iff.mp h
  split at h
  · obtain ⟨content, -, h⟩ := Option.bind_eq_some_iff.mp h
    cases h
    exact nofun
  · obtain ⟨_, -, h⟩ := Option.bind_eq_some_iff.mp h
    obtain ⟨_, -, h⟩ := Option.bind_eq_some_iff.mp h
    obtain ⟨_, -, h⟩ := Option.bind_eq_some_iff.mp h
    obtain ⟨_, -, h⟩ := Option.bind_eq_some_iff.mp h
    obtain ⟨_, -, h⟩ := Option.bind_eq_some_iff.mp h
    obtain ⟨_, -, h⟩ := Option.bind_eq_some_iff.mp h
    cases h
    exact nofun
  · obtain ⟨_, -, h⟩ := Option.bind_eq_some_iff.mp h
    obtain ⟨_, -, h⟩ := Option.bind_eq_some_iff.mp h
    obtain ⟨_, -, h⟩ := Option.bind_eq_some_iff.mp h
    obtain ⟨_, -, h⟩ := Option.bind_eq_some_iff.mp h
    cases h
    exact nofun
  · obtain ⟨_, -, h⟩ := Option.bind_eq_some_iff.mp h
    obtain ⟨_, -, h⟩ := Option.bind_eq_some_iff.mp h
    obtain ⟨_, -, h⟩ := Option.bind_eq_some_iff.mp h
    obtain ⟨_, -, h⟩ := Option.bind_eq_some_iff.mp h
    obtain ⟨_, -, h⟩ := Option.bind_eq_some_iff.mp h
    obtain ⟨_, htime, h⟩ := Option.bind_eq_some_iff.mp h
    cases h
    intro t ht
    exact Timestamp.valid_of_optional htime t (Option.mem_toList.mp ht)
  · obtain ⟨_, -, h⟩ := Option.bind_eq_some_iff.mp h
    obtain ⟨_, -, h⟩ := Option.bind_eq_some_iff.mp h
    obtain ⟨_, -, h⟩ := Option.bind_eq_some_iff.mp h
    cases h
    exact nofun
  · obtain ⟨_, -, h⟩ := Option.bind_eq_some_iff.mp h
    obtain ⟨_, -, h⟩ := Option.bind_eq_some_iff.mp h
    obtain ⟨_, -, h⟩ := Option.bind_eq_some_iff.mp h
    obtain ⟨_, htime, h⟩ := Option.bind_eq_some_iff.mp h
    cases h
    obtain ⟨_, -, htime⟩ := Option.bind_eq_some_iff.mp htime
    intro t ht
    cases List.mem_singleton.mp ht
    exact Timestamp.valid_of_ofJson? htime
  · obtain ⟨_, hreport, h⟩ := Option.bind_eq_some_iff.mp h
    cases h
    obtain ⟨_, -, hreport⟩ := Option.bind_eq_some_iff.mp hreport
    intro t ht
    exact ErrorReport.valid_of_ofJson? hreport t (Option.mem_toList.mp ht)
  · obtain ⟨_, -, h⟩ := Option.bind_eq_some_iff.mp h
    cases h
    exact nofun
  · cases h

end Agents
