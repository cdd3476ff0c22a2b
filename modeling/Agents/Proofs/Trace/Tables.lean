import Agents.Trace.Reducer
import Mathlib.Data.List.Induction
import Mathlib.Data.List.Nodup

/-! # The tables of a task tree

A tree has one trace and one sub-message for a task at most. Both come about in the same way: the
first event of a kind makes a fresh entry, and every event of that kind changes the entry of its
task and of no other one.

- `trace?_apply` and `subMessage?_apply` say what one event does to an entry, and `apply_eq` what it
  does to the rest of the tree.
- `trace?_applyAll` and `subMessage?_applyAll` say that an entry depends on the events of its task
  alone, apart from the depth at which a trace was first seen.
-/

namespace Agents

/-! ## Entries of a table -/

section Tables

variable {α β γ : Type}

/-- An entry that is made by the first of some events and changed by each of them. -/
def entryOf (fresh : β → γ) (change : γ → β → γ) : List β → Option γ
  | [] => none
  | e :: rest => some ((e :: rest).foldl change (fresh e))

theorem entryOf_append_singleton (fresh : β → γ) (change : γ → β → γ) (es : List β) (e : β) :
    entryOf fresh change (es ++ [e]) =
      some (change ((entryOf fresh change es).getD (fresh e)) e) := by
  cases es with
  | nil => rfl
  | cons first rest =>
    change some ((first :: (rest ++ [e])).foldl change (fresh first)) = _
    rw [← List.cons_append, List.foldl_append]
    rfl

theorem entryOf_isSome {fresh : β → γ} {change : γ → β → γ} {es : List β} :
    (entryOf fresh change es).isSome ↔ es ≠ [] := by
  cases es with
  | nil => simp [entryOf]
  | cons e rest => simp [entryOf]

/-- What every change of an entry adds to a view of it, the entry has in the end. -/
theorem view_of_entryOf {fresh : β → γ} {change : γ → β → γ} (view : γ → α) (whole : List β → α)
    (hfresh : ∀ e, view (fresh e) = whole [])
    (hchange : ∀ entry e es, view entry = whole es → view (change entry e) = whole (es ++ [e]))
    {es : List β} {entry : γ} (h : entryOf fresh change es = some entry) :
    view entry = whole es := by
  induction es using List.reverseRecOn generalizing entry with
  | nil => cases h
  | append_singleton es e ih =>
    rw [entryOf_append_singleton] at h
    cases h
    apply hchange
    cases hentry : entryOf fresh change es with
    | some entry => exact ih hentry
    | none =>
      cases es with
      | nil => exact hfresh e
      | cons _ _ => cases hentry

/-- Changing the entry under one key leaves every other one as it is. -/
theorem find?_map_key {key : γ → String} {change : γ → γ} (hkey : ∀ g, key (change g) = key g)
    (id other : String) (entries : List γ) :
    (entries.map fun g => if key g = id then change g else g).find? (key · = other) =
      (entries.find? (key · = other)).map fun g => if other = id then change g else g := by
  induction entries with
  | nil => rfl
  | cons g rest ih =>
    rw [List.map_cons, List.find?_cons, List.find?_cons]
    by_cases hid : key g = id
    · rw [if_pos hid, hkey]
      by_cases hother : key g = other
      · rw [decide_eq_true hother]
        simp [← hother, hid]
      · rw [decide_eq_false hother, ih]
    · rw [if_neg hid]
      by_cases hother : key g = other
      · rw [decide_eq_true hother]
        simp [← hother, hid]
      · rw [decide_eq_false hother, ih]

/-- Adding an entry under a new key leaves every other one as it is. -/
theorem find?_append_key {key : γ → String} {id : String} {entries : List γ}
    (hnew : entries.any (key · = id) = false) {g : γ} (hg : key g = id) (other : String) :
    (entries ++ [g]).find? (key · = other) =
      if other = id then some g else entries.find? (key · = other) := by
  rw [List.find?_append]
  by_cases hother : other = id
  · have hnone : entries.find? (key · = other) = none := by
      rw [List.find?_eq_none]
      intro g' hg' hkey
      rw [hother] at hkey
      exact List.any_eq_false.mp hnew g' hg' hkey
    rw [hnone, if_pos hother]
    simp [hg, hother]
  · rw [if_neg hother]
    have hne : ¬ key g = other := fun heq => hother (heq.symm.trans hg)
    simp [hne]

theorem find?_isSome_iff_any {key : γ → String} {id : String} {entries : List γ} :
    (entries.find? (key · = id)).isSome ↔ entries.any (key · = id) = true := by
  rw [List.find?_isSome, List.any_eq_true]

theorem mem_map_key_iff {key : γ → String} {id : String} {entries : List γ} :
    id ∈ entries.map key ↔ (entries.find? (key · = id)).isSome := by
  rw [List.find?_isSome, List.mem_map]
  simp

/-- Under keys that do not repeat, an entry is the one that is found under its key. -/
theorem mem_iff_find?_key {key : γ → String} {entries : List γ} (h : (entries.map key).Nodup)
    {g : γ} : g ∈ entries ↔ entries.find? (key · = key g) = some g := by
  constructor
  · intro hg
    obtain ⟨found, hfound⟩ := Option.isSome_iff_exists.mp
      (find?_isSome_iff_any.mpr (List.any_eq_true.mpr ⟨g, hg, decide_eq_true rfl⟩))
    have hkey : key found = key g := by simpa using List.find?_some hfound
    rw [hfound, List.inj_on_of_nodup_map h (List.mem_of_find?_eq_some hfound) hg hkey]
  · exact List.mem_of_find?_eq_some

/-- Two tables with the same entries differ in their order alone. -/
theorem perm_of_find?_key {key : γ → String} {entries others : List γ}
    (h : (entries.map key).Nodup) (h' : (others.map key).Nodup)
    (hsame : ∀ id, entries.find? (key · = id) = others.find? (key · = id)) :
    entries.Perm others := by
  rw [List.perm_ext_iff_of_nodup (List.Nodup.of_map key h) (List.Nodup.of_map key h')]
  intro g
  rw [mem_iff_find?_key h, mem_iff_find?_key h', hsame]

theorem key_ite {key : γ → String} {change : γ → γ} (hkey : ∀ g, key (change g) = key g)
    (id : String) (g : γ) : key (if key g = id then change g else g) = key g := by
  split
  · exact hkey g
  · rfl

theorem nodup_map_key {key : γ → String} {change : γ → γ} (hkey : ∀ g, key (change g) = key g)
    (id : String) {entries : List γ} (h : (entries.map key).Nodup) :
    ((entries.map fun g => if key g = id then change g else g).map key).Nodup := by
  have hkeys : (key ∘ fun g => if key g = id then change g else g) = key :=
    funext (key_ite hkey id)
  rw [List.map_map, hkeys]
  exact h

theorem nodup_append_key {key : γ → String} {id : String} {entries : List γ}
    (hnew : entries.any (key · = id) = false) {g : γ} (hg : key g = id)
    (h : (entries.map key).Nodup) : ((entries ++ [g]).map key).Nodup := by
  rw [List.map_append, List.map_singleton, hg]
  refine List.nodup_append.mpr ⟨h, List.nodup_singleton id, ?_⟩
  rintro k hk other hother rfl
  obtain ⟨g', hg', hkey⟩ := List.mem_map.mp hk
  rw [List.mem_singleton.mp hother] at hkey
  exact List.any_eq_false.mp hnew g' hg' (decide_eq_true hkey)

/-- Changes the entry under a key, after adding a fresh one if there is none. -/
def upsert (key : γ → String) (id : String) (change : γ → γ) (fresh : γ) (entries : List γ) :
    List γ :=
  if entries.any (key · = id) then entries.map fun g => if key g = id then change g else g
  else entries ++ [change fresh]

section Upsert

variable {key : γ → String} {id : String} {change : γ → γ} {fresh : γ}

theorem find?_upsert (hkey : ∀ g, key (change g) = key g) (hfresh : key fresh = id)
    (entries : List γ) (other : String) :
    (upsert key id change fresh entries).find? (key · = other) =
      if other = id then some (change ((entries.find? (key · = id)).getD fresh))
      else entries.find? (key · = other) := by
  unfold upsert
  by_cases hany : entries.any (key · = id) = true
  · obtain ⟨g, hg⟩ := Option.isSome_iff_exists.mp (find?_isSome_iff_any.mpr hany)
    rw [if_pos hany, find?_map_key hkey]
    by_cases hother : other = id
    · rw [if_pos hother, hother, hg]
      simp
    · rw [if_neg hother]
      simp [hother]
  · have hnone : entries.find? (key · = id) = none := by
      rw [← Option.not_isSome_iff_eq_none, find?_isSome_iff_any]
      exact hany
    rw [if_neg hany, hnone]
    exact find?_append_key (Bool.eq_false_iff.mpr hany) ((hkey fresh).trans hfresh) other

theorem nodup_upsert (hkey : ∀ g, key (change g) = key g) (hfresh : key fresh = id)
    {entries : List γ} (h : (entries.map key).Nodup) :
    ((upsert key id change fresh entries).map key).Nodup := by
  unfold upsert
  by_cases hany : entries.any (key · = id) = true
  · rw [if_pos hany]
    exact nodup_map_key hkey id h
  · rw [if_neg hany]
    exact nodup_append_key (Bool.eq_false_iff.mpr hany) ((hkey fresh).trans hfresh) h

/-- An entry that is changed twice is changed once, by both in turn. -/
theorem upsert_upsert (hkey : ∀ g, key (change g) = key g) (hfresh : key fresh = id)
    (change' : γ → γ) (fresh' : γ) (entries : List γ) :
    upsert key id change' fresh' (upsert key id change fresh entries) =
      upsert key id (fun g => change' (change g)) fresh entries := by
  by_cases hany : entries.any (key · = id) = true
  · have hany' : (entries.map fun g => if key g = id then change g else g).any (key · = id) =
        true := by
      rw [← hany, List.any_map]
      simp only [Function.comp_def, key_ite hkey]
    rw [upsert, upsert, upsert, if_pos hany, if_pos hany, if_pos hany', List.map_map]
    refine List.map_congr_left fun g _ => ?_
    rw [Function.comp_apply, key_ite hkey]
    split
    · rfl
    · rfl
  -- the second change finds the entry that the first one adds, and no other
  · have hadded : key (change fresh) = id := (hkey fresh).trans hfresh
    have hany' : (entries ++ [change fresh]).any (key · = id) = true := by
      simp [hadded]
    have hrest : (entries.map fun g => if key g = id then change' g else g) = entries := by
      refine (List.map_congr_left fun g hg => ?_).trans (List.map_id entries)
      exact if_neg fun hid => hany (List.any_eq_true.mpr ⟨g, hg, decide_eq_true hid⟩)
    rw [upsert, upsert, upsert, if_neg hany, if_neg hany, if_pos hany', List.map_append, hrest,
      List.map_singleton, if_pos hadded]

end Upsert

end Tables

/-! ## What events do to a trace -/

namespace Event

def parent? : Event → Option TaskId
  | .input _ parent .. | .execute _ parent .. => parent
  | _ => none

def assistant : Event → String
  | .input _ _ assistantId .. | .chunk _ assistantId .. | .execute _ _ assistantId ..
  | .usage _ assistantId .. | .log _ assistantId .. => assistantId
  | _ => ""

def speaker? : Event → Option TaskId
  | .chunk taskId .. => some taskId
  | _ => none

/-- What an event changes in the trace of its task. -/
def change : Event → Trace → Trace
  | .input _ _ assistantId name inputs prompt, trace =>
    { trace with
      assistantId
      assistantName := name
      inputParameters := inputs
      promptMessages := prompt.or trace.promptMessages }
  | .chunk _ _ delta _, trace => { trace with output := trace.output.append delta }
  | .execute _ _ _ name phase timestamp, trace =>
    TaskTree.applyPhase phase timestamp
      { trace with
        assistantName := if trace.assistantName = "" then name.getD "" else trace.assistantName }
  | .usage _ _ u, trace => { trace with usage := TaskTree.addUsage trace.usage u }
  | .log _ _ message timestamp, trace =>
    { trace with logs := trace.logs ++ [{ message, timestamp }] }
  | _, trace => trace

end Event

namespace Trace

/-- A trace that knows the parent which an event names, unless it knew one before. -/
def adopt (parent : Option TaskId) (trace : Trace) : Trace :=
  { trace with parentTaskId := trace.parentTaskId.or parent }

def touch (trace : Trace) (e : Event) : Trace := e.change (trace.adopt e.parent?)

/-- The trace that an event finds when it is the first one of its task. -/
def fresh (id : TaskId) (deep : Nat) (e : Event) : Trace :=
  { taskId := id, assistantId := e.assistant, deep }

end Trace

namespace SubMessage

def append (s : SubMessage) (delta : ChunkDelta) : SubMessage :=
  { s with output := s.output.append delta }

def hear (s : SubMessage) : Event → SubMessage
  | .chunk _ _ delta _ => s.append delta
  | _ => s

/-- The sub-message that an event finds when it is the first output of its task. -/
def fresh (id : TaskId) (e : Event) : SubMessage := { taskId := id, assistantId := e.assistant }

end SubMessage

theorem TaskTree.taskId_applyPhase (phase : ExecutePhase) (timestamp : Option Timestamp)
    (trace : Trace) : (applyPhase phase timestamp trace).taskId = trace.taskId := by
  cases phase <;> rfl

theorem TaskTree.deep_applyPhase (phase : ExecutePhase) (timestamp : Option Timestamp)
    (trace : Trace) : (applyPhase phase timestamp trace).deep = trace.deep := by
  cases phase <;> rfl

theorem TaskTree.parentTaskId_applyPhase (phase : ExecutePhase) (timestamp : Option Timestamp)
    (trace : Trace) : (applyPhase phase timestamp trace).parentTaskId = trace.parentTaskId := by
  cases phase <;> rfl

theorem Event.taskId_change (e : Event) (trace : Trace) :
    (e.change trace).taskId = trace.taskId := by
  cases e with
  | execute => exact TaskTree.taskId_applyPhase _ _ _
  | _ => rfl

theorem Event.parentTaskId_change (e : Event) (trace : Trace) :
    (e.change trace).parentTaskId = trace.parentTaskId := by
  cases e with
  | execute => exact TaskTree.parentTaskId_applyPhase _ _ _
  | _ => rfl

theorem Trace.deep_touch (trace : Trace) (e : Event) : (trace.touch e).deep = trace.deep := by
  cases e with
  | execute => exact TaskTree.deep_applyPhase _ _ _
  | _ => rfl

namespace TaskTree

variable {t : TaskTree}

def depthUnder (t : TaskTree) (parent : Option TaskId) : Nat :=
  ((parent.bind t.trace?).map (·.deep + 1)).getD 0

theorem traces_updateTrace (t : TaskTree) (id : TaskId) (parent : Option TaskId)
    (assistantId : String) (change : Trace → Trace) :
    (t.updateTrace id parent assistantId change).traces =
      upsert Trace.taskId id (fun trace => change (trace.adopt parent))
        { taskId := id, assistantId, deep := t.depthUnder parent } t.traces := by
  unfold updateTrace upsert
  dsimp only
  split <;> rfl

/-- Changing a trace, or adding it, leaves every other trace as it is. -/
theorem trace?_updateTrace (id : TaskId) (parent : Option TaskId) (assistantId : String)
    {change : Trace → Trace} (hchange : ∀ trace, (change trace).taskId = trace.taskId)
    (other : TaskId) :
    (t.updateTrace id parent assistantId change).trace? other =
      if other = id then
        some (change (((t.trace? id).getD
          { taskId := id, assistantId, deep := t.depthUnder parent }).adopt parent))
      else t.trace? other := by
  rw [trace?, traces_updateTrace]
  refine find?_upsert ?_ ?_ t.traces other
  · intro trace
    exact hchange _
  · rfl

theorem traces_updateTrace_congr {t' : TaskTree} (h : t.traces = t'.traces) (id : TaskId)
    (parent : Option TaskId) (assistantId : String) (change : Trace → Trace) :
    (t.updateTrace id parent assistantId change).traces =
      (t'.updateTrace id parent assistantId change).traces := by
  have hdepth : t.depthUnder parent = t'.depthUnder parent := by
    unfold depthUnder trace?
    rw [h]
  rw [traces_updateTrace, traces_updateTrace, h, hdepth]

theorem updateTrace_eq (t : TaskTree) (id : TaskId) (parent : Option TaskId) (assistantId : String)
    (change : Trace → Trace) : t.updateTrace id parent assistantId change =
      { t with traces := (t.updateTrace id parent assistantId change).traces } := by
  unfold updateTrace
  dsimp only
  split <;> rfl

/-! ## What events do to a sub-message -/

theorem subMessages_appendSubMessage (t : TaskTree) (id : TaskId) (assistantId : String)
    (delta : ChunkDelta) : (t.appendSubMessage id assistantId delta).subMessages =
      upsert SubMessage.taskId id (·.append delta) { taskId := id, assistantId } t.subMessages := by
  unfold appendSubMessage upsert
  split <;> rfl

/-- Changing a sub-message, or adding it, leaves every other one as it is. -/
theorem subMessage?_appendSubMessage (id : TaskId) (assistantId : String) (delta : ChunkDelta)
    (other : TaskId) :
    (t.appendSubMessage id assistantId delta).subMessage? other =
      if other = id then
        some (((t.subMessage? id).getD { taskId := id, assistantId }).append delta)
      else t.subMessage? other := by
  rw [subMessage?, subMessages_appendSubMessage]
  refine find?_upsert ?_ ?_ t.subMessages other
  · intro s
    rfl
  · rfl

theorem appendSubMessage_eq (t : TaskTree) (id : TaskId) (assistantId : String)
    (delta : ChunkDelta) : t.appendSubMessage id assistantId delta =
      { t with subMessages := (t.appendSubMessage id assistantId delta).subMessages } := by
  unfold appendSubMessage
  split <;> rfl

end TaskTree

/-! ## One event -/

namespace Event

/-- The event changes the trace of a task: it belongs to the task, and is no output of the main
one. -/
def IsTraced (main : Option TaskId) (id : TaskId) (e : Event) : Prop :=
  e.taskId? = some id ∧ ¬ (e.speaker? = some id ∧ main = some id)

instance (main : Option TaskId) (id : TaskId) (e : Event) : Decidable (e.IsTraced main id) :=
  inferInstanceAs (Decidable (_ ∧ ¬ (_ ∧ _)))

def delta? : Event → Option ChunkDelta
  | .chunk _ _ delta _ => some delta
  | _ => none

def logged? : Event → Option LogEntry
  | .log _ _ message timestamp => some { message, timestamp }
  | _ => none

/-- The event is output of a task that does not keep silent. -/
def Says (id : TaskId) : Event → Prop
  | .chunk taskId _ _ respondAs => taskId = id ∧ respondAs ≠ some .none
  | _ => False

instance (id : TaskId) (e : Event) : Decidable (e.Says id) := by
  cases e <;> unfold Says <;> infer_instance

/-- The event changes the sub-message of a task: it is output of the task, which is not the main
one. -/
def IsVoiced (main : Option TaskId) (id : TaskId) (e : Event) : Prop := e.Says id ∧ main ≠ some id

instance (main : Option TaskId) (id : TaskId) (e : Event) : Decidable (e.IsVoiced main id) :=
  inferInstanceAs (Decidable (_ ∧ _))

/-- What the user wrote, if the event says so. -/
def parameter? : Event → Option String
  | .inputParameter content => some content
  | _ => none

def usage? : Event → Option Usage
  | .usage _ _ u => some u
  | _ => none

def error? : Event → Option ErrorReport
  | .error report => some report
  | _ => none

end Event

namespace TaskTree

variable {t : TaskTree}

theorem applyChunk_eq (t : TaskTree) (id : TaskId) (assistantId : String) (delta : ChunkDelta)
    (respondAs : Option RespondAs) : t.applyChunk id assistantId delta respondAs =
      { t with
        answer := if t.mainTaskId.getD id = id then t.answer.append delta else t.answer
        traces := (t.applyChunk id assistantId delta respondAs).traces
        subMessages := (t.applyChunk id assistantId delta respondAs).subMessages
        mainTaskId := some (t.mainTaskId.getD id) } := by
  unfold applyChunk
  dsimp only
  by_cases hmain : t.mainTaskId.getD id = id
  · rw [if_pos hmain, if_pos hmain]
  · rw [if_neg hmain, if_neg hmain, updateTrace_eq]
    by_cases hsilent : respondAs = some .none
    · rw [if_pos hsilent]
    · rw [if_neg hsilent, appendSubMessage_eq]

/-- What an event does to a tree, the tables apart: the first piece of output says which task is
the main one, and output of the main task goes to the answer. -/
theorem apply_eq (t : TaskTree) (e : Event) : t.apply e =
    { t with
      userContent := e.parameter?.getD t.userContent
      answer :=
        if t.mainTaskId.or e.speaker? = e.taskId? then e.delta?.elim t.answer t.answer.append
        else t.answer
      traces := (t.apply e).traces
      subMessages := (t.apply e).subMessages
      usage := e.usage?.elim t.usage (addUsage t.usage)
      error := e.error?.or t.error
      mainTaskId := t.mainTaskId.or e.speaker? } := by
  cases e with
  | chunk id assistantId delta respondAs =>
    have hmain : t.mainTaskId.or (some id) = some (t.mainTaskId.getD id) := by
      cases t.mainTaskId <;> rfl
    rw [apply, applyChunk_eq]
    simp only [Event.speaker?, Event.taskId?, Event.delta?, Event.parameter?, Event.usage?,
      Event.error?, hmain, Option.some.injEq, Option.elim, Option.getD_none, Option.none_or]
  | input | execute | usage | log =>
    rw [apply, updateTrace_eq]
    simp [Event.speaker?, Event.delta?, Event.parameter?, Event.usage?, Event.error?]
  | inputParameter | error | progress =>
    simp [apply, Event.speaker?, Event.delta?, Event.parameter?, Event.usage?, Event.error?]

/-- An event of a task changes the trace of the task, unless it is output of the main one. -/
theorem traces_apply {e : Event} {id : TaskId}
    (he : e.IsTraced (t.mainTaskId.or e.speaker?) id) :
    (t.apply e).traces = (t.updateTrace id e.parent? e.assistant e.change).traces := by
  obtain ⟨hid, hother⟩ := he
  cases e with
  | chunk taskId assistantId delta respondAs =>
    cases hid
    -- output that belongs to a trace is none of the main task, so it takes the second branch
    have hne : t.mainTaskId.getD id ≠ id := by
      intro hmain
      refine hother ⟨rfl, ?_⟩
      cases hm : t.mainTaskId with
      | none => rfl
      | some main => simpa [hm] using hmain
    show (t.applyChunk id assistantId delta respondAs).traces = _
    unfold applyChunk
    dsimp only
    rw [if_neg hne]
    refine traces_updateTrace_congr ?_ _ _ _ _
    split
    · rfl
    · rw [appendSubMessage_eq]
  | input | execute | usage | log =>
    cases hid
    rfl
  | inputParameter | error | progress => cases hid

theorem traces_apply_of_not_isTraced {e : Event}
    (he : ∀ id, ¬ e.IsTraced (t.mainTaskId.or e.speaker?) id) : (t.apply e).traces = t.traces := by
  cases e with
  | chunk taskId assistantId delta respondAs =>
    have hmain : t.mainTaskId.getD taskId = taskId := by
      by_contra hne
      refine he taskId ⟨rfl, ?_⟩
      rintro ⟨-, hmain⟩
      cases hm : t.mainTaskId with
      | none => simp [hm] at hne
      | some main => simp_all [Event.speaker?]
    show (t.applyChunk taskId assistantId delta respondAs).traces = _
    unfold applyChunk
    dsimp only
    rw [if_pos hmain]
  | input taskId | execute taskId | usage taskId | log taskId =>
    exact absurd ⟨rfl, by simp [Event.speaker?]⟩ (he taskId)
  | inputParameter | error | progress => rfl

theorem trace?_apply (t : TaskTree) (e : Event) (id : TaskId) : (t.apply e).trace? id =
    if e.IsTraced (t.mainTaskId.or e.speaker?) id then
      some (((t.trace? id).getD (.fresh id (t.depthUnder e.parent?) e)).touch e)
    else t.trace? id := by
  by_cases hsome : ∃ own, e.IsTraced (t.mainTaskId.or e.speaker?) own
  · obtain ⟨own, hown⟩ := hsome
    have htrace : (t.apply e).trace? id =
        (t.updateTrace own e.parent? e.assistant e.change).trace? id := by
      rw [trace?, trace?, traces_apply hown]
    rw [htrace, trace?_updateTrace own e.parent? e.assistant e.taskId_change id]
    by_cases hid : id = own
    · rw [hid, if_pos rfl, if_pos hown]
      rfl
    · rw [if_neg hid, if_neg]
      rintro ⟨hid', -⟩
      exact hid (Option.some.inj (hid'.symm.trans hown.1))
  · have hnone : ∀ own, ¬ e.IsTraced (t.mainTaskId.or e.speaker?) own :=
      fun own hown => hsome ⟨own, hown⟩
    rw [if_neg (hnone id), trace?, traces_apply_of_not_isTraced hnone]
    rfl

/-- Output of another task goes to its sub-message, unless the task keeps silent. -/
theorem subMessage?_apply (t : TaskTree) (e : Event) (id : TaskId) : (t.apply e).subMessage? id =
    if e.IsVoiced (t.mainTaskId.or e.speaker?) id then
      some (((t.subMessage? id).getD (.fresh id e)).hear e)
    else t.subMessage? id := by
  cases e with
  | chunk speaker assistantId delta respondAs =>
    have hmain : t.mainTaskId.or (some speaker) = some (t.mainTaskId.getD speaker) := by
      cases t.mainTaskId <;> rfl
    show (t.applyChunk speaker assistantId delta respondAs).subMessage? id =
      if (speaker = id ∧ respondAs ≠ some .none) ∧ t.mainTaskId.or (some speaker) ≠ some id then
        some (((t.subMessage? id).getD { taskId := id, assistantId }).append delta)
      else t.subMessage? id
    rw [hmain]
    unfold applyChunk
    dsimp only
    -- the main task has no sub-message, and a silent one adds nothing to its own
    by_cases hspeaker : t.mainTaskId.getD speaker = speaker
    · rw [if_pos hspeaker, if_neg]
      · rfl
      · rintro ⟨⟨rfl, -⟩, hother⟩
        exact hother (congrArg some hspeaker)
    · rw [if_neg hspeaker, subMessage?, updateTrace_eq]
      by_cases hsilent : respondAs = some .none
      · rw [if_pos hsilent, if_neg]
        · rfl
        · rintro ⟨⟨-, hloud⟩, -⟩
          exact hloud hsilent
      · rw [if_neg hsilent]
        refine (subMessage?_appendSubMessage speaker assistantId delta id).trans ?_
        by_cases hid : id = speaker
        · rw [hid, if_pos rfl, if_pos ⟨⟨rfl, hsilent⟩, fun h => hspeaker (Option.some.inj h)⟩]
          rfl
        · rw [if_neg hid, if_neg]
          · rfl
          · rintro ⟨⟨heq, -⟩, -⟩
            exact hid heq.symm
  | input | execute | usage | log =>
    rw [apply, updateTrace_eq, if_neg (fun h => h.1)]
    rfl
  | inputParameter | error | progress => exact (if_neg fun h => h.1).symm

end TaskTree

namespace TaskTree

/-- A task has one trace and one sub-message at most. -/
structure Keyed (t : TaskTree) : Prop where
  traces : (t.traces.map Trace.taskId).Nodup
  subMessages : (t.subMessages.map SubMessage.taskId).Nodup

variable {t : TaskTree}

theorem Keyed.updateTrace (h : t.Keyed) (id : TaskId) (parent : Option TaskId)
    (assistantId : String) {change : Trace → Trace}
    (hchange : ∀ trace, (change trace).taskId = trace.taskId) :
    (t.updateTrace id parent assistantId change).Keyed := by
  constructor
  · rw [traces_updateTrace]
    refine nodup_upsert ?_ ?_ h.traces
    · intro trace
      exact hchange _
    · rfl
  · rw [updateTrace_eq]
    exact h.subMessages

theorem Keyed.appendSubMessage (h : t.Keyed) (id : TaskId) (assistantId : String)
    (delta : ChunkDelta) : (t.appendSubMessage id assistantId delta).Keyed := by
  constructor
  · rw [appendSubMessage_eq]
    exact h.traces
  · rw [subMessages_appendSubMessage]
    refine nodup_upsert ?_ ?_ h.subMessages
    · intro s
      rfl
    · rfl

theorem Keyed.apply (h : t.Keyed) (e : Event) : (t.apply e).Keyed := by
  cases e with
  | chunk id assistantId delta respondAs =>
    show (t.applyChunk id assistantId delta respondAs).Keyed
    unfold applyChunk
    dsimp only
    have hmain : { t with mainTaskId := some (t.mainTaskId.getD id) }.Keyed :=
      ⟨h.traces, h.subMessages⟩
    split
    · exact ⟨h.traces, h.subMessages⟩
    · refine Keyed.updateTrace ?_ id none assistantId fun _ => rfl
      split
      · exact hmain
      · exact hmain.appendSubMessage id assistantId delta
  | input id parent assistantId name inputs prompt =>
    exact h.updateTrace id parent assistantId
      (Event.input id parent assistantId name inputs prompt).taskId_change
  | execute id parent assistantId name phase timestamp =>
    exact h.updateTrace id parent assistantId
      (Event.execute id parent assistantId name phase timestamp).taskId_change
  | usage id assistantId u =>
    obtain ⟨htraces, hsubMessages⟩ := h.updateTrace id none assistantId
      (Event.usage id assistantId u).taskId_change
    exact ⟨htraces, hsubMessages⟩
  | log id assistantId message timestamp =>
    exact h.updateTrace id none assistantId
      (Event.log id assistantId message timestamp).taskId_change
  | inputParameter | error | progress => exact ⟨h.traces, h.subMessages⟩

end TaskTree

/-! ## Many events -/

namespace Event

/-- The task that the first piece of output comes from. -/
def mainTask? (es : List Event) : Option TaskId := es.findSome? speaker?

theorem mainTask?_append (es : List Event) (e : Event) :
    mainTask? (es ++ [e]) = (mainTask? es).or e.speaker? := by
  rw [mainTask?, List.findSome?_append, mainTask?, List.findSome?_singleton]

section Select

variable {p : Option TaskId → Event → Prop} [∀ main e, Decidable (p main e)]

/-- What is selected by the main task among the events so far, is selected later on. -/
theorem filter_mainTask?_append (hp : ∀ main e, e.speaker? = none → (p main e ↔ p none e))
    (es : List Event) (e : Event) :
    ((es ++ [e]).filter fun e' => p (mainTask? (es ++ [e])) e') =
      (es.filter fun e' => p (mainTask? es) e') ++
        if p (mainTask? (es ++ [e])) e then [e] else [] := by
  rw [List.filter_append]
  congr 1
  · refine List.filter_congr fun e' he' => ?_
    rw [decide_eq_decide, mainTask?_append]
    cases hmain : mainTask? es with
    | some main => rfl
    | none =>
      -- no piece of output yet, so the main task does not matter
      have hsilent : e'.speaker? = none := List.findSome?_eq_none_iff.mp hmain e' he'
      exact hp _ e' hsilent
  · by_cases he : p (mainTask? (es ++ [e])) e
    · rw [if_pos he]
      exact List.filter_cons_of_pos (decide_eq_true he)
    · rw [if_neg he]
      exact List.filter_cons_of_neg (by simpa using he)

end Select

/-- The events that change the trace of a task. -/
def traced (id : TaskId) (es : List Event) : List Event :=
  es.filter fun e => e.IsTraced (mainTask? es) id

theorem traced_append (id : TaskId) (es : List Event) (e : Event) : traced id (es ++ [e]) =
    traced id es ++ if e.IsTraced (mainTask? (es ++ [e])) id then [e] else [] := by
  refine filter_mainTask?_append (p := fun main e => e.IsTraced main id) ?_ es e
  intro main e' he'
  simp [IsTraced, he']

/-- The events that change the sub-message of a task. -/
def voiced (id : TaskId) (es : List Event) : List Event :=
  es.filter fun e => e.IsVoiced (mainTask? es) id

theorem voiced_append (id : TaskId) (es : List Event) (e : Event) : voiced id (es ++ [e]) =
    voiced id es ++ if e.IsVoiced (mainTask? (es ++ [e])) id then [e] else [] := by
  refine filter_mainTask?_append (p := fun main e => e.IsVoiced main id) ?_ es e
  intro main e' he'
  cases e' with
  | chunk => cases he'
  | _ => simp [IsVoiced, Says]

end Event

namespace TaskTree

/-- Applies events in order, also after an ERROR. -/
def applyAll (t : TaskTree) (es : List Event) : TaskTree := es.foldl apply t

theorem applyAll_append (t : TaskTree) (es : List Event) (e : Event) :
    t.applyAll (es ++ [e]) = (t.applyAll es).apply e := by
  rw [applyAll, List.foldl_append]
  rfl

section New

variable (userId assistantId : String)

theorem mainTaskId_applyAll (es : List Event) :
    ((new userId assistantId).applyAll es).mainTaskId = Event.mainTask? es := by
  induction es using List.reverseRecOn with
  | nil => rfl
  | append_singleton es e ih => rw [applyAll_append, apply_eq, ih, Event.mainTask?_append]

theorem keyed_applyAll (es : List Event) : ((new userId assistantId).applyAll es).Keyed := by
  induction es using List.reverseRecOn with
  | nil => exact ⟨List.nodup_nil, List.nodup_nil⟩
  | append_singleton es e ih =>
    rw [applyAll_append]
    exact ih.apply e

/-- The events of a task make its trace, apart from the depth at which it was first seen. -/
theorem trace?_applyAll (es : List Event) (id : TaskId) :
    ∃ deep, ((new userId assistantId).applyAll es).trace? id =
      entryOf (Trace.fresh id deep) Trace.touch (Event.traced id es) := by
  induction es using List.reverseRecOn with
  | nil => exact ⟨0, rfl⟩
  | append_singleton es e ih =>
    obtain ⟨deep, ih⟩ := ih
    rw [applyAll_append, trace?_apply, mainTaskId_applyAll, ← Event.mainTask?_append,
      Event.traced_append, ih]
    by_cases he : e.IsTraced (Event.mainTask? (es ++ [e])) id
    · rw [if_pos he, if_pos he]
      -- the depth is settled by the first event, and stays
      by_cases hes : Event.traced id es = []
      · rw [hes]
        exact ⟨_, rfl⟩
      · have hsome : (entryOf (Trace.fresh id deep) Trace.touch (Event.traced id es)).isSome :=
          entryOf_isSome.mpr hes
        obtain ⟨trace, htrace⟩ := Option.isSome_iff_exists.mp hsome
        refine ⟨deep, ?_⟩
        rw [entryOf_append_singleton, htrace]
        rfl
    · rw [if_neg he, if_neg he, List.append_nil]
      exact ⟨deep, rfl⟩

/-- The output of a task other than the main one makes its sub-message. -/
theorem subMessage?_applyAll (es : List Event) (id : TaskId) :
    ((new userId assistantId).applyAll es).subMessage? id =
      entryOf (SubMessage.fresh id) SubMessage.hear (Event.voiced id es) := by
  induction es using List.reverseRecOn with
  | nil => rfl
  | append_singleton es e ih =>
    rw [applyAll_append, subMessage?_apply, mainTaskId_applyAll, ← Event.mainTask?_append,
      Event.voiced_append, ih]
    by_cases he : e.IsVoiced (Event.mainTask? (es ++ [e])) id
    · rw [if_pos he, if_pos he, entryOf_append_singleton]
    · rw [if_neg he, if_neg he, List.append_nil]

end New

end TaskTree

end Agents
