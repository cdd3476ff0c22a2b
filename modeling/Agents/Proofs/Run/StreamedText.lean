import Agents.Proofs.Run.Draining
import Mathlib.Algebra.Order.BigOperators.Group.List
import Mathlib.Algebra.Order.Group.Nat

/-! # Which streams are read as texts

A stream that is the value of a streamed output is a text, which is heard while it is read; every
other stream becomes an array. The output is told by the pointer to the stream: it has to be a
slash and the name of the output.

In a pointer `/` and `~` are escaped, and in the name of an output they are not. So the pointer
tells the output right if no streamed output has one of them in its name (`PlainNames`), and only
then: a name with one of them is not found at its own place, but at another one (`plainNames_iff`).
With such names every stream of a result is read as what it is declared to be
(`readStreams_classified`).
-/

namespace Agents

open Script

/-- What was sent for the stream at a place. -/
def Script.Outcome.given (o : Outcome) (path : List String) : Stream Json :=
  itemsOf (chunksFor (Json.Pointer.ofTokens path) o.relay)

namespace ScriptedLogic

/-! ## Streamed outputs -/

def DeclaredText (d : Definition) (path : List String) : Prop :=
  ∃ o ∈ d.outputs, o.streamingText ∧ path = [o.name]

instance (d : Definition) (path : List String) : Decidable (DeclaredText d path) :=
  inferInstanceAs (Decidable (∃ o ∈ d.outputs, o.streamingText ∧ path = [o.name]))

/-- No name of a streamed output has a character that is escaped. -/
def PlainNames (d : Definition) : Prop :=
  ∀ o ∈ d.outputs, o.streamingText → Json.Pointer.Plain o.name.toList

theorem readsText_iff {d : Definition} {path : List String} :
    readsText d path = true ↔ ∃ o ∈ d.outputs, o.streamingText ∧
      (Json.Pointer.ofTokens path).toList = '/' :: o.name.toList := by
  have htext (o : OutputDecl) : Json.Pointer.ofTokens path = "/" ++ o.name ↔
      (Json.Pointer.ofTokens path).toList = '/' :: o.name.toList := by
    rw [← String.toList_inj, String.toList_append]
    rfl
  rw [readsText, isNarrative_iff]
  simp only [htext]

theorem toList_ofTokens_singleton (token : String) :
    (Json.Pointer.ofTokens [token]).toList = '/' :: Json.Pointer.escape token.toList := by
  rw [Json.Pointer.toList_ofTokens_cons]
  exact congrArg _ (List.append_nil _)

/-- The pointer with a plain name after its slash leads to the member of that name, and no other
one does. -/
theorem toList_ofTokens_eq_iff {name : String} (h : Json.Pointer.Plain name.toList)
    {path : List String} :
    (Json.Pointer.ofTokens path).toList = '/' :: name.toList ↔ path = [name] := by
  constructor
  · intro heq
    match path with
    | [] => cases heq
    | [token] =>
      rw [toList_ofTokens_singleton] at heq
      have hname := List.tail_eq_of_cons_eq heq
      rcases Json.Pointer.escape_cases token.toList with ⟨-, hsame⟩ | ⟨-, hmem, -⟩
      · rw [String.toList_inj.mp (hsame.symm.trans hname)]
      · exact (h.2 (hname ▸ hmem)).elim
    | token :: next :: rest =>
      rw [Json.Pointer.toList_ofTokens_cons, Json.Pointer.toList_ofTokens_cons] at heq
      have hname := List.tail_eq_of_cons_eq heq
      refine (h.1 (hname ▸ ?_)).elim
      exact List.mem_append_right _ List.mem_cons_self
  · rintro rfl
    rw [toList_ofTokens_singleton]
    rcases Json.Pointer.escape_cases name.toList with ⟨-, hsame⟩ | ⟨hother, -, -⟩
    · rw [hsame]
    · exact (hother h).elim

theorem readsText_eq {d : Definition} (h : PlainNames d) :
    readsText d = fun path => decide (DeclaredText d path) := by
  funext path
  refine Bool.eq_iff_iff.mpr (readsText_iff.trans (Iff.trans ?_ decide_eq_true_iff.symm))
  refine exists_congr fun o => and_congr_right fun ho => and_congr_right fun hstreamed => ?_
  exact toList_ofTokens_eq_iff (h o ho hstreamed)

/-- Where streamed outputs are told right, a name that is not plain would need a longer one. -/
theorem exists_longer {d : Definition}
    (h : ∀ path, readsText d path = true ↔ DeclaredText d path) {o : OutputDecl}
    (ho : o ∈ d.outputs) (hstreamed : o.streamingText)
    (hname : ¬ Json.Pointer.Plain o.name.toList) :
    ∃ o' ∈ d.outputs, o'.streamingText ∧ ¬ Json.Pointer.Plain o'.name.toList ∧
      o.name.toList.length < o'.name.toList.length := by
  obtain ⟨o', ho', hstreamed', heq⟩ := readsText_iff.mp ((h [o.name]).mpr ⟨o, ho, hstreamed, rfl⟩)
  rw [toList_ofTokens_singleton] at heq
  rcases Json.Pointer.escape_cases o.name.toList with ⟨hplain, -⟩ | ⟨-, hmem, hlt⟩
  · exact (hname hplain).elim
  · rw [List.tail_eq_of_cons_eq heq] at hmem hlt
    exact ⟨o', ho', hstreamed', fun hplain => hplain.2 hmem, hlt⟩

/-- Streamed outputs are told right exactly if their names are plain. -/
theorem plainNames_iff {d : Definition} :
    PlainNames d ↔ ∀ path, readsText d path = true ↔ DeclaredText d path := by
  constructor
  · intro h path
    rw [readsText_eq h]
    exact decide_eq_true_iff
  · intro h o ho hstreamed
    by_contra hname
    -- there would be names of every length
    have hlong (n : Nat) : ∃ o ∈ d.outputs, o.streamingText ∧ ¬ Json.Pointer.Plain o.name.toList ∧
        n ≤ o.name.toList.length := by
      induction n with
      | zero => exact ⟨o, ho, hstreamed, hname, Nat.zero_le _⟩
      | succ n ih =>
        obtain ⟨o, ho, hstreamed, hname, hn⟩ := ih
        obtain ⟨o', ho', hstreamed', hname', hlt⟩ := exists_longer h ho hstreamed hname
        exact ⟨o', ho', hstreamed', hname', by omega⟩
    obtain ⟨o, ho, -, -, hlt⟩ := hlong ((d.outputs.map (·.name.toList.length)).sum + 1)
    have hmem : o.name.toList.length ∈ d.outputs.map (·.name.toList.length) :=
      List.mem_map.mpr ⟨o, ho, rfl⟩
    have hle := List.le_sum_of_mem hmem
    omega

/-! ## Reading -/

/-- What is made of the values of a stream that is a text or not. -/
def gather (text : Bool) (values : List Json) : Json :=
  if text then .str (String.join (values.map Json.valueText)) else .arr values

/-- All streams of a result are read, each as the kind that its pointer tells. -/
theorem readStreams_toJson (t : TaskContext) (attempt : Nat) {v : Value} (hsound : v.Sound)
    (hplain : v.Unmarked) {o : Outcome} (hvalue : o.value = v.toJson []) :
    (readStreams t attempt o.value { channel := o.relay } (streamPaths o.value)).run =
      Activity.reporting
        (heardAll t attempt (readsText t.definition) (fun path _ => o.given path) (v.streams []))
        (.done (match (v.streams []).findSome? fun x => failureOf (o.given x.1) with
          | some e => .error e
          | none => .ok (v.fill (fun path _ =>
              gather (readsText t.definition path) (o.given path).received) []))) := by
  rw [hvalue, Value.streamPaths_toJson hplain, Value.toJson_eq_fill]
  refine readStreams_run t attempt hsound (fun path _ => o.given path)
    (fun path _ => gather (readsText t.definition path) (o.given path).received)
    (List.Sublist.refl _) (fun x _ values hcollect => ?_) (fun x hx hmem => absurd hx hmem)
    fun x _ => rfl
  rw [Stream.received_of_collect hcollect]
  rfl

/-- The names of the streamed outputs are plain exactly if the pointer to a place tells whether it
is that of a streamed output. Then every stream of a result is read, as a text if it stands at a
streamed output and as an array otherwise. In a map it stands there exactly if it is the value of
that key itself. In a result in which no map looks like a mark each stream is replaced by what was
sent for it, and only the texts are heard, unless a stream fails. -/
theorem readStreams_classified (t : TaskContext) :
    (PlainNames t.definition ↔ ∀ path,
      isNarrative t.definition (Json.Pointer.ofTokens path) = true ↔
        DeclaredText t.definition path) ∧
    (PlainNames t.definition → ∀ (l : SandboxLimits) (v : Value) (s : State),
      ∃ o, Outcome.ofEnd l (.ok v, s) = .ok o ∧
        (∀ members, v = .object members → ∀ k id,
          ([k], id) ∈ v.streams [] ↔ (k, .stream id) ∈ members) ∧
        (∀ x ∈ v.streams [], Json.Pointer.ofTokens x.1 ∈ streamPaths o.value ∧
          ∀ attempt items, (readStream t attempt (Json.Pointer.ofTokens x.1) items).run =
            Activity.reporting (heard t attempt (DeclaredText t.definition x.1) items)
              (.done (items.collect.map (gather (DeclaredText t.definition x.1))))) ∧
        (v.Sound → v.Unmarked → ∀ attempt,
          (readStreams t attempt o.value { channel := o.relay } (streamPaths o.value)).run =
            Activity.reporting
              (heardAll t attempt (fun path => DeclaredText t.definition path)
                (fun path _ => o.given path) (v.streams []))
              (.done (match (v.streams []).findSome? fun x => failureOf (o.given x.1) with
                | some e => .error e
                | none => .ok (v.fill (fun path _ =>
                    gather (DeclaredText t.definition path) (o.given path).received) []))))) := by
  refine ⟨plainNames_iff, fun hnames l v s =>
    ⟨_, rfl, fun members hv k id => ?_, fun x hx => ?_, fun hsound hplain => ?_⟩⟩
  · rw [hv]
    exact Value.mem_streams_object
  · refine ⟨Value.mem_streamPaths hx, fun attempt items => ?_⟩
    have hkind := congrFun (readsText_eq hnames) x.1
    rw [← hkind]
    exact readStream_run t attempt (Json.Pointer.ofTokens x.1) items
  · intro attempt
    have hrun (o : Outcome) (hvalue : o.value = v.toJson []) :=
      readStreams_toJson t attempt hsound hplain hvalue
    simp only [readsText_eq hnames] at hrun
    exact hrun _ rfl

theorem readStreams_classified_letters : PlainNames tellerTask.definition ∧ letters.Sound ∧
    letters.Unmarked ∧ ∃ o, Outcome.ofEnd {} (.ok letters, lettersState) = .ok o ∧
      (readStreams tellerTask 1 o.value { channel := o.relay } (streamPaths o.value)).run =
        Activity.reporting (tellerTask.emitter.text "once " ++ tellerTask.emitter.text "upon")
          (.done (.ok told)) := by
  have hnames : PlainNames tellerTask.definition := by
    intro o ho _
    obtain rfl := List.mem_singleton.mp ho
    exact ⟨by decide, by decide⟩
  obtain ⟨o, hend, -, -, hread⟩ :=
    (readStreams_classified tellerTask).2 hnames {} letters lettersState
  refine ⟨hnames, sound_letters, unmarked_letters, o, hend, ?_⟩
  rw [hread sound_letters unmarked_letters 1]
  cases hend
  rfl

/-! ## A name with a slash -/

/-- A task that streams a part of its book, by a name with a slash. -/
def bookTask : TaskContext :=
  { tellerTask with definition :=
    { tellerTask.definition with
      outputs := [{ name := "a/b", type := .string, streamingText := true }] } }

/-- A result with a stream by that name, and one two deep whose pointer spells it. -/
def chapters : Value := .object [("a", .object [("b", .stream 1)]), ("a/b", .stream 0)]

def chaptersState : State := { streams := #[[.data "upon", .data "once "], [.data "end"]] }

theorem sound_chapters : chapters.Sound := by
  have hinner : (Value.object [("b", .stream 1)]).Sound :=
    .intro (List.pairwise_singleton _ _) (List.forall_mem_singleton.mpr (Value.sound_stream 1))
  have hkeys : ["a", "a/b"].Pairwise (· < ·) := by decide
  refine .intro (List.pairwise_map.mp hkeys) ?_
  exact List.forall_mem_cons.mpr ⟨hinner, List.forall_mem_singleton.mpr (Value.sound_stream 0)⟩

theorem unmarked_chapters : chapters.Unmarked := by
  have hinner : (Value.object [("b", .stream 1)]).Unmarked :=
    .intro (by simp [streamKey]) (List.forall_mem_singleton.mpr (Value.unmarked_stream 1))
  refine .intro (by simp [chapters]) ?_
  exact List.forall_mem_cons.mpr ⟨hinner, List.forall_mem_singleton.mpr (Value.unmarked_stream 0)⟩

/-- The stream of the streamed output becomes an array, and the other one is heard as a text. -/
theorem slash_misleads : DeclaredText bookTask.definition ["a/b"] ∧
    ¬ DeclaredText bookTask.definition ["a", "b"] ∧
    ∃ o, Outcome.ofEnd {} (.ok chapters, chaptersState) = .ok o ∧
      (readStreams bookTask 1 o.value { channel := o.relay } (streamPaths o.value)).run =
        Activity.reporting (bookTask.emitter.text "end")
          (.done (.ok (.obj [("a", .obj [("b", "end")]), ("a/b", .arr ["once ", "upon"])]))) := by
  refine ⟨by decide, by decide, _, rfl, ?_⟩
  exact (readStreams_toJson bookTask 1 sound_chapters unmarked_chapters rfl).trans rfl

end ScriptedLogic

end Agents
