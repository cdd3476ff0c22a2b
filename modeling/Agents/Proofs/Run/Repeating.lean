import Agents.Proofs.Run.Nesting
import Agents.Proofs.Run.Serving
import Agents.Proofs.Run.Snapshots

/-! # Text that a caller repeats

A script may have the text of an agent that it runs repeated as text of its own task. Which task is
the agent's is learnt from the events alone: the first INPUT that names the caller as its parent.

- Whoever watches events hands each of them on, and beside it what is said by the task of that first
  INPUT (`ChildWatch.observeAll_first`).
- A run of a child begins with this INPUT, however far it comes. So every event of the run is
  followed by a CHUNK of the caller if it is a CHUNK of the child itself with a text in it, and by
  nothing otherwise (`passAll_repeatText_block`).
- Tasks below the child have ids of their own, so nothing of theirs is repeated
  (`ScriptedLogic.attempt_repeats`).
-/

namespace Agents

open Activity Script

/-! ## Watching -/

namespace ChildWatch

variable {me child : TaskId} {event : Event}

/-- Every event is handed on once, in order. -/
theorem map_fst_observeAll (w : ChildWatch) (es : List Event) :
    (w.observeAll es).map Prod.fst = es := by
  induction es generalizing w with
  | nil => rfl
  | cons event rest ih => rw [observeAll_cons, List.map_cons, ih]

theorem observe_begins (h : event.BeginsChild me child) :
    observe { watcher := me } event = ({ watcher := me, child := some child }, none) := by
  cases event with
  | input taskId parentTaskId _ _ _ _ =>
    obtain ⟨rfl, rfl⟩ := h
    exact if_pos rfl
  | _ => cases h

theorem observe_other (h : ∀ child, ¬ event.BeginsChild me child) :
    observe { watcher := me } event = ({ watcher := me }, none) := by
  cases event with
  | input taskId parentTaskId _ _ _ _ =>
    cases parentTaskId with
    | none => rfl
    | some parent => exact if_neg fun heq => h taskId ⟨rfl, congrArg some heq⟩
  | _ => rfl

theorem observeAll_others {before : List Event}
    (h : ∀ event ∈ before, ∀ child, ¬ event.BeginsChild me child) (after : List Event) :
    observeAll { watcher := me } (before ++ after) =
      before.map (·, none) ++ observeAll { watcher := me } after := by
  induction before with
  | nil => rfl
  | cons event before ih =>
    obtain ⟨hevent, hbefore⟩ := List.forall_mem_cons.mp h
    rw [List.cons_append, observeAll_cons, observe_other hevent, ih hbefore]
    rfl

theorem observeAll_begins (h : event.BeginsChild me child) (after : List Event) :
    observeAll { watcher := me } (event :: after) =
      (event, none) :: after.map fun event => (event, event.content? child) := by
  rw [observeAll_cons, observe_begins h, observeAll_known rfl]

/-- What is handed on is what the task of the first INPUT that names the watcher says after it. -/
theorem observeAll_first {before : List Event}
    (hbefore : ∀ event ∈ before, ∀ child, ¬ event.BeginsChild me child)
    (h : event.BeginsChild me child) (after : List Event) :
    observeAll { watcher := me } (before ++ event :: after) =
      before.map (·, none) ++ (event, none) ::
        after.map fun event => (event, event.content? child) := by
  rw [observeAll_others hbefore, observeAll_begins h]

end ChildWatch

/-! ## Repeating -/

/-- What a task says after an event, if it repeats the text of `child`. -/
def TaskEmitter.repeats (emitter : TaskEmitter) (child : TaskId) (event : Event) : List Event :=
  match event.content? child with
  | some text =>
    if text = "" then []
    else [.chunk emitter.taskId emitter.assistantId (.ofText text) emitter.respondAs]
  | none => []

section Repeating

variable {emitter : TaskEmitter} {child : TaskId}

theorem TaskEmitter.repeats_eq (hmuted : emitter.muted = false) (child : TaskId) (event : Event) :
    ((event.content? child).map emitter.text).getD [] = emitter.repeats child event := by
  unfold repeats
  cases event.content? child with
  | none => rfl
  | some said =>
    have hchunk : emitter.chunk (.ofText said) =
        [.chunk emitter.taskId emitter.assistantId (.ofText said) emitter.respondAs] :=
      emit_of_not_muted hmuted _
    show emitter.text said = if said = "" then [] else [_]
    rw [TaskEmitter.text, hchunk]

theorem passAll_repeatText (hmuted : emitter.muted = false) (w : ChildWatch) (es : List Event) :
    (passAll (ScriptedLogic.repeatText emitter) w es).1 =
      (w.observeAll es).flatMap fun (event, said) => event :: (said.map emitter.text).getD [] := by
  induction es generalizing w with
  | nil => rfl
  | cons event rest ih =>
    have hstep : (ScriptedLogic.repeatText emitter w event).1 =
        event :: ((w.observe event).2.map emitter.text).getD [] := by
      show emitter.emit event ++ _ = _
      rw [TaskEmitter.emit_of_not_muted hmuted]
      rfl
    rw [ChildWatch.observeAll_cons, List.flatMap_cons, ← ih]
    exact congrArg (· ++ _) hstep

/-- Events that begin with the INPUT of a child are followed by what the child says in them. -/
theorem passAll_repeatText_begins (hmuted : emitter.muted = false) {event : Event}
    (h : event.BeginsChild emitter.taskId child) (after : List Event) :
    (passAll (ScriptedLogic.repeatText emitter) { watcher := emitter.taskId } (event :: after)).1 =
      (event :: after).flatMap fun event => event :: emitter.repeats child event := by
  have hnothing : emitter.repeats child event = [] := by
    cases event with
    | input => rfl
    | _ => cases h
  rw [passAll_repeatText hmuted, ChildWatch.observeAll_begins h, List.flatMap_cons,
    List.flatMap_cons, hnothing, List.flatMap_map]
  simp only [TaskEmitter.repeats_eq hmuted]
  rfl

theorem passAll_repeatText_block (hmuted : emitter.muted = false) {r : TaskRun}
    (hparent : r.parent = some emitter.taskId) {said inner : List Event}
    (hsaid : said <+: r.block inner) :
    (passAll (ScriptedLogic.repeatText emitter) { watcher := emitter.taskId } said).1 =
      said.flatMap fun event => event :: emitter.repeats r.id event := by
  cases said with
  | nil => rfl
  | cons event after =>
    obtain ⟨rfl, -⟩ := List.cons_prefix_cons.mp hsaid
    have hbegins : r.inputEvent.BeginsChild emitter.taskId r.id := ⟨rfl, hparent⟩
    exact passAll_repeatText_begins hmuted hbegins after

theorem textsOf_repeats (emitter : TaskEmitter) (child : TaskId) (event : Event) :
    textsOf emitter.taskId (emitter.repeats child event) =
      (event.content? child).toList.filter (· ≠ "") := by
  unfold TaskEmitter.repeats
  cases event.content? child with
  | none => rfl
  | some text =>
    by_cases htext : text = ""
    · simp [htext, textsOf]
    · simp [htext, textsOf, Event.content?, ChunkDelta.ofText]

/-- The caller says what the child says, but for empty texts, if nothing else is of its task. -/
theorem textsOf_flatMap_repeats {said : List Event} (hfree : Free emitter.taskId said) :
    textsOf emitter.taskId (said.flatMap fun event => event :: emitter.repeats child event) =
      (textsOf child said).filter (· ≠ "") := by
  induction said with
  | nil => rfl
  | cons event rest ih =>
    obtain ⟨hevent, hrest⟩ := List.forall_mem_cons.mp hfree
    have hsilent : event.content? emitter.taskId = none := Event.content?_of_taskId? hevent
    have hown := textsOf_repeats emitter child event
    unfold textsOf at ih hown ⊢
    rw [List.flatMap_cons, List.cons_append, List.filterMap_cons_none hsilent,
      List.filterMap_append, hown, ih hrest, List.filterMap_cons]
    cases event.content? child with
    | none => rfl
    | some text =>
      by_cases htext : text = ""
      · simp [htext]
      · simp [htext]

end Repeating

/-! ## A child that is run -/

/-- The events of a child are of itself and of the tasks that its work begins, as far as it came. -/
theorem SeenOf.owned {r : TaskRun} {log : List Exchange} {es : List Event} {whole : Prop}
    (h : SeenOf r log es whole) : Owned (r.id :: mintedIds r.log) es := by
  intro event hevent id hid
  have hblock : event ∈ r.block r.events := h.begun.subset hevent
  simp only [TaskRun.block, List.mem_cons, List.mem_append, List.not_mem_nil, or_false] at hblock
  rcases hblock with rfl | rfl | hinner | rfl
  · cases hid
    exact List.mem_cons_self
  · cases hid
    exact List.mem_cons_self
  · exact (h.nested event hinner).taskId_mem hid
  · cases hid
    exact List.mem_cons_self

namespace ScriptedLogic

variable {t : TaskContext} {emitter : TaskEmitter} {agent : String} {inputs : Json}
  {log : List Exchange} {es : List Event}

theorem runAgent_repeating (t : TaskContext) (emitter : TaskEmitter) (agent : String)
    (inputs : Json) : runAgent t emitter agent inputs true =
      ((liftM ((t.runChild agent inputs).run.through (repeatText emitter)
        { watcher := emitter.taskId }) : Fallible (Except Error Json × ChildWatch)) >>=
      fun found => MonadExcept.ofExcept found.1) := bind_map_left _ _ _

/-- A script that has an agent's text repeated gets what the agent's run gives. -/
theorem runs_runAgent {r : Except Error Json}
    (h : Runs (runAgent t emitter agent inputs true).run log es r) :
    ∃ said, Runs (t.runChild agent inputs).run log said r ∧
      es = (passAll (repeatText emitter) { watcher := emitter.taskId } said).1 := by
  rw [runAgent_repeating] at h
  obtain ⟨_, _, ⟨_, watch⟩, _, _, rfl, rfl, hthrough, hret⟩ := runs_liftThen.mp h
  obtain ⟨rfl, rfl, rfl⟩ := runs_ofExcept.mp hret
  obtain ⟨said, hruns, hpass⟩ := runs_through hthrough
  rw [List.append_nil, List.append_nil]
  exact ⟨said, hruns, by rw [hpass]⟩

theorem advances_runAgent {left : Activity (Except Error Json)}
    (h : Advances (runAgent t emitter agent inputs true).run log es left) :
    ∃ said left', Advances (t.runChild agent inputs).run log said left' ∧
      es <+: (passAll (repeatText emitter) { watcher := emitter.taskId } said).1 := by
  rw [runAgent_repeating, run_liftThen] at h
  rcases advances_bind h with
    ⟨left', hthrough, _⟩ | ⟨_, _, ⟨result, watch⟩, _, _, rfl, rfl, hruns, hret⟩
  · exact advances_through hthrough
  · obtain ⟨said, hchild, hpass⟩ := runs_through hruns
    obtain ⟨rfl, rfl⟩ := advances_ofExcept hret
    rw [List.append_nil, List.append_nil]
    exact ⟨said, _, runs_iff_advances.mp hchild, hpass ▸ List.prefix_refl _⟩

section Child

variable {overlap : Overlap} {e : Engine} {depth : Nat} {identity : Identity} {d : Definition}
  {options : RunOptions} {id : TaskId}

/-- What is seen of an agent that is run with its text repeated, as far as it came. -/
theorem repeats_of_advances {left : Activity (Except Error Json)}
    (ht : t = e.taskContextWith overlap.process depth identity d options id)
    (h : Advances (runAgent t t.emitter agent inputs true).run log es left) :
    ∃ said left', Advances (t.runChild agent inputs).run log said left' ∧
      (said = [] ∧ es = [] ∨
        ∃ child : TaskRun, child.parent = some id ∧ said <+: child.block child.events ∧
          es <+: said.flatMap fun event => event :: t.emitter.repeats child.id event) := by
  subst ht
  obtain ⟨said, left', hchild, hes⟩ := advances_runAgent h
  refine ⟨said, left', hchild, ?_⟩
  rcases Engine.advances_childRun depth hchild with rfl | ⟨child, hparent, hseen⟩
  · exact .inl ⟨rfl, List.prefix_nil.mp hes⟩
  · rw [passAll_repeatText_block rfl hparent hseen.begun] at hes
    exact .inr ⟨child, hparent, hseen.begun, hes⟩

theorem repeats_of_runs {r : Except Error Json}
    (ht : t = e.taskContextWith overlap.process depth identity d options id)
    (h : Runs (runAgent t t.emitter agent inputs true).run log es r) :
    ∃ said, Runs (t.runChild agent inputs).run log said r ∧
      (said = [] ∧ es = [] ∨
        ∃ child : TaskRun, child.parent = some id ∧ said = child.block child.events ∧
          es = said.flatMap (fun event => event :: t.emitter.repeats child.id event) ∧
          Owned (child.id :: mintedIds child.log) said ∧
          mintedIds log = child.id :: mintedIds child.log) := by
  subst ht
  obtain ⟨said, hchild, hes⟩ := runs_runAgent h
  refine ⟨said, hchild, ?_⟩
  rcases Engine.advances_childRun depth (runs_iff_advances.mp hchild) with
    rfl | ⟨child, hparent, hseen⟩
  · exact .inl ⟨rfl, hes⟩
  · rw [passAll_repeatText_block rfl hparent hseen.begun] at hes
    exact .inr ⟨child, hparent, hseen.ended (finished_done r), hes, hseen.owned, hseen.minted⟩

/-- Nothing is repeated of a task below the child. -/
theorem repeats_of_other {child other : TaskId} {event : Event} (hother : other ≠ child)
    (h : event.taskId? = some other) : emitter.repeats child event = [] := by
  have hsilent : event.content? child = none := by
    refine Event.content?_of_taskId? ?_
    rw [h]
    exact fun heq => hother (Option.some.inj heq)
  rw [TaskEmitter.repeats, hsilent]

/-- Where the caller, the child and the tasks below it have ids of their own, nothing is repeated of
those below, and the caller says what the child says. -/
theorem repeats_of_fresh {child : TaskRun} {said : List Event}
    (howned : Owned (child.id :: mintedIds child.log) said)
    (hfresh : (emitter.taskId :: child.id :: mintedIds child.log).Nodup) :
    (∀ event ∈ said, ∀ other ∈ mintedIds child.log, event.taskId? = some other →
      emitter.repeats child.id event = []) ∧
    textsOf emitter.taskId (said.flatMap fun event => event :: emitter.repeats child.id event) =
      (textsOf child.id said).filter (· ≠ "") := by
  obtain ⟨hcaller, hrest⟩ := List.nodup_cons.mp hfresh
  obtain ⟨hchild, -⟩ := List.nodup_cons.mp hrest
  constructor
  · intro event _ other hother htask
    apply repeats_of_other _ htask
    rintro rfl
    exact hchild hother
  · exact textsOf_flatMap_repeats (howned.free hcaller)

/-- In the first attempt of a script, a call that runs an agent with its text repeated reports all
that the agent's run reports, in order, and after every text of the child itself the same text of
its own task. Of tasks below the child nothing is repeated. -/
theorem attempt_repeats {spec : ScriptSpec} {r : Except Error Json}
    (ht : t = e.taskContextWith overlap.process depth identity d options id)
    (h : Runs (attempt t spec inputs 1).run log es r) :
    (∃ calls outcome drained, (script t spec inputs).Talks (answer t t.emitter) calls outcome ∧
      log = calls.flatMap ServedCall.log ∧ es = calls.flatMap ServedCall.events ++ drained ∧
      ∀ c ∈ calls, ∀ agent x, c.request.val = .runAgent agent x true →
        ∃ said, Runs (t.runChild agent x).run c.log said c.answer ∧
          (said = [] ∧ c.events = [] ∨
            ∃ child : TaskRun, child.parent = some id ∧ said = child.block child.events ∧
              c.events = said.flatMap (fun event => event :: t.emitter.repeats child.id event) ∧
              Owned (child.id :: mintedIds child.log) said ∧
              ((id :: mintedIds log).Nodup →
                (∀ event ∈ said, ∀ other ∈ mintedIds child.log, event.taskId? = some other →
                  t.emitter.repeats child.id event = []) ∧
                textsOf id c.events = (textsOf child.id said).filter (· ≠ "")))) ∧
    (∀ agent x log es left,
      Advances (answer t t.emitter (.runAgent agent x true)).run log es left →
      ∃ said left', Advances (t.runChild agent x).run log said left' ∧
        (said = [] ∧ es = [] ∨
          ∃ child : TaskRun, child.parent = some id ∧ said <+: child.block child.events ∧
            es <+: said.flatMap fun event => event :: t.emitter.repeats child.id event)) ∧
    (∀ agent x options, Value.Members.get? "relay" options = some (.bool true) →
      HostCall.ofFunction? "run_agent" [.string agent, x, .object options] =
        some (.runAgent agent x.toPlainJson true)) ∧
    ∀ me : TaskId,
      (∀ es, (ChildWatch.observeAll { watcher := me } es).map Prod.fst = es) ∧
      (∀ es, (∀ event ∈ es, ∀ child, ¬ event.BeginsChild me child) →
        ChildWatch.observeAll { watcher := me } es = es.map (·, none)) ∧
      ∀ before input after child, (∀ event ∈ before, ∀ child, ¬ event.BeginsChild me child) →
        input.BeginsChild me child →
        ChildWatch.observeAll { watcher := me } (before ++ input :: after) =
          before.map (·, none) ++ (input, none) ::
            after.map fun event => (event, event.content? child) := by
  refine ⟨?_, fun agent x log es left hcall => repeats_of_advances ht hcall, ?_, fun me =>
    ⟨ChildWatch.map_fst_observeAll _, fun es hes => ?_,
      fun before input after child hbefore hinput =>
        ChildWatch.observeAll_first hbefore hinput after⟩⟩
  · obtain ⟨calls, outcome, drained, htalks, hlog, hes⟩ := attempt_serves h
    refine ⟨calls, outcome, drained, htalks, hlog, hes, fun c hc agent x hrequest => ?_⟩
    have hran : Runs (answer t t.emitter c.request.val).run c.log c.events c.answer :=
      htalks.ran c hc
    rw [hrequest] at hran
    obtain ⟨said, hchild, hnone | ⟨child, hparent, hsaid, hevents, howned, hminted⟩⟩ :=
      repeats_of_runs ht hran
    · exact ⟨said, hchild, .inl hnone⟩
    refine ⟨said, hchild, .inr ⟨child, hparent, hsaid, hevents, howned, fun hfresh => ?_⟩⟩
    have hpart : c.log.Sublist log := by
      rw [hlog]
      exact List.sublist_flatten_of_mem (List.mem_map_of_mem hc)
    have hids : (id :: child.id :: mintedIds child.log).Nodup := by
      rw [← hminted]
      exact hfresh.sublist ((hpart.filterMap _).cons_cons id)
    have hemitter : t.emitter.taskId = id := by
      rw [ht]
      rfl
    rw [hevents, ← hemitter]
    rw [← hemitter] at hids
    exact repeats_of_fresh howned hids
  · intro agent x options hrelay
    simp [HostCall.ofFunction?, hrelay]
  · have hall := ChildWatch.observeAll_others hes []
    rwa [List.append_nil, show ChildWatch.observeAll { watcher := me } [] = [] from rfl,
      List.append_nil] at hall

end Child

/-! ## A story that is read aloud -/

def recital : ScriptSpec where
  source := "run_agent(\"narrator\", #\x7b\x7d, #\x7brelay: true\x7d); #\x7b\x7d"

def reciterTask : TaskContext :=
  press.taskContextWith Overlap.inOrder.process 1 (.inProject "press" "reciter")
    { id := "reciter", name := "Reciter", kind := .scriptedLogic recital } {} "reciter"

/-- The narrator says two words, and the reciter says each of them after it. -/
theorem attempt_repeats_recital : ∃ log es outputs,
    Runs (attempt reciterTask recital .null 1).run log es (.ok outputs) ∧
    es.map Event.typeName = ["INPUT", "EXECUTE", "CHUNK", "CHUNK", "CHUNK", "CHUNK", "EXECUTE"] ∧
    textsOf "reciter" es = ["Once ", "upon"] ∧
    ∃ calls outcome drained,
      (script reciterTask recital .null).Talks (answer reciterTask reciterTask.emitter) calls
        outcome ∧ es = calls.flatMap ServedCall.events ++ drained := by
  have hseen : (tellingServices.observe (attempt reciterTask recital .null 1).run none 0).map
      (fun seen => (seen.result.toOption.isSome, seen.events.map Event.typeName,
        textsOf "reciter" seen.events)) =
      some (true, ["INPUT", "EXECUTE", "CHUNK", "CHUNK", "CHUNK", "CHUNK", "EXECUTE"],
        ["Once ", "upon"]) := by
    decide +kernel
  obtain ⟨⟨result, es, cache⟩, hobserved, hmatch⟩ := Option.map_eq_some_iff.mp hseen
  obtain ⟨hok, hmatch⟩ := Prod.mk.inj hmatch
  obtain ⟨hnames, htexts⟩ := Prod.mk.inj hmatch
  obtain ⟨log, hruns, -⟩ := Services.runs_of_observe hobserved
  cases result with
  | error failure => cases hok
  | ok outputs =>
    obtain ⟨⟨calls, outcome, drained, htalks, _, hes, _⟩, _⟩ :=
      attempt_repeats rfl hruns
    exact ⟨log, es, outputs, hruns, hnames, htexts, calls, outcome, drained, htalks, hes⟩

end ScriptedLogic

end Agents
