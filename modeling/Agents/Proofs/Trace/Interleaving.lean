import Agents.Proofs.Trace.Projection
import Mathlib.Data.List.Perm.Basic

/-! # Interleavings of the same tasks

Tasks that run at the same time report their events in some order. As long as every task is
introduced by its INPUT, and after its parent, the order between tasks shows nowhere but in the
order of the tables.

The traces and sub-messages of one task are made of its own events, so the only thing to show about
them is that a task is seen at the same depth (`depth?_le`): its depth is one more than that of the
parent which its first event names, whatever else came in between.
-/

namespace Agents

namespace Event

/-! ## Tasks in order -/

/-- Every task is introduced by an INPUT, which comes after its parent, if that appears at all. -/
def Introduced (es : List Event) : Prop :=
  ∀ i : Fin es.length, ∀ id ∈ es[i].taskId?, (∀ e ∈ es.take i, e.taskId? ≠ some id) →
    es[i].typeName = "INPUT" ∧ ∀ parent ∈ es[i].parent?,
      (∃ e ∈ es, e.taskId? = some parent) → ∃ e ∈ es.take i, e.taskId? = some parent

instance : DecidablePred Introduced := fun _ => Nat.decidableForallFin _

theorem Introduced.first {before after : List Event} {e : Event} {id : TaskId}
    (h : Introduced (before ++ e :: after)) (hid : e.taskId? = some id)
    (hbefore : ∀ e' ∈ before, e'.taskId? ≠ some id) : e.typeName = "INPUT" ∧
      ∀ parent, e.parent? = some parent → (∃ e' ∈ before ++ e :: after, e'.taskId? = some parent) →
        ∃ e' ∈ before, e'.taskId? = some parent := by
  have hlength : before.length < (before ++ e :: after).length := by simp
  have hget : (before ++ e :: after)[before.length] = e := by simp
  have htake : (before ++ e :: after).take before.length = before := by simp
  have hi := h ⟨before.length, hlength⟩ id
  simp only [Fin.getElem_fin, hget, htake] at hi
  exact hi hid hbefore

/-- What comes later does not matter for how the tasks before were introduced. -/
theorem Introduced.of_append {es fs : List Event} (h : Introduced (es ++ fs)) : Introduced es := by
  intro i id hid hbefore
  have hlength : i.1 < (es ++ fs).length := by
    rw [List.length_append]
    omega
  have hget : (es ++ fs)[i.1] = es[i.1] := List.getElem_append_left i.2
  have htake : (es ++ fs).take i.1 = es.take i.1 := List.take_append_of_le_length (Nat.le_of_lt i.2)
  have hi := h ⟨i.1, hlength⟩ id
  simp only [Fin.getElem_fin, hget, htake] at hi
  obtain ⟨hinput, hparents⟩ := hi hid hbefore
  refine ⟨hinput, fun parent hparent hsome => hparents parent hparent ?_⟩
  obtain ⟨e, he, hid'⟩ := hsome
  exact ⟨e, List.mem_append_left fs he, hid'⟩

/-- The two sequences differ in the order between tasks alone. -/
structure Reorders (es fs : List Event) : Prop where
  tasks : ∀ id, ofTask id es = ofTask id fs
  parameters : es.filterMap parameter? = fs.filterMap parameter?
  main : mainTask? es = mainTask? fs

theorem Reorders.symm {es fs : List Event} (h : Reorders es fs) : Reorders fs es :=
  ⟨fun id => (h.tasks id).symm, h.parameters.symm, h.main.symm⟩

theorem Reorders.appears {es fs : List Event} (h : Reorders es fs) {id : TaskId}
    (hes : ∃ e ∈ es, e.taskId? = some id) : ∃ e ∈ fs, e.taskId? = some id := by
  obtain ⟨e, he, hid⟩ := hes
  have hmem : e ∈ ofTask id es := List.mem_filter.mpr ⟨he, decide_eq_true hid⟩
  rw [h.tasks id] at hmem
  exact ⟨e, List.mem_of_mem_filter hmem, hid⟩

theorem speaker?_of_typeName {e : Event} (h : e.typeName = "INPUT") : e.speaker? = none := by
  cases e with
  | chunk => simp [typeName] at h
  | _ => rfl

def first? (id : TaskId) (es : List Event) : Option Event := es.find? fun e => e.taskId? = some id

theorem first?_eq_head? (id : TaskId) (es : List Event) : first? id es = (ofTask id es).head? := by
  rw [ofTask, List.head?_filter]
  rfl

theorem Reorders.first? {es fs : List Event} (h : Reorders es fs) (id : TaskId) :
    Event.first? id es = Event.first? id fs := by
  rw [first?_eq_head?, first?_eq_head?, h.tasks id]

theorem split_of_first? {id : TaskId} {es : List Event} {e : Event} (h : first? id es = some e) :
    e.taskId? = some id ∧ ∃ before after, es = before ++ e :: after ∧
      ∀ e' ∈ before, e'.taskId? ≠ some id := by
  obtain ⟨hid, before, after, hes, hbefore⟩ := List.find?_eq_some_iff_append.mp h
  refine ⟨of_decide_eq_true hid, before, after, hes, ?_⟩
  intro e' he'
  simpa using hbefore e' he'

theorem exists_first? {id : TaskId} {es : List Event} (h : ∃ e ∈ es, e.taskId? = some id) :
    ∃ e, first? id es = some e := by
  rw [← Option.isSome_iff_exists, first?, List.find?_isSome]
  simpa using h

end Event

namespace TaskTree

/-! ## Depths -/

def depth? (t : TaskTree) (id : TaskId) : Option Nat := (t.trace? id).map Trace.deep

variable {t : TaskTree}

theorem depthUnder_eq (t : TaskTree) (parent : Option TaskId) :
    t.depthUnder parent = ((parent.bind t.depth?).map (· + 1)).getD 0 := by
  cases parent with
  | none => rfl
  | some parent =>
    rw [depthUnder, Option.bind_some, Option.bind_some, depth?, Option.map_map]
    rfl

theorem depth?_applyAll {id : TaskId} {deep : Nat} (h : t.depth? id = some deep)
    (es : List Event) : (t.applyAll es).depth? id = some deep := by
  induction es using List.reverseRecOn with
  | nil => exact h
  | append_singleton es e ih =>
    obtain ⟨trace, htrace, hdeep⟩ := Option.map_eq_some_iff.mp ih
    rw [applyAll_append, depth?, trace?_apply, htrace]
    split
    · rw [Option.getD_some, Option.map_some, Trace.deep_touch, hdeep]
    · rw [Option.map_some, hdeep]

section New

variable {userId assistantId : String} {es fs : List Event} {id : TaskId} {e : Event}

theorem taskId?_of_depth? {deep : Nat}
    (h : ((new userId assistantId).applyAll es).depth? id = some deep) :
    ∃ e ∈ es, e.taskId? = some id := by
  obtain ⟨trace, htrace, -⟩ := Option.map_eq_some_iff.mp h
  have hmem : id ∈ ((new userId assistantId).applyAll es).traces.map Trace.taskId := by
    rw [mem_map_key_iff]
    exact Option.isSome_iff_exists.mpr ⟨trace, htrace⟩
  obtain ⟨e, he, htraced⟩ := (mem_traces_applyAll userId assistantId es id).mp hmem
  exact ⟨e, he, htraced.1⟩

theorem depth?_of_not_appears (h : ¬ ∃ e ∈ es, e.taskId? = some id) :
    ((new userId assistantId).applyAll es).depth? id = none := by
  by_contra hsome
  obtain ⟨deep, hdeep⟩ := Option.ne_none_iff_exists'.mp hsome
  exact h (taskId?_of_depth? hdeep)

/-- A task is one deeper than the parent which its first event names, if that was seen before. -/
theorem depth?_of_split {before after : List Event} (he : e.taskId? = some id)
    (hinput : e.typeName = "INPUT") (hbefore : ∀ e' ∈ before, e'.taskId? ≠ some id) :
    ((new userId assistantId).applyAll (before ++ e :: after)).depth? id =
      some (((new userId assistantId).applyAll before).depthUnder e.parent?) := by
  rw [List.append_cons, applyAll, List.foldl_append]
  refine depth?_applyAll ?_ after
  have hsilent := Event.speaker?_of_typeName hinput
  have htraced : e.IsTraced
      (((new userId assistantId).applyAll before).mainTaskId.or e.speaker?) id := by
    refine ⟨he, ?_⟩
    rintro ⟨hspeaker, -⟩
    rw [hsilent] at hspeaker
    cases hspeaker
  have hnone : ((new userId assistantId).applyAll before).trace? id = none := by
    refine Option.map_eq_none_iff.mp (depth?_of_not_appears ?_)
    rintro ⟨e', he', hid⟩
    exact hbefore e' he' hid
  show ((new userId assistantId).applyAll (before ++ [e])).depth? id = _
  rw [applyAll_append, depth?, trace?_apply, if_pos htraced, hnone, Option.getD_none,
    Option.map_some, Trace.deep_touch, Trace.fresh]

theorem exists_depth? (userId assistantId : String) (hes : Event.Introduced es)
    (h : ∃ e ∈ es, e.taskId? = some id) :
    ∃ deep, ((new userId assistantId).applyAll es).depth? id = some deep := by
  obtain ⟨e, hfirst⟩ := Event.exists_first? h
  obtain ⟨hid, before, after, hsplit, hbefore⟩ := Event.split_of_first? hfirst
  subst hsplit
  exact ⟨_, depth?_of_split hid (hes.first hid hbefore).1 hbefore⟩

/-- In the end, a task is one deeper than the parent which its first event names, if that appears at
all. -/
theorem depth?_of_first? (hes : Event.Introduced es) (hfirst : Event.first? id es = some e) :
    ((new userId assistantId).applyAll es).depth? id =
      some (((new userId assistantId).applyAll es).depthUnder e.parent?) := by
  obtain ⟨hid, before, after, hsplit, hbefore⟩ := Event.split_of_first? hfirst
  subst hsplit
  obtain ⟨hinput, hparents⟩ := hes.first hid hbefore
  rw [depth?_of_split hid hinput hbefore, depthUnder_eq, depthUnder_eq]
  cases hparent : e.parent? with
  | none => rfl
  | some parent =>
    have hsame : ((new userId assistantId).applyAll before).depth? parent =
        ((new userId assistantId).applyAll (before ++ e :: after)).depth? parent := by
      by_cases happears : ∃ e' ∈ before ++ e :: after, e'.taskId? = some parent
      · obtain ⟨deep, hdeep⟩ := exists_depth? userId assistantId hes.of_append
          (hparents parent hparent happears)
        have hlater := depth?_applyAll hdeep (e :: after)
        rw [hdeep, applyAll, List.foldl_append]
        exact hlater.symm
      · have hbefore' : ¬ ∃ e' ∈ before, e'.taskId? = some parent := by
          rintro ⟨e', he', hid'⟩
          exact happears ⟨e', List.mem_append_left _ he', hid'⟩
        rw [depth?_of_not_appears hbefore', depth?_of_not_appears happears]
    rw [Option.bind_some, Option.bind_some, hsame]

theorem depth?_le (hes : Event.Introduced es) (hfs : Event.Introduced fs)
    (h : Event.Reorders es fs) {deep : Nat}
    (hdeep : ((new userId assistantId).applyAll es).depth? id = some deep) :
    ((new userId assistantId).applyAll fs).depth? id = some deep := by
  -- by the depth: the parent, if it was seen at all, stands one higher
  induction deep using Nat.strongRecOn generalizing id with
  | ind deep ih =>
    obtain ⟨e, hfirst⟩ := Event.exists_first? (taskId?_of_depth? hdeep)
    have hfirst' : Event.first? id fs = some e := (h.first? id).symm.trans hfirst
    rw [depth?_of_first? hes hfirst, depthUnder_eq] at hdeep
    rw [depth?_of_first? hfs hfirst', depthUnder_eq, ← hdeep]
    cases hparent : e.parent? with
    | none => rfl
    | some parent =>
      rw [hparent, Option.bind_some] at hdeep
      rw [Option.bind_some, Option.bind_some]
      cases hes' : ((new userId assistantId).applyAll es).depth? parent with
      | some above =>
        rw [hes'] at hdeep
        cases hdeep
        rw [ih above (Nat.lt_succ_self above) hes']
      | none =>
        -- a parent that does not appear in one order does not appear in the other
        have hnot : ¬ ∃ e' ∈ fs, e'.taskId? = some parent := by
          intro happears
          obtain ⟨above, habove⟩ := exists_depth? userId assistantId hes (h.symm.appears happears)
          rw [hes'] at habove
          cases habove
        rw [depth?_of_not_appears hnot]

theorem depth?_eq (hes : Event.Introduced es) (hfs : Event.Introduced fs)
    (h : Event.Reorders es fs) (id : TaskId) :
    ((new userId assistantId).applyAll es).depth? id =
      ((new userId assistantId).applyAll fs).depth? id := by
  apply Option.ext
  intro deep
  exact ⟨depth?_le hes hfs h, depth?_le hfs hes h.symm⟩

end New

/-! ## Two orders -/

/-- Trees that differ in the order of their tables alone. -/
structure SameUpToOrder (t t' : TaskTree) : Prop where
  trace : ∀ id, t.trace? id = t'.trace? id
  subMessage : ∀ id, t.subMessage? id = t'.subMessage? id
  traces : t.traces.Perm t'.traces
  subMessages : t.subMessages.Perm t'.subMessages
  rest : { t with traces := [], subMessages := [] } = { t' with traces := [], subMessages := [] }

end TaskTree

namespace Event

theorem taskId?_of_says {id : TaskId} {e : Event} (h : e.Says id) : e.taskId? = some id := by
  cases e with
  | chunk => exact congrArg some h.1
  | _ => exact h.elim

/-- What is selected of the events of one task, is selected of all events. -/
theorem filter_eq_ofTask {p : Event → Prop} [DecidablePred p] {id : TaskId}
    (hp : ∀ e, p e → e.taskId? = some id) (es : List Event) :
    (es.filter fun e => p e) = (ofTask id es).filter fun e => p e := by
  rw [ofTask, List.filter_filter]
  refine List.filter_congr fun e _ => ?_
  by_cases h : p e
  · simp [h, hp e h]
  · simp [h]

namespace Reorders

variable {es fs : List Event} (h : Reorders es fs)
include h

theorem traced (id : TaskId) : Event.traced id es = Event.traced id fs := by
  unfold Event.traced
  rw [filter_eq_ofTask (fun e he => he.1) es, filter_eq_ofTask (fun e he => he.1) fs, h.tasks id,
    h.main]

theorem voiced (id : TaskId) : Event.voiced id es = Event.voiced id fs := by
  unfold Event.voiced
  rw [filter_eq_ofTask (fun e he => taskId?_of_says he.1) es,
    filter_eq_ofTask (fun e he => taskId?_of_says he.1) fs, h.tasks id, h.main]

theorem deltasOf (id : TaskId) : Event.deltasOf id es = Event.deltasOf id fs := by
  rw [Event.deltasOf, Event.deltasOf, h.tasks id]

/-- The two orders are made of the same events, as far as these belong to a task. -/
theorem perm :
    (es.filter fun e => e.taskId?.isSome).Perm (fs.filter fun e => e.taskId?.isSome) := by
  classical
  rw [List.perm_iff_count]
  intro e
  cases hid : e.taskId? with
  | none =>
    have hnone : ∀ gs : List Event, (gs.filter fun e => e.taskId?.isSome).count e = 0 := by
      intro gs
      rw [List.count_eq_zero]
      intro hmem
      have hsome := List.of_mem_filter hmem
      rw [hid] at hsome
      cases hsome
    rw [hnone es, hnone fs]
  | some id =>
    have hcount : ∀ gs : List Event,
        (gs.filter fun e => e.taskId?.isSome).count e = (ofTask id gs).count e := by
      intro gs
      rw [ofTask, List.count_filter (by simp [hid]), List.count_filter (by simp [hid])]
    rw [hcount es, hcount fs, h.tasks id]

theorem usages : (es.filterMap usage?).Perm (fs.filterMap usage?) := by
  have howned : ∀ gs : List Event,
      gs.filterMap usage? = (gs.filter fun e => e.taskId?.isSome).filterMap usage? := by
    intro gs
    rw [List.filterMap_filter]
    refine List.filterMap_congr fun e _ => ?_
    cases e with
    | usage => rfl
    | _ => simp [usage?]
  rw [howned es, howned fs]
  exact h.perm.filterMap usage?

end Reorders

end Event

theorem Usage.addCount_right_comm (a b c : Nat) :
    addCount (addCount a b) c = addCount (addCount a c) b := by
  unfold addCount
  rw [Nat.mod_add_mod, Nat.mod_add_mod, Nat.add_right_comm]

theorem Usage.add_right_comm (a b c : Usage) : a + b + c = a + c + b := by
  show Usage.mk _ _ _ = Usage.mk _ _ _
  rw [Usage.mk.injEq]
  exact ⟨addCount_right_comm _ _ _, addCount_right_comm _ _ _, addCount_right_comm _ _ _⟩

namespace TaskTree

instance : RightCommutative addUsage where
  right_comm _ a b := congrArg some (Usage.add_right_comm _ a b)

theorem usage_applyAll (t : TaskTree) (es : List Event) :
    (t.applyAll es).usage = (es.filterMap Event.usage?).foldl addUsage t.usage := by
  induction es using List.reverseRecOn with
  | nil => rfl
  | append_singleton es e ih =>
    rw [applyAll_append, apply_eq]
    dsimp only
    rw [ih, List.filterMap_append, List.foldl_append]
    cases husage : e.usage? <;> simp [husage]

theorem fixed_applyAll (t : TaskTree) {es : List Event} (hes : ∀ e ∈ es, e.error? = none) :
    (t.applyAll es).userId = t.userId ∧ (t.applyAll es).assistantId = t.assistantId ∧
      (t.applyAll es).error = t.error ∧ (t.applyAll es).cancelled = t.cancelled := by
  induction es using List.reverseRecOn with
  | nil => exact ⟨rfl, rfl, rfl, rfl⟩
  | append_singleton es e ih =>
    have herror : e.error? = none := hes e (by simp)
    rw [applyAll_append, apply_eq, herror]
    exact ih fun e' he' => hes e' (List.mem_append_left _ he')

theorem reduceAll_eq_applyAll {t : TaskTree} (h : t.isFrozen = false) {es : List Event}
    (hes : ∀ e ∈ es, e.error? = none) : t.reduceAll es = t.applyAll es := by
  induction es using List.reverseRecOn with
  | nil => rfl
  | append_singleton es e ih =>
    have hes' : ∀ e' ∈ es, e'.error? = none := fun e' he' => hes e' (List.mem_append_left _ he')
    obtain ⟨-, -, herror, hcancelled⟩ := fixed_applyAll t hes'
    have hlive : ¬ (t.applyAll es).isFrozen = true := by
      rw [isFrozen, herror, hcancelled]
      simpa [isFrozen] using h
    rw [reduceAll_append, ih hes', applyAll_append]
    exact if_neg hlive

section New

variable {userId assistantId : String} {es fs : List Event}

theorem deep_eq_of_trace? {id : TaskId} {deep : Nat} {trace : Trace}
    (hentry : ((new userId assistantId).applyAll es).trace? id =
      entryOf (Trace.fresh id deep) Trace.touch (Event.traced id es))
    (h : ((new userId assistantId).applyAll es).trace? id = some trace) : trace.deep = deep := by
  refine view_of_entryOf Trace.deep (fun _ => deep) (fun _ => rfl) ?_ (hentry.symm.trans h)
  intro entry e _ hdeep
  rw [Trace.deep_touch, hdeep]

/-- The events of a task, and its depth, make its trace. -/
theorem trace?_eq_of_depth? {id : TaskId} (htraced : Event.traced id es = Event.traced id fs)
    (hdepth : ((new userId assistantId).applyAll es).depth? id =
      ((new userId assistantId).applyAll fs).depth? id) :
    ((new userId assistantId).applyAll es).trace? id =
      ((new userId assistantId).applyAll fs).trace? id := by
  obtain ⟨deep, hentry⟩ := trace?_applyAll userId assistantId es id
  obtain ⟨deep', hentry'⟩ := trace?_applyAll userId assistantId fs id
  cases htrace : ((new userId assistantId).applyAll es).trace? id with
  | none =>
    rw [depth?, htrace, Option.map_none] at hdepth
    exact (Option.map_eq_none_iff.mp hdepth.symm).symm
  | some trace =>
    rw [depth?, htrace, Option.map_some] at hdepth
    obtain ⟨trace', htrace', hdeep⟩ := Option.map_eq_some_iff.mp hdepth.symm
    have hsame : deep = deep' :=
      calc deep = trace.deep := (deep_eq_of_trace? hentry htrace).symm
        _ = trace'.deep := hdeep.symm
        _ = deep' := deep_eq_of_trace? hentry' htrace'
    rw [← htrace, hentry, hentry', htraced, hsame]

/-- The order between tasks does not show, apart from the order of the tables: tasks that are
introduced in order have the same traces and sub-messages, and the rest of the tree is the same. -/
theorem reduceAll_reorders (hes : ∀ e ∈ es, e.error? = none) (hfs : ∀ e ∈ fs, e.error? = none)
    (hes' : Event.Introduced es) (hfs' : Event.Introduced fs) (h : Event.Reorders es fs) :
    SameUpToOrder ((new userId assistantId).reduceAll es)
      ((new userId assistantId).reduceAll fs) := by
  rw [reduceAll_eq_applyAll rfl hes, reduceAll_eq_applyAll rfl hfs]
  have htrace : ∀ id, ((new userId assistantId).applyAll es).trace? id =
      ((new userId assistantId).applyAll fs).trace? id :=
    fun id => trace?_eq_of_depth? (h.traced id) (depth?_eq hes' hfs' h id)
  have hsubMessage : ∀ id, ((new userId assistantId).applyAll es).subMessage? id =
      ((new userId assistantId).applyAll fs).subMessage? id := by
    intro id
    rw [subMessage?_applyAll, subMessage?_applyAll, h.voiced id]
  obtain ⟨htraces, hsubMessages⟩ := keyed_applyAll userId assistantId es
  obtain ⟨htraces', hsubMessages'⟩ := keyed_applyAll userId assistantId fs
  constructor
  · exact htrace
  · exact hsubMessage
  · exact perm_of_find?_key htraces htraces' htrace
  · exact perm_of_find?_key hsubMessages hsubMessages' hsubMessage
  · obtain ⟨huser, hassistant, herror, hcancelled⟩ := fixed_applyAll (new userId assistantId) hes
    obtain ⟨huser', hassistant', herror', hcancelled'⟩ :=
      fixed_applyAll (new userId assistantId) hfs
    have hanswer : ((new userId assistantId).applyAll es).answer =
        ((new userId assistantId).applyAll fs).answer := by
      rw [answer_applyAll, answer_applyAll, h.main]
      cases Event.mainTask? fs with
      | none => rfl
      | some main => rw [Option.elim_some, Option.elim_some, h.deltasOf main]
    have hcontent : ((new userId assistantId).applyAll es).userContent =
        ((new userId assistantId).applyAll fs).userContent := by
      rw [userContent_applyAll, userContent_applyAll, Event.lastParameter?, Event.lastParameter?,
        h.parameters]
    have husage : ((new userId assistantId).applyAll es).usage =
        ((new userId assistantId).applyAll fs).usage := by
      rw [usage_applyAll, usage_applyAll]
      exact h.usages.foldl_eq _
    have hmain : ((new userId assistantId).applyAll es).mainTaskId =
        ((new userId assistantId).applyAll fs).mainTaskId := by
      rw [mainTaskId_applyAll, mainTaskId_applyAll, h.main]
    rw [huser, hassistant, herror, hcancelled, huser', hassistant', herror', hcancelled', hanswer,
      hcontent, husage, hmain]

end New

/-- A painter and a poet, who work for the same task, one after the other. -/
def inTurn : List Event :=
  [.inputParameter "a river", .input "main" none "studio" "Studio" .null none,
    .chunk "main" "studio" (.ofText "Two views: ") none,
    .input "left" (some "main") "painter" "Painter" .null none,
    .chunk "left" "painter" (.ofImages ["river.png"]) none,
    .usage "left" "painter" ⟨3, 4, 7⟩,
    .input "right" (some "main") "poet" "Poet" .null none,
    .chunk "right" "poet" (.ofText "it flows") (some .none),
    .log "right" "poet" "done" default,
    .usage "right" "poet" ⟨5, 1, 6⟩]

/-- The same two at the same time. -/
def atOnce : List Event :=
  [.input "main" none "studio" "Studio" .null none,
    .input "right" (some "main") "poet" "Poet" .null none,
    .input "left" (some "main") "painter" "Painter" .null none,
    .chunk "main" "studio" (.ofText "Two views: ") none,
    .chunk "right" "poet" (.ofText "it flows") (some .none),
    .inputParameter "a river",
    .log "right" "poet" "done" default,
    .chunk "left" "painter" (.ofImages ["river.png"]) none,
    .usage "right" "poet" ⟨5, 1, 6⟩,
    .usage "left" "painter" ⟨3, 4, 7⟩]

theorem reorders_atOnce : Event.Reorders inTurn atOnce where
  tasks id := by
    by_cases hmain : "main" = id
    · subst hmain
      rfl
    · by_cases hleft : "left" = id
      · subst hleft
        rfl
      · by_cases hright : "right" = id
        · subst hright
          rfl
        · simp [Event.ofTask, inTurn, atOnce, Event.taskId?, hmain, hleft, hright]
  parameters := rfl
  main := rfl

theorem reduceAll_reorders_atOnce :
    (∀ e ∈ inTurn, e.error? = none) ∧ (∀ e ∈ atOnce, e.error? = none) ∧
      Event.Introduced inTurn ∧ Event.Introduced atOnce ∧ Event.Reorders inTurn atOnce ∧
      SameUpToOrder ((new "user" "assistant").reduceAll inTurn)
        ((new "user" "assistant").reduceAll atOnce) := by
  have hinTurn : ∀ e ∈ inTurn, e.error? = none := by simp [inTurn, Event.error?]
  have hatOnce : ∀ e ∈ atOnce, e.error? = none := by simp [atOnce, Event.error?]
  have hinTurn' : Event.Introduced inTurn := by decide
  have hatOnce' : Event.Introduced atOnce := by decide
  exact ⟨hinTurn, hatOnce, hinTurn', hatOnce', reorders_atOnce,
    reduceAll_reorders hinTurn hatOnce hinTurn' hatOnce' reorders_atOnce⟩

end TaskTree

end Agents
