import Agents.Proofs.Trace.Tables
import Agents.Word

/-! # Depths

Events may name any parents: unknown ones, later ones, or each other in a circle. The depth of a
trace is settled when the trace is made, and the parent it was taken from stays. So a trace that is
not at the top names a parent that stands before it and one higher (`Layered`), whatever the other
parents are.

`traces_apply_cases` says all that an event can do to the traces; `reduceAll_layered` is the whole
statement.
-/

namespace Agents

namespace Trace

/-! ## What stays of a trace -/

/-- A trace at two times: what an event never changes. -/
structure Keeps (old new : Trace) : Prop where
  taskId : new.taskId = old.taskId
  deep : new.deep = old.deep
  parent : ∀ parent, old.parentTaskId = some parent → new.parentTaskId = some parent

theorem Keeps.refl (trace : Trace) : trace.Keeps trace := ⟨rfl, rfl, fun _ h => h⟩

theorem Keeps.trans {first second third : Trace} (h : first.Keeps second)
    (h' : second.Keeps third) : first.Keeps third where
  taskId := h'.taskId.trans h.taskId
  deep := h'.deep.trans h.deep
  parent parent hparent := h'.parent parent (h.parent parent hparent)

theorem keeps_touch (trace : Trace) (e : Event) : trace.Keeps (trace.touch e) where
  taskId := e.taskId_change _
  deep := trace.deep_touch e
  parent parent hparent := by
    rw [touch, e.parentTaskId_change, adopt, hparent]
    rfl

end Trace

namespace TaskTree

variable {t t' : TaskTree}

theorem exists_of_depthUnder {parent : Option TaskId} {d : Nat} (h : t.depthUnder parent = d + 1) :
    ∃ above ∈ t.traces, parent = some above.taskId ∧ above.deep = d := by
  cases parent with
  | none => cases h
  | some id =>
    rw [depthUnder, Option.bind_some] at h
    cases hfound : t.trace? id with
    | none =>
      rw [hfound] at h
      cases h
    | some above =>
      rw [hfound] at h
      have hid : above.taskId = id := by simpa using List.find?_some hfound
      exact ⟨above, List.mem_of_find?_eq_some hfound, congrArg some hid.symm, Nat.succ.inj h⟩

/-- An event changes traces without touching what stays, or adds a trace one below the parent that
it names. -/
theorem traces_apply_cases (t : TaskTree) (e : Event) :
    (∃ change : Trace → Trace, (∀ trace : Trace, trace.Keeps (change trace)) ∧
      (t.apply e).traces = t.traces.map change) ∨
    ∃ trace : Trace, (t.apply e).traces = t.traces ++ [trace] ∧ trace.parentTaskId = e.parent? ∧
      trace.deep = t.depthUnder e.parent? := by
  by_cases htraced : ∃ id, e.IsTraced (t.mainTaskId.or e.speaker?) id
  · obtain ⟨id, htraced⟩ := htraced
    rw [traces_apply htraced, traces_updateTrace, upsert]
    split
    · refine .inl ⟨fun trace => if trace.taskId = id then trace.touch e else trace, ?_, rfl⟩
      intro trace
      dsimp only
      split
      · exact trace.keeps_touch e
      · exact .refl trace
    · exact .inr ⟨_, rfl, e.parentTaskId_change _, Trace.deep_touch _ e⟩
  · refine .inl ⟨id, .refl, ?_⟩
    rw [List.map_id]
    exact traces_apply_of_not_isTraced fun id hid => htraced ⟨id, hid⟩

/-! ## Positions -/

/-- A tree at two times: each trace stands where it stood. -/
def Extends (t t' : TaskTree) : Prop :=
  ∀ (i : Nat) (trace : Trace), t.traces[i]? = some trace →
    ∃ trace', t'.traces[i]? = some trace' ∧ trace.Keeps trace'

theorem Extends.refl (t : TaskTree) : t.Extends t := fun _ trace h => ⟨trace, h, .refl trace⟩

theorem Extends.trans {t'' : TaskTree} (h : t.Extends t') (h' : t'.Extends t'') :
    t.Extends t'' := by
  intro i trace htrace
  obtain ⟨trace', htrace', hkeeps⟩ := h i trace htrace
  obtain ⟨trace'', htrace'', hkeeps'⟩ := h' i trace' htrace'
  exact ⟨trace'', htrace'', hkeeps.trans hkeeps'⟩

theorem extends_apply (t : TaskTree) (e : Event) : t.Extends (t.apply e) := by
  intro i trace htrace
  rcases t.traces_apply_cases e with ⟨change, hkeeps, htraces⟩ | ⟨fresh, htraces, -⟩
  · refine ⟨change trace, ?_, hkeeps trace⟩
    rw [htraces, List.getElem?_map, htrace]
    rfl
  · refine ⟨trace, ?_, .refl trace⟩
    rw [htraces, List.getElem?_append_left (List.getElem?_eq_some_iff.mp htrace).1, htrace]

/-- A trace after an event stood there before, or is new and one below the parent that the event
names. -/
theorem origin_of_apply {e : Event} {i : Nat} {trace : Trace}
    (h : (t.apply e).traces[i]? = some trace) :
    (∃ old, t.traces[i]? = some old ∧ old.Keeps trace) ∨
    (t.traces.length ≤ i ∧ trace.parentTaskId = e.parent? ∧
      trace.deep = t.depthUnder e.parent?) := by
  rcases t.traces_apply_cases e with ⟨change, hkeeps, htraces⟩ | ⟨fresh, htraces, hparent, hfresh⟩
  · rw [htraces, List.getElem?_map, Option.map_eq_some_iff] at h
    obtain ⟨old, hold, rfl⟩ := h
    exact .inl ⟨old, hold, hkeeps old⟩
  · rw [htraces] at h
    rcases Nat.lt_or_ge i t.traces.length with hi | hi
    · rw [List.getElem?_append_left hi] at h
      exact .inl ⟨trace, h, .refl trace⟩
    · rw [List.getElem?_append_right hi, List.getElem?_singleton] at h
      obtain ⟨-, hsame⟩ := Option.ite_none_right_eq_some.mp h
      cases hsame
      exact .inr ⟨hi, hparent, hfresh⟩

theorem length_traces_apply_le (t : TaskTree) (e : Event) :
    (t.apply e).traces.length ≤ t.traces.length + 1 := by
  rcases t.traces_apply_cases e with ⟨change, -, htraces⟩ | ⟨fresh, htraces, -⟩
  · rw [htraces, List.length_map]
    exact Nat.le_succ _
  · exact Nat.le_of_eq (by rw [htraces, List.length_append, List.length_singleton])

/-- What holds of a tree and of the tree after an event, holds of the tree that the event leaves,
frozen or not. -/
theorem reduce_cases {P : TaskTree → Prop} {e : Event} (h : P t) (happly : P (t.apply e)) :
    P (t.reduce e) := by
  unfold reduce
  split
  · exact h
  · exact happly

theorem extends_reduceAll (t : TaskTree) (es : List Event) : t.Extends (t.reduceAll es) := by
  induction es generalizing t with
  | nil => exact .refl t
  | cons e es ih => exact (reduce_cases (.refl t) (t.extends_apply e)).trans (ih (t.reduce e))

/-! ## Layers -/

/-- A task has one trace and one sub-message at most, and every trace that is not at the top names a
parent that stands before it and one higher. -/
structure Layered (t : TaskTree) : Prop where
  keyed : t.Keyed
  parent : ∀ (i : Nat) (trace : Trace) (d : Nat), t.traces[i]? = some trace → trace.deep = d + 1 →
    ∃ j < i, ∃ above : Trace, t.traces[j]? = some above ∧ trace.parentTaskId = some above.taskId ∧
      above.deep = d

theorem layered_new (userId assistantId : String) : (new userId assistantId).Layered :=
  ⟨⟨List.nodup_nil, List.nodup_nil⟩, nofun⟩

theorem Layered.apply (h : t.Layered) (e : Event) : (t.apply e).Layered := by
  refine ⟨h.keyed.apply e, ?_⟩
  intro i trace d htrace hdeep
  have hbefore : ∃ j < i, ∃ above : Trace, t.traces[j]? = some above ∧
      trace.parentTaskId = some above.taskId ∧ above.deep = d := by
    rcases origin_of_apply htrace with ⟨old, hold, hkeeps⟩ | ⟨hi, hparent, hfresh⟩
    · obtain ⟨j, hj, above, habove, hname, hd⟩ :=
        h.parent i old d hold (hkeeps.deep.symm.trans hdeep)
      exact ⟨j, hj, above, habove, hkeeps.parent _ hname, hd⟩
    -- a new trace: the parent that its depth comes from is in the table already
    · obtain ⟨above, hmem, hname, hd⟩ := exists_of_depthUnder (hfresh.symm.trans hdeep)
      obtain ⟨j, habove⟩ := List.mem_iff_getElem?.mp hmem
      have hj := (List.getElem?_eq_some_iff.mp habove).1
      exact ⟨j, Nat.lt_of_lt_of_le hj hi, above, habove, hparent.trans hname, hd⟩
  obtain ⟨j, hj, above, habove, hname, hd⟩ := hbefore
  obtain ⟨above', habove', hkeeps⟩ := t.extends_apply e j above habove
  refine ⟨j, hj, above', habove', ?_, hkeeps.deep.trans hd⟩
  rw [hname, hkeeps.taskId]

theorem Layered.reduceAll (h : t.Layered) (es : List Event) : (t.reduceAll es).Layered := by
  induction es generalizing t with
  | nil => exact h
  | cons e es ih => exact ih (reduce_cases h (h.apply e))

/-- There are as many traces before a trace as it is deep. -/
theorem Layered.deep_le (h : t.Layered) {i : Nat} {trace : Trace}
    (htrace : t.traces[i]? = some trace) : trace.deep ≤ i := by
  induction hdeep : trace.deep generalizing i trace with
  | zero => exact Nat.zero_le i
  | succ d ih =>
    obtain ⟨j, hj, above, habove, -, hd⟩ := h.parent i trace d htrace hdeep
    exact Nat.lt_of_le_of_lt (ih habove hd) hj

/-! ## Ancestors -/

def ancestor? (t : TaskTree) : (steps : Nat) → Trace → Option Trace
  | 0, trace => some trace
  | steps + 1, trace => (trace.parentTaskId.bind t.trace?).bind (t.ancestor? steps)

/-- Each step to a parent leads one higher, up to the top. -/
theorem Layered.exists_ancestor? (h : t.Layered) {trace : Trace} (hmem : trace ∈ t.traces)
    {steps : Nat} (hsteps : steps ≤ trace.deep) :
    ∃ above ∈ t.traces, t.ancestor? steps trace = some above ∧
      above.deep + steps = trace.deep := by
  induction steps generalizing trace with
  | zero => exact ⟨trace, hmem, rfl, rfl⟩
  | succ steps ih =>
    obtain ⟨d, hd⟩ := Nat.exists_eq_add_of_le' (Nat.le_of_lt_succ (Nat.lt_succ_of_le hsteps))
    obtain ⟨i, hi⟩ := List.mem_iff_getElem?.mp hmem
    obtain ⟨j, -, above, habove, hname, habove_deep⟩ := h.parent i trace (d + steps) hi hd
    have hmem' := List.mem_of_getElem? habove
    have hfound : t.trace? above.taskId = some above :=
      (mem_iff_find?_key h.keyed.traces).mp hmem'
    obtain ⟨top, htop, hsame, hdeep⟩ := ih hmem' (by omega)
    refine ⟨top, htop, ?_, by omega⟩
    rw [ancestor?, hname, Option.bind_some, hfound, Option.bind_some, hsame]

/-! ## A whole run -/

/-- Whatever events have come: a task has one trace and one sub-message at most, and every trace
that is not at the top names a parent that stands before it and one higher. A further event adds at
most one trace, at the end; the others keep their place, their task, their depth, and their parent
if they have one. So the way up from a trace takes as many steps as it is deep, and it is less deep
than there are traces: a depth fits its word as long as the number of traces does. -/
theorem reduceAll_layered (userId assistantId : String) (es : List Event) (e : Event) :
    let t := (new userId assistantId).reduceAll es
    t.Layered ∧ t.Extends (t.reduce e) ∧ (t.reduce e).traces.length ≤ t.traces.length + 1 ∧
      (∀ later, t.Extends (t.reduceAll later)) ∧
      ∀ trace ∈ t.traces,
        (∀ steps ≤ trace.deep, ∃ above ∈ t.traces,
          t.ancestor? steps trace = some above ∧ above.deep + steps = trace.deep) ∧
        trace.deep < t.traces.length ∧
        (t.traces.length < Word.size 32 → trace.deep + 1 < Word.size 32) := by
  intro t
  have hlayered : t.Layered := (layered_new userId assistantId).reduceAll es
  refine ⟨hlayered, reduce_cases (.refl t) (t.extends_apply e),
    reduce_cases (P := fun t' => t'.traces.length ≤ t.traces.length + 1) (Nat.le_succ _)
      (t.length_traces_apply_le e), t.extends_reduceAll, ?_⟩
  intro trace hmem
  obtain ⟨i, hi⟩ := List.mem_iff_getElem?.mp hmem
  have hdeep : trace.deep < t.traces.length :=
    Nat.lt_of_le_of_lt (hlayered.deep_le hi) (List.getElem?_eq_some_iff.mp hi).1
  exact ⟨fun steps hsteps => hlayered.exists_ancestor? hmem hsteps, hdeep,
    fun hword => Nat.lt_of_le_of_lt hdeep hword⟩

/-- A hen and an egg that name each other as parents. -/
def circle : List Event :=
  [.execute "hen" (some "egg") "farmer" none .start none,
    .input "egg" (some "hen") "farmer" "Egg" .null none]

/-- The one that was seen first is at the top. -/
theorem reduceAll_layered_circle :
    let t := (new "user" "assistant").reduceAll circle
    t.Layered ∧ ∃ trace ∈ t.traces, trace.taskId = "egg" ∧ trace.deep = 1 ∧
      ∃ above ∈ t.traces, t.ancestor? 1 trace = some above ∧ above.deep + 1 = trace.deep := by
  intro t
  obtain ⟨hlayered, -, -, -, hways⟩ :=
    reduceAll_layered "user" "assistant" circle (.progress .null)
  have hegg : t.traces[1] ∈ t.traces := List.getElem_mem _
  exact ⟨hlayered, t.traces[1], hegg, rfl, rfl, (hways _ hegg).1 1 (Nat.le_refl 1)⟩

end TaskTree

end Agents
