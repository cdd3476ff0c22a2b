import Agents.Proofs.Trace.Interleaving
import Mathlib.Algebra.BigOperators.Group.List.Basic
import Mathlib.Algebra.GroupWithZero.Nat
import Mathlib.Algebra.Order.BigOperators.Group.List
import Mathlib.Algebra.Order.Group.Nat
import Mathlib.Data.List.TakeWhile

/-! # Token counts are conserved

What a model has used is counted twice: in the trace of the task that called it, which the count
makes if there is none, and in the total of the run. Both are sums of words, and both stay as they
are once the tree is frozen.

Events may come in any order, so a task may be counted before it is introduced, and go on being
counted while other tasks are. Still each count goes to one trace, that of its task
(`sum_usagesOf`). As long as the exact totals of the run fit their words, no sum on the way is too
large, and the total is the sum over the traces (`reduceAll_accounts`).
-/

namespace Agents

namespace Usage

/-! ## Exact sums -/

/-- The numbers in a count. -/
inductive Counter where
  | prompt
  | completion
  | total

def get (u : Usage) : Counter → Nat
  | .prompt => u.promptTokens
  | .completion => u.completionTokens
  | .total => u.totalTokens

def sum (us : List Usage) : Usage where
  promptTokens := (us.map promptTokens).sum
  completionTokens := (us.map completionTokens).sum
  totalTokens := (us.map totalTokens).sum

def sum? (us : List Usage) : Option Usage := if us = [] then none else some (sum us)

/-- Every number of a count has 64 bits at most. -/
def Fits (u : Usage) : Prop := ∀ k, u.get k < Word.size 64

/-- Another count is added to one that may be absent, and no number gets too large. -/
def AddsExactly (total : Option Usage) (u : Usage) : Prop :=
  ∀ k, total.elim 0 (·.get k) + u.get k < Word.size 64

theorem ext_get {u v : Usage} (h : ∀ k, u.get k = v.get k) : u = v := by
  cases u
  cases v
  rw [Usage.mk.injEq]
  exact ⟨h .prompt, h .completion, h .total⟩

theorem get_add (u v : Usage) (k : Counter) : (u + v).get k = addCount (u.get k) (v.get k) := by
  cases k with
  | prompt | completion | total => rfl

theorem get_sum (us : List Usage) (k : Counter) : (sum us).get k = (us.map (·.get k)).sum := by
  cases k with
  | prompt | completion | total => rfl

theorem get_sum_append (us vs : List Usage) (k : Counter) :
    (sum (us ++ vs)).get k = (sum us).get k + (sum vs).get k := by
  rw [get_sum, get_sum, get_sum, List.map_append, List.sum_append]

theorem sum?_eq_none_iff {us : List Usage} : sum? us = none ↔ us = [] := by
  unfold sum?
  split
  · next h => exact iff_of_true rfl h
  · next h => exact iff_of_false nofun h

theorem elim_sum? (us : List Usage) (k : Counter) :
    (sum? us).elim 0 (·.get k) = (us.map (·.get k)).sum := by
  unfold sum?
  split
  · next h => rw [h]; rfl
  · exact get_sum us k

theorem Fits.of_sublist {us vs : List Usage} (h : (sum vs).Fits) (hsub : us.Sublist vs) :
    (sum us).Fits := by
  intro k
  have hle : (us.map (·.get k)).sum ≤ (vs.map (·.get k)).sum :=
    (hsub.map _).sum_le_sum fun _ _ => Nat.zero_le _
  have hvs := h k
  rw [get_sum] at hvs ⊢
  exact Nat.lt_of_le_of_lt hle hvs

theorem addsExactly_sum? {us : List Usage} {u : Usage} (h : (sum (us ++ [u])).Fits) :
    AddsExactly (sum? us) u := by
  intro k
  have hk := h k
  rw [get_sum_append, get_sum, get_sum, List.map_singleton, List.sum_singleton] at hk
  rw [elim_sum?]
  exact hk

theorem addUsage_sum? {us : List Usage} {u : Usage} (h : (sum (us ++ [u])).Fits) :
    TaskTree.addUsage (sum? us) u = sum? (us ++ [u]) := by
  have hsome : sum? (us ++ [u]) = some (sum (us ++ [u])) := if_neg (by simp)
  rw [hsome]
  refine congrArg some (ext_get fun k => ?_)
  have hexact := addsExactly_sum? h k
  have hget : ((sum? us).getD ⟨0, 0, 0⟩).get k = (sum? us).elim 0 (·.get k) := by
    cases sum? us with
    | some total => rfl
    | none =>
      cases k with
      | prompt | completion | total => rfl
  rw [get_add, addCount, hget, Nat.mod_eq_of_lt hexact, elim_sum?, get_sum, List.map_append,
    List.sum_append, List.map_singleton, List.sum_singleton]

/-- Counts that are added one by one give their exact sum, if that fits. -/
theorem foldl_addUsage {us : List Usage} (h : (sum us).Fits) :
    us.foldl TaskTree.addUsage none = sum? us := by
  induction us using List.reverseRecOn with
  | nil => rfl
  | append_singleton us u ih =>
    rw [List.foldl_append, ih (h.of_sublist (List.sublist_append_left us [u]))]
    exact addUsage_sum? h

end Usage

namespace Event

/-! ## The counts in some events -/

/-- The events before the first ERROR. -/
def heeded (es : List Event) : List Event := es.takeWhile fun e => e.error?.isNone

def usages (es : List Event) : List Usage := es.filterMap usage?

def usagesOf (id : TaskId) (es : List Event) : List Usage := usages (ofTask id es)

theorem usagesOf_sublist (id : TaskId) (es : List Event) : (usagesOf id es).Sublist (usages es) :=
  List.filter_sublist.filterMap _

theorem usages_traced (id : TaskId) (es : List Event) : usages (traced id es) = usagesOf id es := by
  rw [usagesOf, usages, usages, traced, ofTask, List.filterMap_filter, List.filterMap_filter]
  refine List.filterMap_congr fun e _ => ?_
  cases e with
  | usage => simp [IsTraced, speaker?]
  | _ => simp [usage?]

/-- A count belongs to the trace of a task, also if that is the main one. -/
theorem exists_taskId?_of_usage? {e : Event} {u : Usage} (h : e.usage? = some u) :
    ∃ id, e.taskId? = some id ∧ ∀ main, e.IsTraced main id := by
  cases e with
  | usage id => exact ⟨id, rfl, fun main => ⟨rfl, fun h => nomatch h.1⟩⟩
  | _ => cases h

/-- If no two of the tasks are the same and every task that is counted is one of them, the counts
are shared out among them. -/
theorem sum_usagesOf {ids : List TaskId} (hids : ids.Nodup) {es : List Event}
    (hes : ∀ e ∈ es, e.usage?.isSome → ∃ id ∈ ids, e.taskId? = some id) (k : Usage.Counter) :
    (ids.map fun id => ((usagesOf id es).map (·.get k)).sum).sum =
      ((usages es).map (·.get k)).sum := by
  induction es with
  | nil => exact List.sum_eq_zero (by simp [usagesOf, usages, ofTask])
  | cons e rest ih =>
    have hrest := ih fun e' he' => hes e' (List.mem_cons_of_mem e he')
    cases husage : e.usage? with
    | none =>
      have hid (id : TaskId) : usagesOf id (e :: rest) = usagesOf id rest := by
        by_cases h : e.taskId? = some id <;> simp [usagesOf, usages, ofTask, h, husage]
      simp only [hid, hrest, usages, List.filterMap_cons, husage]
    | some u =>
      obtain ⟨own, hown, htask⟩ := hes e List.mem_cons_self (by simp [husage])
      -- the count goes to its own task, and to no other one
      have hid (id : TaskId) : ((usagesOf id (e :: rest)).map (·.get k)).sum =
          (if id = own then u.get k else 0) + ((usagesOf id rest).map (·.get k)).sum := by
        by_cases h : id = own
        · simp [usagesOf, usages, ofTask, htask, husage, h]
        · simp [usagesOf, usages, ofTask, htask, Ne.symm h, h]
      have hshare : (ids.map fun id => if id = own then u.get k else 0).sum = u.get k := by
        rw [List.sum_map_eq_nsmul_single own _ fun id hne _ => if_neg hne,
          List.count_eq_one_of_mem hids hown, if_pos rfl, one_nsmul]
      simp only [hid]
      rw [List.sum_map_add, hshare, hrest]
      simp [usages, husage]

end Event

theorem Trace.usage_touch (trace : Trace) (e : Event) :
    (trace.touch e).usage = e.usage?.elim trace.usage (TaskTree.addUsage trace.usage) := by
  cases e with
  | execute _ _ _ _ phase => cases phase <;> rfl
  | _ => rfl

namespace TaskTree

/-! ## The sums in a tree -/

/-- The tree holds the sums of what these events count. -/
structure Accounts (es : List Event) (t : TaskTree) : Prop where
  total : t.usage = Usage.sum? (Event.usages es)
  shares : ∀ trace ∈ t.traces, trace.usage = Usage.sum? (Event.usagesOf trace.taskId es)
  conserved : t.usage = Usage.sum? (t.traces.filterMap Trace.usage)
  absent : t.usage = none ↔ ∀ trace ∈ t.traces, trace.usage = none

section Shares

variable {t : TaskTree} {es : List Event}
  (hshares : ∀ trace ∈ t.traces, trace.usage = Usage.sum? (Event.usagesOf trace.taskId es))
  (hcounted : ∀ e ∈ es, e.usage?.isSome → ∃ id ∈ t.traces.map Trace.taskId, e.taskId? = some id)

include hshares hcounted

/-- If each trace has the share of its task and no count is without a trace, nothing is counted
exactly if no trace has counts. -/
theorem traces_usage_eq_nil_iff :
    t.traces.filterMap Trace.usage = [] ↔ Event.usages es = [] := by
  rw [List.filterMap_eq_nil_iff, Event.usages, List.filterMap_eq_nil_iff]
  constructor
  · intro htraces e he
    by_contra hsome
    obtain ⟨id, hid, htask⟩ := hcounted e he (Option.isSome_iff_ne_none.mpr hsome)
    obtain ⟨trace, hmem, rfl⟩ := List.mem_map.mp hid
    have hnil : Event.usagesOf trace.taskId es = [] :=
      Usage.sum?_eq_none_iff.mp ((hshares trace hmem).symm.trans (htraces trace hmem))
    have hown : e ∈ Event.ofTask trace.taskId es := List.mem_filter.mpr ⟨he, by simp [htask]⟩
    exact hsome (List.filterMap_eq_nil_iff.mp hnil e hown)
  · intro hes trace hmem
    rw [hshares trace hmem, Usage.sum?_eq_none_iff]
    exact List.filterMap_eq_nil_iff.mpr fun e he => hes e (List.mem_of_mem_filter he)

theorem sum_traces (hkeyed : (t.traces.map Trace.taskId).Nodup) :
    Usage.sum (t.traces.filterMap Trace.usage) = Usage.sum (Event.usages es) := by
  refine Usage.ext_get fun k => ?_
  have htraces (traces : List Trace) : ((traces.filterMap Trace.usage).map (·.get k)).sum =
      (traces.map fun trace => trace.usage.elim 0 (·.get k)).sum := by
    induction traces with
    | nil => rfl
    | cons trace rest ih => cases htrace : trace.usage <;> simp [htrace, ih]
  rw [Usage.get_sum, Usage.get_sum, ← Event.sum_usagesOf hkeyed hcounted, htraces, List.map_map]
  refine congrArg List.sum (List.map_congr_left fun trace hmem => ?_)
  rw [hshares trace hmem, Usage.elim_sum?]
  rfl

end Shares

section New

variable (userId assistantId : String) {es : List Event}

theorem usage_applyAll_new (h : (Usage.sum (Event.usages es)).Fits) :
    ((new userId assistantId).applyAll es).usage = Usage.sum? (Event.usages es) :=
  (usage_applyAll _ es).trans (Usage.foldl_addUsage h)

theorem usage_of_trace? (h : (Usage.sum (Event.usages es)).Fits) {id : TaskId} {trace : Trace}
    (htrace : ((new userId assistantId).applyAll es).trace? id = some trace) :
    trace.usage = Usage.sum? (Event.usagesOf id es) := by
  obtain ⟨deep, hentry⟩ := trace?_applyAll userId assistantId es id
  have hfold : trace.usage = (Event.usages (Event.traced id es)).foldl addUsage none := by
    refine view_of_entryOf Trace.usage (fun es => (Event.usages es).foldl addUsage none)
      (fun _ => rfl) ?_ (hentry.symm.trans htrace)
    intro entry e es hview
    rw [Trace.usage_touch, hview, Event.usages, Event.usages, List.filterMap_append,
      List.foldl_append]
    cases husage : e.usage? <;> simp [husage]
  rw [hfold, Event.usages_traced]
  exact Usage.foldl_addUsage (h.of_sublist (Event.usagesOf_sublist id es))

theorem exists_trace_of_usage? {e : Event} (he : e ∈ es) (husage : e.usage?.isSome) :
    ∃ id ∈ ((new userId assistantId).applyAll es).traces.map Trace.taskId,
      e.taskId? = some id := by
  obtain ⟨u, hu⟩ := Option.isSome_iff_exists.mp husage
  obtain ⟨id, hid, htraced⟩ := Event.exists_taskId?_of_usage? hu
  exact ⟨id, (mem_traces_applyAll userId assistantId es id).mpr ⟨e, he, htraced _⟩, hid⟩

/-- What a task has counted is what its trace shows; without a trace it has counted nothing. -/
theorem bind_usage_trace? (h : (Usage.sum (Event.usages es)).Fits) (id : TaskId) :
    (((new userId assistantId).applyAll es).trace? id).bind Trace.usage =
      Usage.sum? (Event.usagesOf id es) := by
  cases htrace : ((new userId assistantId).applyAll es).trace? id with
  | some trace => exact usage_of_trace? userId assistantId h htrace
  | none =>
    refine (Usage.sum?_eq_none_iff.mpr (List.filterMap_eq_nil_iff.mpr fun e he => ?_)).symm
    obtain ⟨hmem, hid⟩ := List.mem_filter.mp he
    by_contra hsome
    obtain ⟨own, hown, htask⟩ := exists_trace_of_usage? userId assistantId hmem
      (Option.isSome_iff_ne_none.mpr hsome)
    obtain rfl : own = id := Option.some.inj (htask.symm.trans (of_decide_eq_true hid))
    rw [mem_map_key_iff, ← trace?, htrace] at hown
    cases hown

theorem accounts_applyAll (h : (Usage.sum (Event.usages es)).Fits) :
    Accounts es ((new userId assistantId).applyAll es) := by
  have hkeyed := (keyed_applyAll userId assistantId es).traces
  have hshares : ∀ trace ∈ ((new userId assistantId).applyAll es).traces,
      trace.usage = Usage.sum? (Event.usagesOf trace.taskId es) :=
    fun trace hmem => usage_of_trace? userId assistantId h ((mem_iff_find?_key hkeyed).mp hmem)
  have hcounted : ∀ e ∈ es, e.usage?.isSome → _ :=
    fun _ he husage => exists_trace_of_usage? userId assistantId he husage
  have htotal := usage_applyAll_new userId assistantId h
  have hconserved : ((new userId assistantId).applyAll es).usage =
      Usage.sum? (((new userId assistantId).applyAll es).traces.filterMap Trace.usage) := by
    rw [htotal]
    exact if_congr (traces_usage_eq_nil_iff hshares hcounted).symm rfl
      (congrArg some (sum_traces hshares hcounted hkeyed).symm)
  refine ⟨htotal, hshares, hconserved, ?_⟩
  rw [hconserved, Usage.sum?_eq_none_iff, List.filterMap_eq_nil_iff]

/-! ## Up to the first ERROR -/

theorem reduceAll_eq_stepAll (t : TaskTree) (es : List Event) :
    t.reduceAll es = t.stepAll (es.map .event) := by
  rw [stepAll, List.foldl_map]
  rfl

theorem exists_reduceAll (es : List Event) : ∃ error cancelled,
    (new userId assistantId).reduceAll es =
      { (new userId assistantId).applyAll (Event.heeded es) with error, cancelled } := by
  have hlive : Step.live (es.map .event) = Event.heeded es := by
    rw [Step.live, List.takeWhile_map, List.filterMap_map]
    refine (List.filterMap_some (l := List.takeWhile _ es)).trans (congrArg (es.takeWhile ·) ?_)
    funext e
    cases herror : e.error? <;> simp [Step.freezes, herror]
  rw [reduceAll_eq_stepAll, ← hlive]
  exact exists_stepAll rfl _

theorem error?_of_not_isFrozen (h : ((new userId assistantId).reduceAll es).isFrozen = false)
    {e : Event} (he : e ∈ es) : e.error? = none := by
  by_contra herror
  have hfreezes : (es.map Step.event).any Step.freezes = true :=
    List.any_eq_true.mpr ⟨.event e, List.mem_map_of_mem he, Option.isSome_iff_ne_none.mpr herror⟩
  rw [reduceAll_eq_stepAll, isFrozen_stepAll hfreezes] at h
  cases h

end New

/-- Tokens are conserved. Whatever events have come, if the exact totals of those before the first
ERROR fit their words: the run has a total exactly if some trace has one, and it is the sum over the
traces, which is the sum of all counts; each trace has the sum of what its own task counts; and no
count that is added, to a trace or to the total, makes a number too large. -/
theorem reduceAll_accounts (userId assistantId : String) (es : List Event)
    (h : (Usage.sum (Event.usages (Event.heeded es))).Fits) :
    Accounts (Event.heeded es) ((new userId assistantId).reduceAll es) ∧
      ∀ before id assistant u after, es = before ++ .usage id assistant u :: after →
        let t := (new userId assistantId).reduceAll before
        t.isFrozen = false →
          Usage.AddsExactly t.usage u ∧ Usage.AddsExactly ((t.trace? id).bind Trace.usage) u := by
  constructor
  · obtain ⟨error, cancelled, htree⟩ := exists_reduceAll userId assistantId es
    obtain ⟨htotal, hshares, hconserved, habsent⟩ := accounts_applyAll userId assistantId h
    rw [htree]
    exact ⟨htotal, hshares, hconserved, habsent⟩
  · rintro before id assistant u after rfl t hlive
    have hbefore : ∀ e ∈ before, e.error?.isNone = true :=
      fun e he => Option.isNone_iff_eq_none.mpr
        (error?_of_not_isFrozen userId assistantId hlive he)
    have hsofar : Event.heeded before = before := List.takeWhile_eq_self_iff.mpr hbefore
    have hheeded : Event.heeded (before ++ .usage id assistant u :: after) =
        before ++ .usage id assistant u :: Event.heeded after :=
      List.takeWhile_append_of_pos hbefore
    -- what was counted so far and the new count are a part of the whole
    have hfits : (Usage.sum (Event.usages before ++ [u])).Fits := by
      refine h.of_sublist ?_
      rw [hheeded, Event.usages, Event.usages, List.filterMap_append]
      refine List.Sublist.append_left (List.singleton_sublist.mpr ?_) _
      exact List.mem_cons_self
    have hcounted : (Usage.sum (Event.usages before)).Fits :=
      hfits.of_sublist (List.sublist_append_left _ _)
    obtain ⟨error, cancelled, htree⟩ := exists_reduceAll userId assistantId before
    rw [hsofar] at htree
    have htotal : t.usage = Usage.sum? (Event.usages before) := by
      rw [show t = _ from htree]
      exact usage_applyAll_new userId assistantId hcounted
    have hshare : (t.trace? id).bind Trace.usage = Usage.sum? (Event.usagesOf id before) := by
      rw [show t = _ from htree]
      exact bind_usage_trace? userId assistantId hcounted id
    rw [htotal, hshare]
    exact ⟨Usage.addsExactly_sum? hfits, Usage.addsExactly_sum?
      (hfits.of_sublist ((Event.usagesOf_sublist id before).append_right [u]))⟩

/-- A painter who is counted before anyone is introduced, a poet who is counted in between, and a
count after the ERROR that would not fit. -/
def bill : List Event :=
  [.usage "left" "painter" ⟨3, 4, 7⟩,
    .input "main" none "studio" "Studio" .null none,
    .usage "right" "poet" ⟨5, 1, 6⟩,
    .usage "left" "painter" ⟨1, 1, 2⟩,
    .error default,
    .usage "right" "poet" ⟨2 ^ 64 - 1, 0, 2 ^ 64 - 1⟩]

theorem reduceAll_accounts_bill : (Usage.sum (Event.usages (Event.heeded bill))).Fits ∧
    let t := (new "user" "assistant").reduceAll bill
    t.usage = some ⟨9, 6, 15⟩ ∧ Usage.sum (t.traces.filterMap Trace.usage) = ⟨9, 6, 15⟩ ∧
      ∀ trace ∈ t.traces, trace.taskId = "left" → trace.usage = some ⟨4, 5, 9⟩ := by
  have hfits : (Usage.sum (Event.usages (Event.heeded bill))).Fits := by
    intro k
    cases k with
    | prompt | completion | total => decide
  obtain ⟨⟨htotal, hshares, hconserved, -⟩, -⟩ :=
    reduceAll_accounts "user" "assistant" bill hfits
  refine ⟨hfits, htotal, ?_, ?_⟩
  · rfl
  · intro trace hmem hleft
    rw [hshares trace hmem, hleft]
    rfl

end TaskTree

end Agents
