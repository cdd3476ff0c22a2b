import Agents.Proofs.Run.Blocks
import Agents.Proofs.Run.Nesting
import Agents.Proofs.Run.Outcome
import Mathlib.Data.List.Perm.Subperm

/-! # What tasks leave in the cache

A task that ends well puts its outputs into the cache, under its own fingerprint, and nothing else
does. So whatever is put there is an entry in a ledger of tasks (`Ledger`).

Tasks that take turns mix what they exchange, and some of them are dropped on the way. `Mixable` is
all that is asked of a kind of exchanges for it to hold of a whole group: it is kept when two
exchanges are mixed. A ledger is (`Kept.mixable`), so every run has one, however far it goes
(`Engine.kept_childRun`).
-/

namespace Agents

open Activity

/-! ## Mixed lists -/

namespace Shuffle

variable {α β : Type} {xs ys zs : List α}

theorem filterMap (f : α → Option β) (h : Shuffle xs ys zs) :
    Shuffle (xs.filterMap f) (ys.filterMap f) (zs.filterMap f) := by
  induction h with
  | nil => exact .nil
  | left x _ ih =>
    cases hx : f x with
    | none => simpa [hx] using ih
    | some b => simpa [hx] using ih.left b
  | right y _ ih =>
    cases hy : f y with
    | none => simpa [hy] using ih
    | some b => simpa [hy] using ih.right b

theorem exists_of_filterMap (f : β → Option α) (h : Shuffle xs ys zs) {as bs : List β}
    (has : as.filterMap f = xs) (hbs : bs.filterMap f = ys) :
    ∃ cs, Shuffle as bs cs ∧ cs.filterMap f = zs := by
  have hskip {before : List β} (hnone : ∀ b ∈ before, f b = none) : before.filterMap f = [] :=
    List.filterMap_eq_nil_iff.mpr hnone
  induction h generalizing as bs with
  | nil => exact ⟨as ++ bs, .append as bs, by rw [List.filterMap_append, has, hbs, List.append_nil]⟩
  | left x _ ih =>
    obtain ⟨before, a, rest, rfl, hbefore, ha, hrest⟩ := List.filterMap_eq_cons_iff.mp has
    obtain ⟨cs, hcs, hvalues⟩ := ih hrest hbs
    refine ⟨before ++ a :: cs, (hcs.left a).append_left before, ?_⟩
    rw [List.filterMap_append, hskip hbefore, List.filterMap_cons_some ha, hvalues, List.nil_append]
  | right y _ ih =>
    obtain ⟨before, b, rest, rfl, hbefore, hb, hrest⟩ := List.filterMap_eq_cons_iff.mp hbs
    obtain ⟨cs, hcs, hvalues⟩ := ih has hrest
    refine ⟨before ++ b :: cs, (hcs.right b).append_right before, ?_⟩
    rw [List.filterMap_append, hskip hbefore, List.filterMap_cons_some hb, hvalues, List.nil_append]

end Shuffle

/-! ## Mixed exchanges -/

/-- A kind of exchanges that contains the empty one, and with two exchanges each way to mix them. -/
structure Mixable (P : List Exchange → Prop) : Prop where
  nil : P []
  shuffle : ∀ {log more mixed : List Exchange}, P log → P more → Shuffle log more mixed → P mixed

namespace Mixable

variable {P : List Exchange → Prop} {t : TaskContext}

theorem append (hP : Mixable P) {log more : List Exchange} (h : P log) (h' : P more) :
    P (log ++ more) := hP.shuffle h h' (.append log more)

theorem composable (hP : Mixable P) : Composable fun log _ => P log := ⟨hP.nil, hP.append⟩

theorem courses (hP : Mixable P) {α : Type} {runs : List (Fallible α)} {courses : List (Course α)}
    {log : List Exchange} {es : List Event} (h : Courses runs courses log es)
    (hcourses : ∀ c ∈ courses, P c.log) : P log := by
  induction h with
  | nil => exact hP.nil
  | cons _ _ hlog _ ih =>
    exact hP.shuffle (hcourses _ List.mem_cons_self)
      (ih fun c hc => hcourses c (List.mem_cons_of_mem _ hc)) hlog

theorem together (hP : Mixable P) {α : Type} {turns : List Turn} {runs : List (Fallible α)}
    (h : ∀ run ∈ runs, Always (fun log _ => P log) run.run) :
    Always (fun log _ => P log) (together turns runs).run := by
  intro log es left hadvances
  obtain ⟨courses, hcourses, _⟩ := advances_together hadvances
  refine hP.courses hcourses fun c hc => ?_
  obtain ⟨run, hrun, hof⟩ := hcourses.exists_run hc
  exact h run hrun hof

/-- What holds of a task's own queries and of its children holds of all that it does. -/
theorem does (hP : Mixable P) (hown : ∀ x : Exchange, x.query.IsOwn → P [x])
    (hchild : ∀ agentRef inputs,
      Always (fun log _ => P log) (t.runChild agentRef inputs).run) {α : Type} {a : Activity α}
    (h : t.Does a) : Always (fun log _ => P log) a := by
  have hL := hP.composable.always
  induction h with
  | pure a => exact hL.pure a
  | bind _ _ iha ihf => exact hL.bind iha ihf
  | query hq =>
    intro log es left h
    obtain ⟨-, rfl | ⟨answer, rfl⟩⟩ := advances_query h
    · exact hP.nil
    · exact hown _ hq
  | reportAll _ =>
    intro log es left h
    obtain ⟨rfl, -⟩ := advances_reportAll h
    exact hP.nil
  | runChild agentRef inputs => exact hchild agentRef inputs
  | through _ _ s agentRef inputs =>
    intro log es left h
    obtain ⟨_, _, hadvances, -⟩ := advances_through h
    exact hchild agentRef inputs hadvances

end Mixable

/-! ## Ledgers -/

/-- The run of the task `r` is a part of the exchange; between its own queries and answers there may
be those of other tasks. -/
def Engine.Performed (e : Engine) (r : TaskRun) (log : List Exchange) : Prop :=
  ∃ (overlap : Overlap) (depth : Nat) (projectId agentRef : String) (inputs : Json)
    (options : RunOptions) (own : List Exchange) (said : List Event),
    e.PerformsWith overlap.process depth projectId agentRef inputs options r own said ∧
    own.Sublist log

theorem Engine.Performed.mono {e : Engine} {r : TaskRun} {log more : List Exchange}
    (h : e.Performed r log) (hlog : log.Sublist more) : e.Performed r more := by
  obtain ⟨overlap, depth, projectId, agentRef, inputs, options, own, said, hperforms, hown⟩ := h
  exact ⟨overlap, depth, projectId, agentRef, inputs, options, own, said, hperforms,
    hown.trans hlog⟩

/-- Tasks that began and ended in an exchange. What they ended well with, in this order, is all that
the exchange puts into the cache. -/
structure Ledger (e : Engine) (log : List Exchange) (tasks : List TaskRun) : Prop where
  performed : ∀ r ∈ tasks, e.Performed r log
  minted : (taskIds tasks).Subperm (mintedIds log)
  stored : storedEntries log = tasks.filterMap TaskRun.entry?

namespace Ledger

variable {e : Engine} {log more mixed : List Exchange} {tasks others : List TaskRun}

theorem idle (h : ∀ x ∈ log, x.stored? = none) : Ledger e log [] where
  performed := List.forall_mem_nil _
  minted := List.nil_subperm
  stored := List.filterMap_eq_nil_iff.mpr h

theorem mix (h : Ledger e log tasks) (h' : Ledger e more others) (hlog : Shuffle log more mixed) :
    ∃ all, Ledger e mixed all := by
  have hstored : Shuffle (storedEntries log) (storedEntries more) (storedEntries mixed) :=
    hlog.filterMap _
  obtain ⟨all, hall, hentries⟩ := hstored.exists_of_filterMap _ h.stored.symm h'.stored.symm
  refine ⟨all, fun r hr => ?_, ?_, hentries.symm⟩
  · rcases List.mem_append.mp (hall.perm.mem_iff.mp hr) with hr | hr
    · exact (h.performed r hr).mono hlog.sublist_left
    · exact (h'.performed r hr).mono hlog.sublist_right
  · have htasks : (taskIds all).Perm (taskIds tasks ++ taskIds others) := by
      rw [← taskIds_append]
      exact hall.perm.map _
    have hids : (mintedIds mixed).Perm (mintedIds log ++ mintedIds more) :=
      (hlog.filterMap Exchange.minted?).perm
    exact htasks.subperm_right.mpr (hids.subperm_left.mpr (h.minted.append h'.minted))

/-- An entry of the ledger is the outputs of one of its tasks. -/
theorem exists_of_stored {key : String} {v : Json} (h : Ledger e log tasks)
    (hstored : (key, v) ∈ storedEntries log) : ∃ r ∈ tasks, r.key = key ∧ r.outcome = .ok v := by
  rw [h.stored] at hstored
  obtain ⟨r, hr, hentry⟩ := List.mem_filterMap.mp hstored
  refine ⟨r, hr, ?_⟩
  unfold TaskRun.entry? at hentry
  unfold TaskRun.outcome
  split at hentry
  · next result hresult =>
    cases hentry
    rw [hresult]
    exact ⟨rfl, rfl⟩
  · cases hentry

end Ledger

def Kept (e : Engine) (log : List Exchange) : Prop := ∃ tasks, Ledger e log tasks

theorem Kept.idle {e : Engine} {log : List Exchange} (h : ∀ x ∈ log, x.stored? = none) :
    Kept e log := ⟨[], .idle h⟩

theorem Kept.mixable (e : Engine) : Mixable (Kept e) where
  nil := .idle (List.forall_mem_nil _)
  shuffle := fun ⟨_, h⟩ ⟨_, h'⟩ hlog => h.mix h' hlog

theorem Exchange.stored?_of_isOwn {x : Exchange} (h : x.query.IsOwn) : x.stored? = none := by
  obtain ⟨query, answer⟩ := x
  cases query with
  | remember key outputs => exact h.elim
  | _ => rfl

/-! ## The ledger of a task -/

namespace Engine

variable {work : TaskContext → Json → Fallible TaskResult} {e : Engine} {depth : Nat}
  {projectId agentRef : String} {inputs : Json} {options : RunOptions} {r : TaskRun}
  {log : List Exchange} {es : List Event}

theorem Finds.stored?_eq_none {identity : Identity} {found : Except Error (Option Definition)}
    (h : e.Finds identity log found) : ∀ x ∈ log, x.stored? = none := by
  cases h with
  | own _ _ => exact List.forall_mem_nil _
  | asked answer _ => exact List.forall_mem_singleton.mpr rfl

theorem Skips.stored?_eq_none {isRequired : Bool} {res : Except RunFailure Json}
    (h : e.Skips projectId agentRef inputs isRequired log res) : ∀ x ∈ log, x.stored? = none := by
  cases h with
  | unavailable hfinds => exact hfinds.stored?_eq_none
  | missing hfinds _ => exact hfinds.stored?_eq_none
  | absent hfinds _ => exact hfinds.stored?_eq_none
  | refused hfinds _ => exact hfinds.stored?_eq_none
  | known hfinds _ =>
    exact List.forall_mem_append.mpr ⟨hfinds.stored?_eq_none, List.forall_mem_singleton.mpr rfl⟩

theorem Ending.stored?_eq_none {res : Except RunFailure Json} (h : Ending options res log es) :
    ∀ x ∈ log, x.stored? = none := by
  cases h with
  | error now _ _ _ => exact List.forall_mem_singleton.mpr rfl
  | silent _ => exact List.forall_mem_nil _

/-- The exchange of a run is that of its task's work; before it nothing is put into the cache. -/
theorem PerformsWith.exists_lead
    (h : e.PerformsWith work depth projectId agentRef inputs options r log es) :
    ∃ lead, (∀ x ∈ lead, x.stored? = none) ∧ r.id ∈ mintedIds lead ∧
      log = lead ++ (r.log ++ ⟨.clock, r.ended⟩ :: r.remembering) := by
  obtain ⟨finding, before, hfinds, hbefore, rfl⟩ := h.found
  refine ⟨finding ++ ⟨.recall r.key, none⟩ :: ⟨.newTask, r.id⟩ ::
    (before ++ [⟨.clock, r.started⟩]), fun x hx => ?_, ?_, by simp⟩
  · simp only [List.mem_append, List.mem_cons, List.not_mem_nil, or_false] at hx
    rcases hx with hx | rfl | rfl | hx | rfl
    · exact hfinds.stored?_eq_none x hx
    · rfl
    · rfl
    · exact Exchange.stored?_of_isOwn (hbefore x hx)
    · rfl
  · exact List.mem_filterMap.mpr ⟨⟨.newTask, r.id⟩, by simp, rfl⟩

theorem storedEntries_remembering (r : TaskRun) :
    storedEntries r.remembering = [r].filterMap TaskRun.entry? := by
  unfold TaskRun.remembering
  cases h : r.entry? with
  | none => simp [h]
  | some entry => simp [h, storedEntries, Exchange.stored?]

/-- The run of a task adds the task to the ledger of its work. -/
theorem PerformsWith.ledger {overlap : Overlap} {tasks : List TaskRun}
    (h : e.PerformsWith overlap.process depth projectId agentRef inputs options r log es)
    (hwork : Ledger e r.log tasks) : Ledger e log (tasks ++ [r]) := by
  obtain ⟨lead, hlead, hid, hlog⟩ := h.exists_lead
  have hpart : r.log.Sublist log := by
    rw [hlog]
    exact (List.sublist_append_left _ _).trans (List.sublist_append_right _ _)
  refine ⟨fun c hc => ?_, ?_, ?_⟩
  · rcases List.mem_append.mp hc with hinside | hself
    · exact (hwork.performed c hinside).mono hpart
    · obtain rfl := List.mem_singleton.mp hself
      exact ⟨overlap, depth, projectId, agentRef, inputs, options, log, es, h, List.Sublist.refl _⟩
  · rw [taskIds_append, hlog, mintedIds_append, mintedIds_append]
    have hself : (taskIds [r]).Subperm (mintedIds lead) :=
      List.singleton_subperm_iff.mpr hid
    refine (List.perm_append_comm.subperm_right).mpr (hself.append ?_)
    exact hwork.minted.trans (List.sublist_append_left _ _).subperm
  · have hnone : storedEntries lead = [] := List.filterMap_eq_nil_iff.mpr hlead
    have hended : storedEntries (⟨.clock, r.ended⟩ :: r.remembering) =
        storedEntries r.remembering := rfl
    rw [hlog, storedEntries_append, storedEntries_append, hnone, hended, hwork.stored,
      storedEntries_remembering, List.filterMap_append, List.nil_append]

end Engine

/-! ## Every run has a ledger -/

section Kept

variable {P : List Exchange → Prop} {α β ε : Type}

/-- As long as the activity does not come to its end, its exchange is of this kind. -/
def Open (P : List Exchange → Prop) (a : Activity α) : Prop :=
  ∀ ⦃log es left⦄, Advances a log es left → ¬ left.Finished → P log

theorem Activity.Always.open {a : Activity α} (h : Always (fun log _ => P log) a) : Open P a :=
  fun _ _ _ hadvances _ => h hadvances

theorem open_query (hP : Mixable P) (q : Query) : Open P (query q) := by
  intro log es left h hopen
  cases h with
  | here => exact hP.nil
  | ask answer h =>
    obtain ⟨-, -, rfl⟩ := advances_done h
    exact absurd (finished_done answer) hopen

theorem open_map (f : α → β) {a : Activity α} (h : Open P a) : Open P (f <$> a) := by
  intro log es left hadvances hopen
  obtain ⟨left', ha, rfl⟩ := advances_map hadvances
  refine h ha fun hdone => hopen ?_
  obtain ⟨r, rfl⟩ := hdone
  exact finished_done (f r)

theorem open_bind (hP : Mixable P) {a : Activity α} {f : α → Activity β}
    (ha : Always (fun log _ => P log) a) (hf : ∀ x, Open P (f x)) : Open P (a >>= f) := by
  intro log es left hadvances hopen
  rcases advances_bind hadvances with ⟨_, h, -⟩ | ⟨log₁, es₁, x, log₂, es₂, rfl, rfl, hrun, h⟩
  · exact ha h
  · exact hP.append (ha (runs_iff_advances.mp hrun)) (hf x h hopen)

theorem open_andThen (hP : Mixable P) {x : ExceptT ε Activity α} {f : α → ExceptT ε Activity β}
    (hx : Always (fun log _ => P log) x.run) (hf : ∀ a, Open P (f a).run) :
    Open P (x >>= f).run := by
  rw [ExceptT.run_bind]
  refine open_bind hP hx fun r => ?_
  cases r with
  | ok a => exact hf a
  | error e => exact (hP.composable.always.pure _).open

end Kept

namespace Engine

variable {e : Engine} {overlap : Overlap} {t : TaskContext} {identity : Identity} {d : Definition}
  {options : RunOptions} {runChild : TaskId → String → Json → Fallible Json} {inputs : Json}

theorem kept_query {q : Query} (hq : ∀ answer, Exchange.stored? ⟨q, answer⟩ = none) :
    Always (fun log _ => Kept e log) (query q) := by
  intro log es left h
  obtain ⟨-, rfl | ⟨answer, rfl⟩⟩ := advances_query h
  · exact .idle (List.forall_mem_nil _)
  · exact .idle (List.forall_mem_singleton.mpr (hq answer))

theorem kept_reportAll (events : List Event) :
    Always (fun log _ => Kept e log) (reportAll events) := by
  intro log es left h
  obtain ⟨rfl, -⟩ := advances_reportAll h
  exact .idle (List.forall_mem_nil _)

theorem kept_resolve (projectId agentRef : String) :
    Always (fun log _ => Kept e log) (e.resolve projectId agentRef).run := by
  have hL := (Kept.mixable e).composable.always
  unfold resolve
  dsimp only
  split
  · exact hL.ok _
  · exact hL.andThen (kept_query fun _ => rfl) fun _ => hL.ok _

theorem kept_does {α : Type} {a : Activity α} (h : t.Does a)
    (hchild : ∀ agentRef inputs,
      Always (fun log _ => Kept e log) (t.runChild agentRef inputs).run) :
    Always (fun log _ => Kept e log) a :=
  (Kept.mixable e).does
    (fun _ hx => .idle (List.forall_mem_singleton.mpr (Exchange.stored?_of_isOwn hx))) hchild h

theorem kept_performWith
    (hchild : ∀ agentRef inputs,
      Always (fun log _ => Kept e log) (t.runChild agentRef inputs).run) :
    Always (fun log _ => Kept e log) (t.performWith (overlap.process t) inputs).run := by
  have hL := (Kept.mixable e).composable.always
  have hprompt : Always (fun log _ => Kept e log) (t.prompt inputs).run := by
    unfold TaskContext.prompt
    split
    · exact hL.mapOk _ (kept_does (ModelPrompt.does_prompt _ _) hchild)
    all_goals exact hL.ok _
  have hphase (phase : ExecutePhase) : Always (fun log _ => Kept e log) (t.reportPhase phase) :=
    hL.bind (kept_query (q := .clock) fun _ => rfl) fun _ => kept_reportAll _
  have hwork : Always (fun log _ => Kept e log) (overlap.process t inputs).run :=
    overlap.always_process (Kept.mixable e).composable (fun h => kept_does h hchild)
      (Kept.mixable e).together inputs
  refine hL.andThen (hL.lift hprompt) fun _ => hL.andThen (hL.lift (kept_reportAll _)) fun _ =>
    hL.andThen (hL.lift (hphase _)) fun _ => hL.andThen (hL.lift hwork) fun result => ?_
  cases result with
  | ok result => exact hL.andThen (hL.lift (hphase _)) fun _ => hL.ok _
  | error failure => exact hL.andThen (hL.lift (hphase _)) fun _ => hL.throw _

/-- Before a task is through, only tasks inside of it have put anything into the cache. -/
theorem open_runDefinition
    (hchild : ∀ id agentRef inputs,
      Always (fun log _ => Kept e log) (runChild id agentRef inputs).run) :
    Open (Kept e)
      (e.runDefinitionWith overlap.process identity d options runChild inputs).run := by
  have hP := Kept.mixable e
  have hL := hP.composable.always
  have htask (prepared : Json) : Always (fun log _ => Kept e log)
      (e.performTaskWith overlap.process identity d options runChild prepared).run :=
    hL.andThen (hL.lift (kept_reportAll _)) fun _ =>
      hL.andThen (hL.lift (kept_query fun _ => rfl)) fun id => kept_performWith (hchild id)
  refine open_andThen hP (hL.map _ (hL.ofExcept _)) fun prepared =>
    open_andThen hP (hL.lift (kept_query fun _ => rfl)) fun recalled => ?_
  cases recalled with
  | some outputs => exact (hL.ok outputs).open
  | none =>
    refine open_andThen hP (hL.map _ (htask prepared)) fun outputs => ?_
    -- as soon as its outputs are remembered the run is at its end
    exact open_map _ (open_query hP _)

/-- Whatever a run puts into the cache is in a ledger, however far the run goes. The induction is on
how deep agents may still be nested: a child has one level less. -/
theorem kept_run (depth : Nat) (projectId agentRef : String) (inputs : Json)
    (options : RunOptions) : Always (fun log _ => Kept e log)
      (e.runWith overlap.process depth projectId agentRef inputs options).run := by
  have hP := Kept.mixable e
  have hL := hP.composable.always
  induction depth generalizing projectId agentRef inputs options with
  | zero =>
    intro log es left h
    obtain ⟨rfl, -⟩ := advances_tooDeep h
    exact hP.nil
  | succ depth ih =>
  have hchild (projectId : String) (options : RunOptions) (id : TaskId) (agentRef : String)
      (inputs : Json) : Always (fun log _ => Kept e log)
        (e.childRunWith overlap.process depth projectId options id agentRef inputs).run :=
    hL.map _ (ih _ _ _ _)
  intro log es left hadvances
  by_cases hfinished : left.Finished
  · -- the run of a task that is through adds this task
    obtain ⟨res, rfl⟩ := hfinished
    rcases run_cases (runs_iff_advances.mpr hadvances) with ⟨-, hskips⟩ | ⟨r, hperforms, -⟩
    · exact .idle hskips.stored?_eq_none
    · have hwork : Always (fun log _ => Kept e log) (overlap.process r.context r.inputs).run := by
        rw [hperforms.context]
        exact overlap.always_process hP.composable
          (fun h => kept_does h fun _ _ => hchild _ _ _ _ _) hP.together _
      obtain ⟨tasks, htasks⟩ := hwork (runs_iff_advances.mp hperforms.ran)
      exact ⟨tasks ++ [r], hperforms.ledger htasks⟩
  · have hopen : Open (Kept e)
        (e.runWith overlap.process (depth + 1) projectId agentRef inputs options).run := by
      refine open_andThen hP (hL.map _ (kept_resolve _ _)) fun found => ?_
      cases found with
      | none =>
        change Open (Kept e) (if options.isRequired then throw _ else pure _ :
          ExceptT RunFailure Activity Json).run
        split
        · exact (hL.throw _).open
        · exact (hL.ok _).open
      | some found => exact open_runDefinition fun _ _ _ => hchild _ _ _ _ _
    exact hopen hadvances hfinished

end Engine

end Agents
