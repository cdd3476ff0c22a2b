import Agents.Proofs.Fingerprint
import Agents.Proofs.Run.InOrder
import Agents.Proofs.Run.Recall
import Agents.Run.Services
import Mathlib.Data.List.Forall2

/-! # Sessions with and without a cache

The same calls are made in two sessions whose services answer alike, one with a cache that is empty
at first and one without a cache. As long as no script puts what a child says into a document and
the steps of pipelines come in order, the first session exists if the second one does and gives the
same results, or two tasks of the second one have colliding fingerprints.

- What the cache holds are the outputs of tasks of the session without one, and stays so
  (`Pairing.same_run`).
- Two tasks of that session with the same agent and inputs end the same (`Noted.outcome_eq`). This
  is the case of an empty cache on both sides.
- So outputs that are known are those of the task that would be performed instead.

A script that quotes a child can tell whether its outputs were known (`duet_differs`). So can steps
that take turns: which of two failures comes first depends on what there is to wait for.
-/

namespace Agents

open Activity

/-! ## Tasks of the session without a cache -/

section Order

variable {e : Engine} {world : (q : Query) → q.Answer} {overlap : Overlap}

/-- The steps of a pipeline come one after another: there are no turns, or no agent that can be
found has neighbouring concurrent steps. -/
def Engine.RunsInOrder (e : Engine) (world : (q : Query) → q.Answer) (overlap : Overlap) : Prop :=
  overlap = .inOrder ∨ ∀ identity d, e.lookup world identity = .ok (some d) → d.IsSequential

theorem Engine.RunsInOrder.process_eq (h : e.RunsInOrder world overlap) {t : TaskContext}
    {identity : Identity} (hfound : e.lookup world identity = .ok (some t.definition)) :
    overlap.process t = t.process := by
  rcases h with rfl | hsequential
  · rw [Overlap.process_inOrder]
  · exact overlap.process_of_isSequential (hsequential _ _ hfound)

/-- The run of the task `r` is a part of the exchange, in one piece. -/
def Engine.PerformedInOrder (e : Engine) (world : (q : Query) → q.Answer) (r : TaskRun)
    (log : List Exchange) : Prop :=
  ∃ (overlap : Overlap) (depth : Nat) (projectId agentRef : String) (inputs : Json)
    (options : RunOptions) (own : List Exchange) (said : List Event),
    e.PerformsWith overlap.process depth projectId agentRef inputs options r own said ∧
    e.RunsInOrder world overlap ∧ own <:+: log

end Order

/-- A task of a session without a cache, in which every call allows for the same retries. -/
structure Noted (e : Engine) (world : (q : Query) → q.Answer) (retries : Option Nat)
    (whole : List Exchange) (r : TaskRun) : Prop where
  performed : e.PerformedInOrder world r whole
  served : Served none r.log
  follows : ∀ x ∈ r.log, x.Follows world r.context.options.deadline
  maxRetries : r.context.options.maxRetries = retries
  found : e.lookup world r.context.identity = .ok (some r.context.definition)

namespace Pairing

variable {p : Pairing} {e : Engine} {retries : Option Nat}

theorem Plain.of_infix {log part : List Exchange} (h : p.Plain log) (hpart : part <:+: log) :
    p.Plain part := by
  obtain ⟨lead, rest, rfl⟩ := hpart
  exact h.left.right

/-- The cache only holds what tasks end with in the session without one. -/
structure Remembers (p : Pairing) (e : Engine) (retries : Option Nat) : Prop where
  store : ∀ {cache r v}, p.Holds cache → Noted e p.world retries p.whole r → r.outcome = .ok v →
    p.Holds (cache.map (·.set r.key v))
  known : ∀ {cache r v}, p.Holds cache → Noted e p.world retries p.whole r →
    Cache.recall? r.key cache = some v → r.outcome = .ok v

/-- Options of a run in the session with a cache, and of one in the session without. -/
structure OptionsMatch (p : Pairing) (retries : Option Nat) (options options' : RunOptions) :
    Prop where
  maxRetries : options.maxRetries = retries
  maxRetries' : options'.maxRetries = retries
  deadline : options.deadline = p.deadline
  deadline' : options'.deadline = p.deadline'

theorem OptionsMatch.child {options options' : RunOptions}
    (h : p.OptionsMatch retries options options') (id id' : TaskId) :
    p.OptionsMatch retries
      { parentTaskId := some id, deadline := options.deadline, maxRetries := options.maxRetries }
      { parentTaskId := some id', deadline := options'.deadline
        maxRetries := options'.maxRetries } :=
  ⟨h.maxRetries, h.maxRetries', h.deadline, h.deadline'⟩

variable {projectId agentRef : String} {inputs : Json} {options options' : RunOptions}
  {depth depth' : Nat} {r r' : TaskRun} {log log' : List Exchange} {es es' : List Event}
  {overlap overlap' : Overlap}

theorem Plain.noted (h : p.Plain log')
    (hperforms :
      e.PerformsWith overlap'.process depth' projectId agentRef inputs options' r' log' es')
    (horder : e.RunsInOrder p.world overlap')
    (hoptions : p.OptionsMatch retries options options') :
    Noted e p.world retries p.whole r' := by
  have hwork := h.of_infix hperforms.isPart
  have hcontext : r'.context.options = options' := by rw [hperforms.context]; rfl
  refine ⟨?_, hwork.served, ?_, ?_, ?_⟩
  · exact ⟨overlap', depth', projectId, agentRef, inputs, options', log', es', hperforms, horder,
      h.part⟩
  · rw [hcontext, hoptions.deadline']
    exact hwork.follows
  · rw [hcontext, hoptions.maxRetries']
  · rw [hperforms.identity_eq]
    exact hperforms.lookup_eq h.follows

theorem Plain.early_or_performs {res : Except RunFailure Json} (h : p.Plain log')
    (hrun : Runs (e.runWith overlap'.process (depth' + 1) projectId agentRef inputs options').run
      log' es' res) :
    e.early? p.world projectId agentRef inputs options'.isRequired = some res ∨
      ∃ r, e.PerformsWith overlap'.process depth' projectId agentRef inputs options' r log' es' ∧
        res = r.outcome.mapError (⟨·, true⟩) := by
  rcases Engine.run_cases hrun with ⟨-, hskips⟩ | hperforms
  · rcases hskips.early_or_knows h.follows with hearly | ⟨_, _, _, hknows, -⟩
    · exact .inl hearly
    · exact absurd h.served hknows.not_served
  · exact .inr hperforms

/-- A task beside one that was performed, as long as their children are in step. -/
theorem beside_of_performs (depth : Nat) {projectId' agentRef' : String} {inputs' : Json}
    (h' : e.PerformsWith overlap'.process depth' projectId' agentRef' inputs' options' r' log' es')
    (hoptions : p.OptionsMatch retries options options') (id : TaskId)
    (hchild : ∀ agentRef inputs, p.Same
      (e.childRunWith overlap.process depth r'.context.identity.projectId options id agentRef
        inputs).run
      (e.childRunWith overlap'.process depth' r'.context.identity.projectId options' r'.id agentRef
        inputs).run) :
    p.Beside (e.taskContextWith overlap.process depth r'.context.identity r'.context.definition
      options id) r'.context := by
  have hcontext' : r'.context = e.taskContextWith overlap'.process depth' r'.context.identity
      r'.context.definition options' r'.id := by
    rw [h'.identity_eq]
    exact h'.context
  generalize r'.context.identity = identity, r'.context.definition = d at *
  rw [hcontext']
  exact ⟨rfl, rfl, rfl, hoptions.maxRetries.trans hoptions.maxRetries'.symm, hoptions.deadline,
    hoptions.deadline', hchild⟩

theorem inStep_performTask {identity : Identity} {d : Definition}
    {work' : Json → Fallible TaskResult}
    (hwork : ∀ id, p.Same
      (overlap.process (e.taskContextWith overlap.process depth identity d options id) inputs).run
      (work' inputs).run) :
    p.InStep (fun res res' => res = res'.map TaskResult.outputs)
      (e.performTaskWith overlap.process identity d options
        (e.childRunWith overlap.process depth identity.projectId options) inputs).run
      (work' inputs).run := by
  have hparts : (e.performTaskWith overlap.process identity d options
      (e.childRunWith overlap.process depth identity.projectId options) inputs).run = (do
        reportAll (Engine.greeting options)
        let id ← query .newTask
        let t := e.taskContextWith overlap.process depth identity d options id
        (t.performWith (overlap.process t) inputs).run) :=
    run_liftThen.trans (bind_congr fun _ => run_liftThen)
  rw [hparts]
  exact inStep_lead (alone_reportAll _) fun _ =>
    inStep_lead alone_newTask fun id => inStep_performWith _ (hwork id)

/-- The tasks of a run in both sessions end the same, and what they leave in the cache is right. -/
theorem Remembers.performs (hp : p.Remembers e retries) {cache : Option Cache}
    (hcache : p.Holds cache) (hcached : p.Cached cache log) (hplain : p.Plain log')
    (h : e.PerformsWith overlap.process depth projectId agentRef inputs options r log es)
    (h' : e.PerformsWith overlap'.process depth' projectId agentRef inputs options' r' log' es')
    (horder' : e.RunsInOrder p.world overlap')
    (hoptions : p.OptionsMatch retries options options') (hinputs : r'.inputs = r.inputs)
    (hwork : p.Same (overlap.process r.context r.inputs).run
      (overlap'.process r'.context r.inputs).run) :
    r.outcome = r'.outcome ∧ p.Holds (cacheAfter cache log) := by
  obtain ⟨lead, hlead, -, rfl⟩ := h.exists_lead
  have hrest := (cached_append.mp hcached).2
  rw [cacheAfter_of_stored?_eq_none hlead] at hrest
  have hran' : Runs (overlap'.process r'.context r.inputs).run r'.log r'.events r'.result :=
    hinputs ▸ h'.ran
  obtain ⟨hresult, hafter⟩ := hwork.agree hcache (cached_append.mp hrest).1
    (hplain.of_infix h'.isPart) h.ran hran'
  have houtcome : r.outcome = r'.outcome := congrArg (Except.map TaskResult.outputs) hresult
  have hkey : r.key = r'.key := by
    rw [TaskRun.key, TaskRun.key, h.identity_eq, h'.identity_eq, hinputs]
  refine ⟨houtcome, ?_⟩
  rw [cacheAfter_append, cacheAfter_of_stored?_eq_none hlead, cacheAfter_append]
  -- the outputs are remembered, if there are any
  cases hr : r.outcome with
  | ok v =>
    rw [r.remembering_of_ok hr, hkey]
    exact hp.store hafter (hplain.noted h' horder' hoptions) (houtcome.symm.trans hr)
  | error failure =>
    rw [r.remembering_of_error hr]
    exact hafter

theorem Beside.overlapping {t t' : TaskContext} {identity : Identity} (h : p.Beside t t')
    (horder : e.RunsInOrder p.world overlap) (horder' : e.RunsInOrder p.world overlap')
    (hquotes : ∀ identity d, e.lookup p.world identity = .ok (some d) →
      d.QuotesNone e.config.sandbox)
    (hengine : t.engine = e) (hfound : e.lookup p.world identity = .ok (some t.definition))
    (inputs : Json) :
    p.Same (overlap.process t inputs).run (overlap'.process t' inputs).run := by
  rw [horder.process_eq hfound, horder'.process_eq (h.definition ▸ hfound)]
  exact h.process (hengine ▸ hquotes _ _ hfound) inputs

/-- A run with a cache in which nothing is performed gives what the run without one gives. -/
theorem result_of_skips (hp : p.Remembers e retries) (horder' : e.RunsInOrder p.world overlap')
    (hoptions : p.OptionsMatch retries options options')
    (hrequired : options.isRequired = options'.isRequired) {res res' : Except RunFailure Json}
    (hcache : p.Holds cache) (hcached : p.Cached cache log) (hplain : p.Plain log')
    (hskips : e.Skips projectId agentRef inputs options.isRequired log res)
    (hrun' : Runs (e.runWith overlap'.process (depth' + 1) projectId agentRef inputs options').run
      log' es' res') : res = res' := by
  have hcases := hplain.early_or_performs hrun'
  rcases hskips.early_or_knows hcached.follows with hearly | ⟨d, prepared, outputs, hknows, rfl⟩
  · rw [hrequired] at hearly
    rcases hcases with hearly' | ⟨r', hperforms', -⟩
    · exact Option.some.inj (hearly.symm.trans hearly')
    · rw [Engine.early?_eq_none (hperforms'.lookup_eq hplain.follows) hperforms'.prepared] at hearly
      cases hearly
  · rcases hcases with hearly' | ⟨r', hperforms', rfl⟩
    · rw [Engine.early?_eq_none hknows.found hknows.accepted] at hearly'
      cases hearly'
    · obtain ⟨-, rfl⟩ := hperforms'.inputs_eq hplain.follows hknows.found hknows.accepted
      have hrecalled := hknows.recall?_eq hcached.served
      rw [← hperforms'.identity_eq] at hrecalled
      rw [hp.known hcache (hplain.noted hperforms' horder' hoptions) hrecalled]
      rfl

variable (hp : p.Remembers e retries) (horder : e.RunsInOrder p.world overlap)
  (horder' : e.RunsInOrder p.world overlap')
  (hquotes : ∀ identity d, e.lookup p.world identity = .ok (some d) →
    d.QuotesNone e.config.sandbox)

include hp horder horder' hquotes

/-- A task that is performed with a cache ends as the one that is performed without it, as long as
the two are beside each other. -/
theorem agree_of_performs {res' : Except RunFailure Json}
    (hoptions : p.OptionsMatch retries options options')
    (hcache : p.Holds cache) (hcached : p.Cached cache log) (hplain : p.Plain log')
    (h : e.PerformsWith overlap.process depth projectId agentRef inputs options r log es)
    (hrun' : Runs (e.runWith overlap'.process (depth' + 1) projectId agentRef inputs options').run
      log' es' res')
    (hbeside : ∀ {r'},
      e.PerformsWith overlap'.process depth' projectId agentRef inputs options' r' log' es' →
      p.Beside (e.taskContextWith overlap.process depth (Engine.referent projectId agentRef)
        r'.context.definition options r.id) r'.context) :
    r.outcome.mapError (⟨·, true⟩) = res' ∧ p.Holds (cacheAfter cache log) := by
  have hfound := h.lookup_eq hcached.follows
  rcases hplain.early_or_performs hrun' with hearly' | ⟨r', h', rfl⟩
  · rw [Engine.early?_eq_none hfound h.prepared] at hearly'
    cases hearly'
  · obtain ⟨hd, hinputs⟩ := h'.inputs_eq hplain.follows hfound h.prepared
    have hbeside := hbeside h'
    rw [hd, ← h.context] at hbeside
    have hengine : r.context.engine = e := by rw [h.context]; rfl
    obtain ⟨houtcome, hafter⟩ := hp.performs hcache hcached hplain h h' horder' hoptions hinputs
      (hbeside.overlapping horder horder' hquotes hengine hfound r.inputs)
    exact ⟨by rw [houtcome], hafter⟩

/-- A run of an agent gives the same in both sessions. -/
theorem same_run (depth depth' : Nat) (hdepth : p.Completes → depth' ≤ depth)
    (projectId agentRef : String) (inputs : Json) {options options' : RunOptions}
    (hoptions : p.OptionsMatch retries options options')
    (hrequired : options.isRequired = options'.isRequired) :
    p.Same (e.runWith overlap.process depth projectId agentRef inputs options).run
      (e.runWith overlap'.process depth' projectId agentRef inputs options').run := by
  induction depth generalizing depth' projectId agentRef inputs options options' with
  | zero =>
    refine ⟨fun _ _ _ h => absurd h not_runs_tooDeep, fun hcompletes _ _ _ _ _ _ h => ?_⟩
    obtain rfl : depth' = 0 := Nat.le_zero.mp (hdepth hcompletes)
    exact absurd h not_runs_tooDeep
  | succ depth ih =>
  cases depth' with
  | zero =>
    exact ⟨fun _ _ _ _ h => absurd h not_runs_tooDeep,
      fun _ _ _ _ _ _ _ h => absurd h not_runs_tooDeep⟩
  | succ depth' =>
  have hchild (identity : Identity) (id id' : TaskId) (agentRef : String) (inputs : Json) : p.Same
      (e.childRunWith overlap.process depth identity.projectId options id agentRef inputs).run
      (e.childRunWith overlap'.process depth' identity.projectId options' id' agentRef
        inputs).run :=
    same_adapt _ (ih depth' (fun h => Nat.le_of_succ_le_succ (hdepth h)) _ _ _
      (hoptions.child id id') rfl)
  have hbeside {r' log' es'}
      (h' : e.PerformsWith overlap'.process depth' projectId agentRef inputs options' r' log' es')
      (id : TaskId) : p.Beside (e.taskContextWith overlap.process depth
        (Engine.referent projectId agentRef) r'.context.definition options id) r'.context := by
    have hbeside := beside_of_performs depth h' hoptions id (hchild _ id r'.id)
    rwa [h'.identity_eq] at hbeside
  constructor
  case agree =>
    intro cache log es res log' es' res' hcache hcached hplain hrun hrun'
    rcases Engine.run_cases hrun with ⟨-, hskips⟩ | ⟨r, hperforms, rfl⟩
    · rw [cacheAfter_of_stored?_eq_none hskips.stored?_eq_none]
      exact ⟨result_of_skips hp horder' hoptions hrequired hcache hcached hplain hskips hrun',
        hcache⟩
    · exact agree_of_performs hp horder horder' hquotes hoptions hcache hcached hplain hperforms
        hrun' fun h' => hbeside h' r.id
  case complete =>
    intro hcompletes cache log' es' res' hcache hplain hrun'
    rcases hplain.early_or_performs hrun' with hearly | ⟨r', hperforms', rfl⟩
    · rw [← hrequired] at hearly
      exact Engine.finds_early hearly
    · have hfound := hperforms'.lookup_eq hplain.follows
      refine Engine.finds_run hfound ?_
      cases hknown : Cache.recall? (fingerprint (Engine.referent projectId agentRef) r'.inputs)
          cache with
      | some outputs => exact Engine.finds_known hperforms'.prepared hknown
      | none =>
        refine Engine.finds_performed hperforms'.prepared hknown ?_
        refine (inStep_performTask fun id => ?_).complete hcompletes hcache
          (hplain.of_infix hperforms'.isPart) hperforms'.ran
        exact (hbeside hperforms' id).overlapping horder horder' hquotes rfl hfound r'.inputs

end Pairing

/-! ## Equal tasks -/

section Sessions

variable {e : Engine} {world : (q : Query) → q.Answer} {retries : Option Nat}
  {whole : List Exchange}

def Pairing.uncached (world : (q : Query) → q.Answer) (whole : List Exchange)
    (deadline deadline' : Option Timestamp) : Pairing where
  world := world
  whole := whole
  Holds := (· = none)
  Completes := False
  deadline := deadline
  deadline' := deadline'

theorem Pairing.remembers_uncached (deadline deadline' : Option Timestamp) :
    (uncached world whole deadline deadline').Remembers e retries where
  store := by
    rintro _ _ _ rfl _ _
    rfl
  known := by
    rintro _ _ _ rfl _ hrecalled
    cases hrecalled

variable (hquotes : ∀ identity d, e.lookup world identity = .ok (some d) →
  d.QuotesNone e.config.sandbox)

include hquotes

/-- Without a cache, tasks of one agent with the same inputs end the same. -/
theorem Noted.outcome_eq {r r' : TaskRun} (h : Noted e world retries whole r)
    (h' : Noted e world retries whole r') (hidentity : r.context.identity = r'.context.identity)
    (hinputs : r.inputs = r'.inputs) : r.outcome = r'.outcome := by
  obtain ⟨overlap, depth, _, _, _, options, log, _, hperforms, horder, -⟩ := h.performed
  obtain ⟨overlap', depth', _, _, _, options', log', _, hperforms', horder', hpart'⟩ := h'.performed
  obtain rfl : r.context.options = options := by rw [hperforms.context]; rfl
  obtain rfl : r'.context.options = options' := by rw [hperforms'.context]; rfl
  have hd : r.context.definition = r'.context.definition := by
    have hfound := h.found
    rw [hidentity, h'.found] at hfound
    exact (Option.some.inj (Except.ok.inj hfound)).symm
  let p := Pairing.uncached world whole r.context.options.deadline r'.context.options.deadline
  have hmatch : p.OptionsMatch retries r.context.options r'.context.options :=
    ⟨h.maxRetries, h'.maxRetries, rfl, rfl⟩
  have hbeside := Pairing.beside_of_performs depth hperforms' hmatch r.id
    fun agentRef inputs => Pairing.same_adapt _ (Pairing.same_run
      (Pairing.remembers_uncached _ _) horder horder' hquotes _ _ False.elim _ _ _
      (hmatch.child r.id r'.id) rfl)
  rw [← hd, ← hidentity, hperforms.identity_eq, ← hperforms.context] at hbeside
  have hengine : r.context.engine = e := by rw [hperforms.context]; rfl
  have hcached : p.Cached none r.log := ⟨h.served, h.follows⟩
  have hplain : p.Plain r'.log :=
    ⟨h'.served, h'.follows, hperforms'.isPart.trans hpart'⟩
  have hran' : Runs (overlap'.process r'.context r.inputs).run r'.log r'.events r'.result :=
    hinputs ▸ hperforms'.ran
  have hresult := ((hbeside.overlapping horder horder' hquotes hengine h.found r.inputs).agree rfl
    hcached hplain hperforms.ran hran').1
  exact congrArg (Except.map TaskResult.outputs) hresult

omit hquotes

/-! ## What the cache holds -/

/-- The cache holds outputs of tasks of the session without one, under their fingerprints. -/
def HoldsOutputs (e : Engine) (world : (q : Query) → q.Answer) (retries : Option Nat)
    (whole : List Exchange) (cache : Option Cache) : Prop :=
  ∀ key v, Cache.recall? key cache = some v →
    ∃ r, Noted e world retries whole r ∧ r.key = key ∧ r.outcome = .ok v

def TaskRun.keyText (r : TaskRun) : String := fingerprintText r.context.identity r.inputs

/-- The fingerprints of two tasks of an exchange are one digest of different texts. -/
def Collides (e : Engine) (world : (q : Query) → q.Answer) (whole : List Exchange) : Prop :=
  ∃ r r', e.PerformedInOrder world r whole ∧ e.PerformedInOrder world r' whole ∧
    r.keyText ≠ r'.keyText ∧ Sha256.hex r.keyText.toUTF8.toList = Sha256.hex r'.keyText.toUTF8.toList

/-- Tasks with one text are of the same agent and on the same inputs. -/
theorem Noted.eq_of_keyText_eq (htokens : ∀ projectId agentRef d,
      e.lookup world (Engine.referent projectId agentRef) = .ok (some d) →
      (Engine.referent projectId agentRef).HasToken)
    {r r' : TaskRun} (h : Noted e world retries whole r) (h' : Noted e world retries whole r')
    (htext : r.keyText = r'.keyText) :
    r.context.identity = r'.context.identity ∧ r.inputs = r'.inputs := by
  obtain ⟨_, _, projectId, agentRef, _, _, _, _, hperforms, -⟩ := h.performed
  obtain ⟨_, _, projectId', agentRef', _, _, _, _, hperforms', -⟩ := h'.performed
  have hfound := h.found
  have hfound' := h'.found
  rw [TaskRun.keyText, TaskRun.keyText, hperforms.identity_eq, hperforms'.identity_eq] at htext
  rw [hperforms.identity_eq] at hfound
  rw [hperforms'.identity_eq] at hfound'
  rw [hperforms.identity_eq, hperforms'.identity_eq]
  exact fingerprintText_injective (htokens _ _ _ hfound) (htokens _ _ _ hfound')
    (Identity.normalize_toIdentity projectId agentRef)
    (Identity.normalize_toIdentity projectId' agentRef') htext

theorem HoldsOutputs.set {cache : Option Cache} {r : TaskRun} {v : Json}
    (h : HoldsOutputs e world retries whole cache) (hr : Noted e world retries whole r)
    (hv : r.outcome = .ok v) : HoldsOutputs e world retries whole (cache.map (·.set r.key v)) := by
  intro key v' hrecalled
  rcases Exchange.recall?_cacheAfter ⟨.remember r.key v, ()⟩ hrecalled with hbefore | hstored
  · exact h key v' hbefore
  · cases hstored
    exact ⟨r, hr, rfl, hv⟩

def Pairing.cachedBeside (e : Engine) (world : (q : Query) → q.Answer) (retries : Option Nat)
    (whole : List Exchange) (completes : Prop) (deadline deadline' : Option Timestamp) :
    Pairing where
  world := world
  whole := whole
  Holds := HoldsOutputs e world retries whole
  Completes := completes
  deadline := deadline
  deadline' := deadline'

variable (htokens : ∀ projectId agentRef d,
  e.lookup world (Engine.referent projectId agentRef) = .ok (some d) →
  (Engine.referent projectId agentRef).HasToken)

include htokens hquotes

/-- What is recalled is what the task would end with, if no fingerprints collide. -/
theorem Pairing.remembers_cachedBeside (hcollides : ¬ Collides e world whole) (completes : Prop)
    (deadline deadline' : Option Timestamp) :
    (cachedBeside e world retries whole completes deadline deadline').Remembers e retries where
  store := HoldsOutputs.set
  known := by
    intro cache r v hcache hr hrecalled
    obtain ⟨r', hr', hkey, hv⟩ := hcache _ _ hrecalled
    have htext : r'.keyText = r.keyText := by
      by_contra hdiffer
      exact hcollides ⟨r', r, hr'.performed, hr.performed, hdiffer, hkey⟩
    obtain ⟨hidentity, hinputs⟩ := hr'.eq_of_keyText_eq htokens hr htext
    rw [← hv]
    exact (hr'.outcome_eq hquotes hr hidentity hinputs).symm

omit htokens hquotes

/-! ## Calls -/

structure Call.Repeats (c c' : Call) : Prop where
  projectId : c.projectId = c'.projectId
  agentRef : c.agentRef = c'.agentRef
  inputs : c.inputs = c'.inputs
  options : c.options = c'.options

/-- Calls one after another, with services that answer as `world` does, ids and times apart. No
deadline passes, all calls allow for the same retries, and the steps of pipelines come in order. -/
structure Session (e : Engine) (world : (q : Query) → q.Answer) (retries : Option Nat)
    (start : Option Cache) (calls : List Call) : Prop where
  ran : ∀ c ∈ calls, c.Ran e
  served : Served start (exchangeOf calls)
  follows : ∀ c ∈ calls, ∀ x ∈ c.log, x.Follows world c.options.deadline
  maxRetries : ∀ c ∈ calls, c.options.maxRetries = retries
  inOrder : ∀ c ∈ calls, e.RunsInOrder world c.overlap

theorem exchangeOf_cons (c : Call) (calls : List Call) :
    exchangeOf (c :: calls) = c.log ++ exchangeOf calls := List.flatMap_cons

namespace Session

variable {start : Option Cache} {c : Call} {calls : List Call}

theorem nil (start : Option Cache) : Session e world retries start [] where
  ran := List.forall_mem_nil _
  served := trivial
  follows := List.forall_mem_nil _
  maxRetries := List.forall_mem_nil _
  inOrder := List.forall_mem_nil _

theorem cons (hran : c.Ran e) (hserved : Served start c.log)
    (hfollows : ∀ x ∈ c.log, x.Follows world c.options.deadline)
    (hretries : c.options.maxRetries = retries) (horder : e.RunsInOrder world c.overlap)
    (h : Session e world retries (cacheAfter start c.log) calls) :
    Session e world retries start (c :: calls) where
  ran := List.forall_mem_cons.mpr ⟨hran, h.ran⟩
  served := by
    rw [exchangeOf_cons]
    exact served_append.mpr ⟨hserved, h.served⟩
  follows := List.forall_mem_cons.mpr ⟨hfollows, h.follows⟩
  maxRetries := List.forall_mem_cons.mpr ⟨hretries, h.maxRetries⟩
  inOrder := List.forall_mem_cons.mpr ⟨horder, h.inOrder⟩

theorem tail (h : Session e world retries start (c :: calls)) :
    Session e world retries (cacheAfter start c.log) calls where
  ran := fun c' hc' => h.ran c' (List.mem_cons_of_mem c hc')
  served := (served_append.mp (exchangeOf_cons c calls ▸ h.served)).2
  follows := fun c' hc' => h.follows c' (List.mem_cons_of_mem c hc')
  maxRetries := fun c' hc' => h.maxRetries c' (List.mem_cons_of_mem c hc')
  inOrder := fun c' hc' => h.inOrder c' (List.mem_cons_of_mem c hc')

theorem first (h : Session e world retries start (c :: calls)) {log more : List Exchange}
    (hlog : c.log = log ++ more) :
    Served start log ∧ ∀ x ∈ log, x.Follows world c.options.deadline := by
  have hserved := h.served
  have hfollows := h.follows c List.mem_cons_self
  rw [exchangeOf_cons, hlog, List.append_assoc] at hserved
  rw [hlog] at hfollows
  exact ⟨(served_append.mp hserved).1, fun x hx => hfollows x (List.mem_append_left _ hx)⟩

theorem exists_run (h : Session e world retries start (c :: calls))
    (hpart : exchangeOf (c :: calls) <:+: whole) : ∃ log es res, log <:+: whole ∧
      Served start log ∧ (∀ x ∈ log, x.Follows world c.options.deadline) ∧
      Runs (e.runWith c.overlap.process c.depth c.projectId c.agentRef c.inputs c.options).run
        log es res ∧
      c.result = res.mapError RunFailure.error := by
  obtain ⟨log, es, ending, said, res, hlog, -, hrun, -, hres⟩ :=
    Engine.runs_execute (h.ran c List.mem_cons_self)
  obtain ⟨hserved, hfollows⟩ := h.first hlog
  rw [exchangeOf_cons, hlog, List.append_assoc] at hpart
  exact ⟨log, es, res, (List.prefix_append _ _).isInfix.trans hpart, hserved, hfollows, hrun, hres⟩

/-- The calls after the first one, as a part of the whole exchange. -/
theorem rest (h : Session e world retries none (c :: calls))
    (hpart : exchangeOf (c :: calls) <:+: whole) :
    Session e world retries none calls ∧ exchangeOf calls <:+: whole := by
  have htail := h.tail
  rw [cacheAfter_none] at htail
  rw [exchangeOf_cons] at hpart
  exact ⟨htail, (List.suffix_append _ _).isInfix.trans hpart⟩

end Session

include htokens hquotes

/-- The first call of a session with a cache gives what it gives without one. -/
theorem Session.first_result_eq (hcollides : ¬ Collides e world whole) {cache : Option Cache}
    {c c' : Call} {calls calls' : List Call} (hcache : HoldsOutputs e world retries whole cache)
    (hrepeats : c.Repeats c') (hcached : Session e world retries cache (c :: calls))
    (hplain : Session e world retries none (c' :: calls'))
    (hpart : exchangeOf (c' :: calls') <:+: whole) :
    c.result = c'.result ∧ HoldsOutputs e world retries whole (cacheAfter cache c.log) := by
  obtain ⟨log, es, ending, said, res, hlog, -, hrun, hending, hres⟩ :=
    Engine.runs_execute (hcached.ran c List.mem_cons_self)
  obtain ⟨log', es', res', hbegin, hserved', hfollows', hrun', hres'⟩ := hplain.exists_run hpart
  obtain ⟨hserved, hfollows⟩ := hcached.first hlog
  have hremembers : (Pairing.cachedBeside e world retries whole False c.options.deadline
      c'.options.deadline).Remembers e retries :=
    Pairing.remembers_cachedBeside hquotes htokens hcollides _ _ _
  rw [← hrepeats.projectId, ← hrepeats.agentRef, ← hrepeats.inputs] at hrun'
  have hsame := Pairing.same_run hremembers (hcached.inOrder c List.mem_cons_self)
    (hplain.inOrder c' List.mem_cons_self) hquotes c.depth c'.depth False.elim c.projectId
    c.agentRef c.inputs
    ⟨hcached.maxRetries c List.mem_cons_self, hplain.maxRetries c' List.mem_cons_self, rfl, rfl⟩
    (by rw [hrepeats.options])
  obtain ⟨rfl, hafter⟩ := hsame.agree hcache ⟨hserved, hfollows⟩ ⟨hserved', hfollows', hbegin⟩
    hrun hrun'
  refine ⟨hres.trans hres'.symm, ?_⟩
  -- an ERROR that is reported afterwards is not remembered
  rw [hlog, cacheAfter_append, cacheAfter_of_stored?_eq_none hending.stored?_eq_none]
  exact hafter

/-- The first call of a session can be made with a cache as well. -/
theorem Session.exists_first (hcollides : ¬ Collides e world whole) {cache : Option Cache}
    {c' : Call} {calls' : List Call} (hcache : HoldsOutputs e world retries whole cache)
    (hplain : Session e world retries none (c' :: calls'))
    (hpart : exchangeOf (c' :: calls') <:+: whole) :
    ∃ c : Call, c.Repeats c' ∧ c.overlap = c'.overlap ∧ c.Ran e ∧ Served cache c.log ∧
      ∀ x ∈ c.log, x.Follows world c.options.deadline := by
  obtain ⟨log', es', res', hbegin, hserved', hfollows', hrun', -⟩ := hplain.exists_run hpart
  have hremembers : (Pairing.cachedBeside e world retries whole True c'.options.deadline
      c'.options.deadline).Remembers e retries :=
    Pairing.remembers_cachedBeside hquotes htokens hcollides _ _ _
  have hretries := hplain.maxRetries c' List.mem_cons_self
  have horder := hplain.inOrder c' List.mem_cons_self
  have hsame := Pairing.same_run hremembers horder horder hquotes c'.depth c'.depth
    (fun _ => Nat.le_refl _) c'.projectId c'.agentRef c'.inputs ⟨hretries, hretries, rfl, rfl⟩ rfl
  obtain ⟨log, es, res, hcached, hran⟩ := Engine.finds_execute
    (hsame.complete trivial hcache ⟨hserved', hfollows', hbegin⟩ hrun')
  exact ⟨{ c' with log, events := es, result := res }, ⟨rfl, rfl, rfl, rfl⟩, rfl, hran,
    hcached.served, hcached.follows⟩

theorem Session.exists_cached (hcollides : ¬ Collides e world whole) {cache : Option Cache}
    {calls' : List Call} (hcache : HoldsOutputs e world retries whole cache)
    (hplain : Session e world retries none calls') (hpart : exchangeOf calls' <:+: whole) :
    ∃ calls, List.Forall₂ Call.Repeats calls calls' ∧ Session e world retries cache calls := by
  induction calls' generalizing cache with
  | nil => exact ⟨[], .nil, .nil cache⟩
  | cons c' rest' ih =>
    obtain ⟨c, hrepeats, hoverlap, hran, hserved, hfollows⟩ :=
      exists_first hquotes htokens hcollides hcache hplain hpart
    have hretries : c.options.maxRetries = retries := by
      rw [hrepeats.options]
      exact hplain.maxRetries c' List.mem_cons_self
    have horder : e.RunsInOrder world c.overlap := by
      rw [hoverlap]
      exact hplain.inOrder c' List.mem_cons_self
    obtain ⟨-, hafter⟩ := first_result_eq hquotes htokens hcollides hcache hrepeats
      (.cons hran hserved hfollows hretries horder (.nil _)) hplain hpart
    obtain ⟨hplain', hpart'⟩ := hplain.rest hpart
    obtain ⟨rest, hrepeats', hcached⟩ := ih hafter hplain' hpart'
    exact ⟨c :: rest, .cons hrepeats hrepeats',
      .cons hran hserved hfollows hretries horder hcached⟩

/-- The calls of a session with a cache give what they give without one, from any point on. -/
theorem Session.results_eq (hcollides : ¬ Collides e world whole) {cache : Option Cache}
    {calls calls' : List Call} (hcache : HoldsOutputs e world retries whole cache)
    (hrepeats : List.Forall₂ Call.Repeats calls calls')
    (hcached : Session e world retries cache calls) (hplain : Session e world retries none calls')
    (hpart : exchangeOf calls' <:+: whole) :
    calls.map Call.result = calls'.map Call.result := by
  induction hrepeats generalizing cache with
  | nil => rfl
  | @cons c c' rest rest' hfirst _ ih =>
    obtain ⟨hresult, hafter⟩ :=
      first_result_eq hquotes htokens hcollides hcache hfirst hcached hplain hpart
    obtain ⟨hplain', hpart'⟩ := hplain.rest hpart
    rw [List.map_cons, List.map_cons, hresult, ih hafter hcached.tail hplain' hpart']

omit htokens hquotes

/-- The cache is transparent: calls that can be made without a cache can be made with one that is
empty at first, and then they always give the same results, or the fingerprints of two tasks of the
session without a cache collide. Every agent that can be found has a token, no script puts what a
child says into a document, and steps that take turns have no neighbours that do. -/
theorem cache_transparent {calls' : List Call}
    (htokens : ∀ projectId agentRef d,
      e.lookup world (Engine.referent projectId agentRef) = .ok (some d) →
      (Engine.referent projectId agentRef).HasToken)
    (hquotes : ∀ identity d, e.lookup world identity = .ok (some d) →
      d.QuotesNone e.config.sandbox)
    (hplain : Session e world retries none calls') :
    Collides e world (exchangeOf calls') ∨
      (∃ calls, List.Forall₂ Call.Repeats calls calls' ∧
        Session e world retries (some {}) calls) ∧
      ∀ calls, List.Forall₂ Call.Repeats calls calls' → Session e world retries (some {}) calls →
        calls.map Call.result = calls'.map Call.result := by
  by_cases hcollides : Collides e world (exchangeOf calls')
  · exact .inl hcollides
  · have hempty : HoldsOutputs e world retries (exchangeOf calls') (some {}) := by
      intro key v hrecalled
      rw [recall?_start (.inr rfl)] at hrecalled
      cases hrecalled
    have hwhole := List.infix_refl (exchangeOf calls')
    exact .inr ⟨hplain.exists_cached hquotes htokens hcollides hempty hwhole,
      fun _ hrepeats hcached =>
        hcached.results_eq hquotes htokens hcollides hempty hrepeats hplain hwhole⟩

end Sessions

/-! ## A greeting that is remembered -/

/-- Answers for the examples: the greeter is to be found, and the model always says hello. -/
def frontDesk : (q : Query) → q.Answer
  | .model .. => .ok [.ok (.text "Hello")]
  | .memory _ => .ok []
  | .images .. | .endpoint _ | .http _ => .error .cancelled
  | .agent identity =>
    .ok (if identity = .inProject "hotel" "greeter" then some greeter else none)
  | .clock => ⟨0, 0⟩
  | .newTask => "a"
  | .recall _ => none
  | .remember .. => ()

/-- A hotel whose scripts may not compose documents. -/
def inn : Engine :=
  { hotel with config := { sandbox := { capabilities := [.log, .http, .runAgent] } } }

theorem found_greeter :
    Exchange.Follows frontDesk none
      ⟨.agent (Engine.referent "hotel" "greeter"), .ok (some greeter)⟩ := by
  have hreferent : Engine.referent "hotel" "greeter" = .inProject "hotel" "greeter" := by
    decide +kernel
  rw [hreferent]
  rfl

theorem greeter_of_lookup_inn {identity : Identity} {d : Definition}
    (h : inn.lookup frontDesk identity = .ok (some d)) :
    identity = .inProject "hotel" "greeter" ∧ d = greeter := by
  have hown : (if identity.isLocalTo inn.project.id then inn.project.agent? identity.agentId
      else none) = none := by
    split <;> rfl
  rw [Engine.lookup, hown] at h
  change Except.ok (if identity = .inProject "hotel" "greeter" then some greeter else none) = _ at h
  split at h
  · next hgreeter =>
    cases h
    exact ⟨hgreeter, rfl⟩
  · cases h

theorem hasToken_of_lookup_inn {identity : Identity} {d : Definition}
    (h : inn.lookup frontDesk identity = .ok (some d)) : identity.HasToken := by
  rw [(greeter_of_lookup_inn h).1]
  exact ⟨by decide, by decide, by decide, by decide, by decide⟩

theorem runsInOrder_inn (overlap : Overlap) : inn.RunsInOrder frontDesk overlap := by
  refine .inr fun identity d h spec hkind => ?_
  rw [(greeter_of_lookup_inn h).2] at hkind
  cases hkind
  exact .nil

theorem follows_clock (world : (q : Query) → q.Answer) (now : Timestamp) :
    Exchange.Follows world none ⟨.clock, now⟩ := fun d hd => absurd hd (Option.not_mem_none d)

theorem greeter_performed (overlap : Overlap) {cache : Option Cache}
    (h : Cache.recall? greeterKey cache = none) : ∃ log es,
      Runs (inn.executeWith overlap.process 1 "hotel" "greeter" .null {}).run log es
        (.ok greeting) ∧
      Served cache log ∧ (∀ x ∈ log, x.Follows frontDesk none) ∧
      cacheAfter cache log = cache.map (·.set greeterKey greeting) := by
  have hnone (agentId : String) : inn.project.agent? agentId = none := rfl
  simp only [Engine.executeWith, Engine.runWith, Engine.resolve_eq_query, hnone, implies_true]
  refine ⟨_, _, .answered ⟨.agent _, .ok (some greeter)⟩ <| .answered ⟨.recall _, none⟩ <|
    .answered ⟨.newTask, "a"⟩ <| .report _ <| .answered ⟨.clock, ⟨0, 0⟩⟩ <| .report _ <|
    .answered ⟨.clock, ⟨0, 0⟩⟩ <| .report _ <| .answered ⟨.remember _ _, ()⟩ <| .done _, ?_, ?_, ?_⟩
  · exact ⟨trivial, h.symm, trivial, trivial, trivial, trivial, trivial⟩
  · simp only [List.forall_mem_cons]
    exact ⟨found_greeter, trivial, trivial, follows_clock _ _, follows_clock _ _, trivial,
      List.forall_mem_nil _⟩
  · rfl

theorem greeter_known (overlap : Overlap) {cache : Option Cache}
    (h : Cache.recall? greeterKey cache = some greeting) : ∃ log,
      Runs (inn.executeWith overlap.process 1 "hotel" "greeter" .null {}).run log []
        (.ok greeting) ∧
      Served cache log ∧ ∀ x ∈ log, x.Follows frontDesk none := by
  have hnone (agentId : String) : inn.project.agent? agentId = none := rfl
  simp only [Engine.executeWith, Engine.runWith, Engine.resolve_eq_query, hnone, implies_true]
  refine ⟨_, .answered ⟨.agent _, .ok (some greeter)⟩ <| .answered ⟨.recall _, some greeting⟩ <|
    .done _, ?_, ?_⟩
  · exact ⟨trivial, h.symm, trivial⟩
  · simp only [List.forall_mem_cons]
    exact ⟨found_greeter, trivial, List.forall_mem_nil _⟩

theorem recall?_set_self (key : String) (v : Json) (cache : Cache) :
    Cache.recall? key ((some cache).map (·.set key v)) = some v := Cache.get?_set_self key v cache

/-- The second of two equal calls has no task of its own with a cache, and gives the same. -/
theorem cache_transparent_greeter : ∃ first second plain plain' : Call,
    Session inn frontDesk none (some {}) [first, second] ∧ second.events = [] ∧
    Session inn frontDesk none none [plain, plain'] ∧ plain.overlap ≠ .inOrder ∧
    (Collides inn frontDesk (exchangeOf [plain, plain']) ∨
      [first, second].map Call.result = [plain, plain'].map Call.result) := by
  -- without a cache, steps would take turns
  let turns : Overlap := .atStart fun _ => true
  have hturns : turns ≠ .inOrder := fun h =>
    absurd (congrArg (fun overlap : Overlap => (overlap.turns "a" 0 1).length) h) (by decide)
  obtain ⟨log, es, hfirst, hserved, hfollows, hcache⟩ :=
    greeter_performed .inOrder (recall?_start (.inr rfl) greeterKey)
  have hknown : Cache.recall? greeterKey (cacheAfter (some {}) log) = some greeting := by
    rw [hcache]
    exact recall?_set_self greeterKey greeting {}
  obtain ⟨log₂, hsecond, hserved₂, hfollows₂⟩ := greeter_known .inOrder hknown
  obtain ⟨log', es', hplain, hserved', hfollows', -⟩ :=
    greeter_performed turns (recall?_start (.inl rfl) greeterKey)
  let call (log : List Exchange) (es : List Event) (overlap : Overlap) : Call :=
    ⟨1, "hotel", "greeter", .null, {}, log, es, .ok greeting, overlap⟩
  have hcached : Session inn frontDesk none (some {})
      [call log es .inOrder, call log₂ [] .inOrder] :=
    .cons hfirst hserved hfollows rfl (runsInOrder_inn _) <|
      .cons hsecond hserved₂ hfollows₂ rfl (runsInOrder_inn _) <| .nil _
  have huncached : Session inn frontDesk none none [call log' es' turns, call log' es' turns] := by
    refine .cons hplain hserved' hfollows' rfl (runsInOrder_inn _) ?_
    rw [cacheAfter_none]
    exact .cons hplain hserved' hfollows' rfl (runsInOrder_inn _) <| .nil _
  have hrepeats : List.Forall₂ Call.Repeats [call log es .inOrder, call log₂ [] .inOrder]
      [call log' es' turns, call log' es' turns] :=
    .cons ⟨rfl, rfl, rfl, rfl⟩ <| .cons ⟨rfl, rfl, rfl, rfl⟩ .nil
  have htransparent := cache_transparent (fun _ _ _ => hasToken_of_lookup_inn)
    (fun _ d _ => d.quotesNone_of_not_granted rfl) huncached
  exact ⟨_, _, _, _, hcached, rfl, huncached, hturns,
    htransparent.imp_right fun hsame => hsame.2 _ hrepeats hcached⟩

/-! ## A child that is quoted -/

def Services.ofWorld (world : (q : Query) → q.Answer) : Services Id where
  model messages settings := world (.model messages settings)
  images prompt settings count := world (.images prompt settings count)
  agent identity := world (.agent identity)
  endpoint name := world (.endpoint name)
  memory identity := world (.memory identity)
  http request := world (.http request)
  clock := world .clock
  newTask := world .newTask
  report _ := ()

theorem Services.ofWorld_answer (world : (q : Query) → q.Answer) (q : Query)
    (cache : Option Cache) : ∃ answer, Exchange.IsServedBy cache ⟨q, answer⟩ ∧
      Exchange.Follows world none ⟨q, answer⟩ ∧
      ((ofWorld world).answer q).run cache = (answer, Exchange.cacheAfter cache ⟨q, answer⟩) := by
  cases q with
  | «recall» key => exact ⟨_, rfl, trivial, rfl⟩
  | remember key outputs => exact ⟨_, trivial, trivial, rfl⟩
  | clock => exact ⟨_, trivial, follows_clock world _, rfl⟩
  | newTask => exact ⟨_, trivial, trivial, rfl⟩
  | _ => exact ⟨_, trivial, rfl, rfl⟩

theorem runs_of_world {world : (q : Query) → q.Answer} {α : Type} {a : Activity α} {r : α}
    {cache : Option Cache} (h : (((Services.ofWorld world).serve a).run cache).1 = some r) :
    ∃ log es, Runs a log es r ∧ Served cache log ∧ ∀ x ∈ log, x.Follows world none := by
  induction a generalizing cache with
  | done result =>
    cases h
    exact ⟨[], [], .done r, trivial, List.forall_mem_nil _⟩
  | report event rest ih =>
    obtain ⟨log, es, hrun, hserved, hfollows⟩ := ih h
    exact ⟨log, event :: es, .report event hrun, hserved, hfollows⟩
  | ask q resume ih =>
    obtain ⟨answer, hserved₁, hfollows₁, hanswer⟩ := Services.ofWorld_answer world q cache
    have hstep : ((Services.ofWorld world).serve (.ask q resume)).run cache =
        (fun p => ((Services.ofWorld world).serve (resume p.1)).run p.2)
          (((Services.ofWorld world).answer q).run cache) := rfl
    rw [hstep, hanswer] at h
    obtain ⟨log, es, hrun, hserved, hfollows⟩ := ih answer h
    exact ⟨_, es, .ask answer hrun, ⟨hserved₁, hserved⟩, List.forall_mem_cons.mpr
      ⟨hfollows₁, hfollows⟩⟩
  | tooDeep => cases h

def speaker : Definition :=
  { id := "speaker", name := "Speaker", outputs := [{ name := "text", streamingText := true }]
    kind := .modelPrompt { messages := [⟨.user, "Greet."⟩] } }

/-- A script that quotes the speaker twice. -/
def duet : Definition :=
  { id := "duet", name := "Duet"
    kind := .scriptedLogic { source :=
      "fn say() \x7b json([agent(\"speaker\", #\x7b\x7d)]) \x7d #\x7ba: say(), b: say()\x7d" } }

def stage : Engine := { project := { id := "stage", agents := [speaker, duet] }, model := some {} }

def resultText : Except Error Json → String
  | .ok outputs => outputs.compact
  | .error failure => failure.message

def duetText (cache : Option Cache) : Option String :=
  (((Services.ofWorld frontDesk).serve (stage.execute 3 "stage" "duet" .null {}).run).run cache).1
    |>.map resultText

theorem exists_duet {cache : Option Cache} {text : String} (h : duetText cache = some text) :
    ∃ c : Call, Session stage frontDesk none cache [c] ∧
      c.Repeats ⟨3, "stage", "duet", .null, {}, [], [], .ok .null, .inOrder⟩ ∧
      resultText c.result = text := by
  obtain ⟨r, hr, htext⟩ := Option.map_eq_some_iff.mp h
  obtain ⟨log, es, hrun, hserved, hfollows⟩ := runs_of_world hr
  rw [← Engine.executeWith_inOrder] at hrun
  exact ⟨⟨3, "stage", "duet", .null, {}, log, es, r, .inOrder⟩,
    .cons hrun hserved hfollows rfl (.inl rfl) (.nil _), ⟨rfl, rfl, rfl, rfl⟩, htext⟩

/-- With a cache the duet quotes the speaker once, and without one it does so twice. -/
theorem duet_differs : ∃ c c' : Call, Session stage frontDesk none (some {}) [c] ∧
    Session stage frontDesk none none [c'] ∧ c.Repeats c' ∧ c.result ≠ c'.result := by
  have hcached : duetText (some {}) = some "\x7b\"a\":\"Hello\",\"b\":\"\"\x7d" := by
    decide +kernel
  have hplain : duetText none = some "\x7b\"a\":\"Hello\",\"b\":\"Hello\"\x7d" := by
    decide +kernel
  obtain ⟨c, hc, hrepeats, htext⟩ := exists_duet hcached
  obtain ⟨c', hc', hrepeats', htext'⟩ := exists_duet hplain
  refine ⟨c, c', hc, hc', ⟨hrepeats.projectId.trans hrepeats'.projectId.symm,
    hrepeats.agentRef.trans hrepeats'.agentRef.symm, hrepeats.inputs.trans hrepeats'.inputs.symm,
    hrepeats.options.trans hrepeats'.options.symm⟩, fun hsame => ?_⟩
  rw [hsame, htext'] at htext
  exact absurd htext (by decide)

end Agents
