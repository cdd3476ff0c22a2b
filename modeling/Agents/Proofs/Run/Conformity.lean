import Agents.Cache
import Agents.Proofs.Run.InOrder
import Agents.Proofs.Run.Ledger

/-! # Results of calls, with and without a cache

Agents are called one after another, the concurrent steps of each call overlap in some way, and what
a call asks of the cache is answered from what was left there before.

- Whatever is in the cache is the outputs of a task with that fingerprint, since only tasks put
  anything there (`Ledger`).
- A call that returns a value returns the outputs of a task, of this call or of an earlier one, and
  these meet the schema of the task's agent, unless the task is a decision that chose to stop. The
  only other value is `null`, for an agent that is not there and need not be.

Outputs that were remembered are not looked at again. If an agent was defined anew in between, they
meet the schema that it had before (`redefined_greeter`).
-/

namespace Agents

open Activity

/-! ## The cache during an exchange -/

/-- What is remembered under a fingerprint; without a cache, nothing. -/
def Cache.recall? (key : String) (cache : Option Cache) : Option Json := cache.bind (·.get? key)

namespace Exchange

def cacheAfter (cache : Option Cache) : Exchange → Option Cache
  | ⟨.remember key outputs, _⟩ => cache.map (·.set key outputs)
  | _ => cache

/-- Whatever is asked of the cache is answered from it. -/
def IsServedBy (cache : Option Cache) : Exchange → Prop
  | ⟨.recall key, answer⟩ => answer = Cache.recall? key cache
  | _ => True

end Exchange

def cacheAfter (cache : Option Cache) (log : List Exchange) : Option Cache :=
  log.foldl Exchange.cacheAfter cache

/-- The cache answers what it is asked for, and keeps what it is given. -/
def Served : Option Cache → List Exchange → Prop
  | _, [] => True
  | cache, x :: log => x.IsServedBy cache ∧ Served (x.cacheAfter cache) log

section Serving

variable {cache : Option Cache} {log more : List Exchange}

theorem served_append :
    Served cache (log ++ more) ↔ Served cache log ∧ Served (cacheAfter cache log) more := by
  induction log generalizing cache with
  | nil => exact (and_iff_right trivial).symm
  | cons x rest ih =>
    show x.IsServedBy cache ∧ Served (x.cacheAfter cache) (rest ++ more) ↔
      (x.IsServedBy cache ∧ Served (x.cacheAfter cache) rest) ∧ _
    rw [ih, and_assoc]
    rfl

theorem Exchange.cacheAfter_of_stored?_eq_none {x : Exchange} (h : x.stored? = none)
    (cache : Option Cache) : x.cacheAfter cache = cache := by
  obtain ⟨q, answer⟩ := x
  cases q <;> first | rfl | cases h

theorem cacheAfter_of_stored?_eq_none {log : List Exchange} (h : ∀ x ∈ log, x.stored? = none)
    (cache : Option Cache) : cacheAfter cache log = cache := by
  induction log with
  | nil => rfl
  | cons x rest ih =>
    change cacheAfter (x.cacheAfter cache) rest = cache
    rw [x.cacheAfter_of_stored?_eq_none (h x List.mem_cons_self)]
    exact ih fun y hy => h y (List.mem_cons_of_mem x hy)

theorem cacheAfter_append (cache : Option Cache) (log more : List Exchange) :
    cacheAfter cache (log ++ more) = cacheAfter (cacheAfter cache log) more := List.foldl_append

@[simp] theorem cacheAfter_none (log : List Exchange) : cacheAfter none log = none := by
  induction log with
  | nil => rfl
  | cons x rest ih =>
    have hnone : x.cacheAfter none = none := by
      obtain ⟨q, answer⟩ := x
      cases q <;> rfl
    change cacheAfter (x.cacheAfter none) rest = none
    rw [hnone, ih]

/-- What one answer leaves in the cache was there before, or is put there. -/
theorem Exchange.recall?_cacheAfter (x : Exchange) {key : String} {outputs : Json}
    (h : Cache.recall? key (x.cacheAfter cache) = some outputs) :
    Cache.recall? key cache = some outputs ∨ x.stored? = some (key, outputs) := by
  unfold cacheAfter at h
  split at h
  · next key' outputs' _ =>
    cases cache with
    | none => cases h
    | some c =>
      change (c.set key' outputs').get? key = some outputs at h
      by_cases hkey : key = key'
      · subst hkey
        rw [Cache.get?_set_self] at h
        cases h
        exact .inr rfl
      · rw [Cache.get?_set_ne hkey] at h
        exact .inl h
  · exact .inl h

/-- What an exchange leaves in the cache was there before, or is put there. -/
theorem recall?_cacheAfter {key : String} {outputs : Json}
    (h : Cache.recall? key (cacheAfter cache log) = some outputs) :
    Cache.recall? key cache = some outputs ∨ (key, outputs) ∈ storedEntries log := by
  induction log generalizing cache with
  | nil => exact .inl h
  | cons x rest ih =>
    have hcons : storedEntries (x :: rest) = storedEntries [x] ++ storedEntries rest :=
      storedEntries_append [x] rest
    rw [hcons]
    rcases ih h with hbefore | hrest
    · rcases x.recall?_cacheAfter hbefore with hfirst | hstored
      · exact .inl hfirst
      · exact .inr (List.mem_append_left _ (by simp [storedEntries, hstored]))
    · exact .inr (List.mem_append_right _ hrest)

end Serving

/-! ## Calls -/

/-- An agent that is run from outside, and how the run goes. -/
structure Call where
  depth : Nat
  projectId : String
  agentRef : String
  inputs : Json
  options : RunOptions
  log : List Exchange
  events : List Event
  result : Except Error Json
  /-- How the concurrent steps of pipelines overlap meanwhile. -/
  overlap : Overlap := .inOrder

def exchangeOf (calls : List Call) : List Exchange := calls.flatMap Call.log

namespace Call

def Ran (e : Engine) (c : Call) : Prop :=
  Runs (e.executeWith c.overlap.process c.depth c.projectId c.agentRef c.inputs c.options).run
    c.log c.events c.result

def identity (c : Call) : Identity := Engine.referent c.projectId c.agentRef

/-- What becomes of the agent when it is looked for. -/
def Found (e : Engine) (c : Call) (found : Except Error (Option Definition)) : Prop :=
  ∃ finding, finding <+: c.log ∧ e.Finds c.identity finding found

variable {e : Engine} {c : Call}

theorem kept (h : c.Ran e) : Kept e c.log := by
  obtain ⟨log₁, es₁, log₂, ending, res, hlog, _, hrun, hending, _⟩ := Engine.runs_execute h
  rw [hlog]
  exact (Kept.mixable e).append (Engine.kept_run _ _ _ _ _ (runs_iff_advances.mp hrun))
    (.idle hending.stored?_eq_none)

/-- A call that returns a value did not find the agent, knew the outputs, or ran a task. -/
theorem value_cases (h : c.Ran e) {v : Json} (hv : c.result = .ok v) :
    (c.Found e (.ok none) ∧ c.options.isRequired = false ∧ v = .null) ∨
    ∃ d prepared, c.Found e (.ok (some d)) ∧ prepareInputs d c.inputs = .ok prepared ∧
      ((∃ finding, e.Finds c.identity finding (.ok (some d)) ∧
          c.log = finding ++ [⟨.recall (fingerprint c.identity prepared), some v⟩]) ∨
        ∃ depth log es r,
          e.PerformsWith c.overlap.process depth c.projectId c.agentRef c.inputs c.options r
            log es ∧
          log <+: c.log ∧ r.context.definition = d ∧ r.inputs = prepared ∧ r.outcome = .ok v) := by
  obtain ⟨log₁, es₁, log₂, ending, res, hlog, _, hrun, hending, hres⟩ := Engine.runs_execute h
  rw [hv] at hres
  cases res with
  | error failure => cases hres
  | ok v' =>
  cases hres
  -- a run that ends well reports nothing afterwards
  have hlog₂ : log₂ = [] := by
    cases hending with
    | error now hfailed _ _ => cases hfailed
    | silent _ => rfl
  subst hlog₂
  rw [List.append_nil] at hlog
  cases hdepth : c.depth with
  | zero =>
    rw [hdepth] at hrun
    exact absurd hrun not_runs_tooDeep
  | succ depth =>
  rw [hdepth] at hrun
  rcases Engine.run_cases hrun with ⟨_, hskips⟩ | ⟨r, hperforms, houtcome⟩
  · cases hskips with
    | absent hfinds hrequired =>
      exact .inl ⟨⟨log₁, hlog ▸ List.prefix_refl _, hfinds⟩, hrequired, rfl⟩
    | @known finding d prepared _ hfinds hprepared =>
      refine .inr ⟨d, prepared, ⟨finding, ?_, hfinds⟩, hprepared, .inl ⟨finding, hfinds, hlog⟩⟩
      rw [hlog]
      exact List.prefix_append _ _
  · obtain ⟨finding, before, hfinds, _, hsplit⟩ := hperforms.found
    refine .inr ⟨r.context.definition, r.inputs, ⟨finding, ?_, hfinds⟩, hperforms.prepared,
      .inr ⟨depth, log₁, es₁, r, hperforms, hlog ▸ List.prefix_refl _, rfl, rfl, ?_⟩⟩
    · rw [hlog, hsplit]
      exact List.prefix_append _ _
    · cases hr : r.outcome with
      | ok v' => rw [hr] at houtcome; cases houtcome; rfl
      | error failure => rw [hr] at houtcome; cases houtcome

end Call

/-! ## Sessions -/

/-- Two runs have one fingerprint, though the agents or their inputs differ. -/
def Collision (identity identity' : Identity) (inputs inputs' : Json) : Prop :=
  fingerprint identity inputs = fingerprint identity' inputs' ∧
    ¬ (identity = identity' ∧ inputs = inputs')

/-- An agent was asked for more than once, and it was not the same one. -/
def Redefined (identity : Identity) (log : List Exchange) : Prop :=
  ∃ d d' : Definition, d ≠ d' ∧ ⟨.agent identity, .ok (some d)⟩ ∈ log ∧
    ⟨.agent identity, .ok (some d')⟩ ∈ log

section Sessions

variable {e : Engine}

theorem exchangeOf_append (calls more : List Call) :
    exchangeOf (calls ++ more) = exchangeOf calls ++ exchangeOf more := List.flatMap_append

theorem exchangeOf_singleton (c : Call) : exchangeOf [c] = c.log := by
  simp [exchangeOf]

theorem ledger_of_calls {calls : List Call} (hran : ∀ c ∈ calls, c.Ran e) :
    ∃ tasks, Ledger e (exchangeOf calls) tasks := by
  induction calls with
  | nil => exact (Kept.mixable e).nil
  | cons c rest ih =>
    exact (Kept.mixable e).append (Call.kept (hran c List.mem_cons_self))
      (ih fun c' hc' => hran c' (List.mem_cons_of_mem _ hc'))

/-- One agent has one definition, unless it was asked for more than once. -/
theorem Engine.Finds.unique {identity : Identity} {log log' all : List Exchange}
    {d d' : Definition} (h : e.Finds identity log (.ok (some d)))
    (h' : e.Finds identity log' (.ok (some d'))) (hlog : log ⊆ all) (hlog' : log' ⊆ all) :
    d = d' ∨ Redefined identity all := by
  cases h with
  | own hlocal hd =>
    cases h' with
    | own _ hd' =>
      rw [hd] at hd'
      exact .inl (Option.some.inj hd')
    | asked _ hnone =>
      rw [hnone hlocal] at hd
      cases hd
  | asked _ hnone =>
    cases h' with
    | own hlocal hd' =>
      rw [hnone hlocal] at hd'
      cases hd'
    | asked _ _ =>
      by_cases hsame : d = d'
      · exact .inl hsame
      · exact .inr ⟨d, d', hsame, hlog List.mem_cons_self, hlog' List.mem_cons_self⟩

/-- What a task ends well with meets the schema of its agent, or the task chose to stop. -/
theorem Engine.PerformsWith.conforms {overlap : Overlap} {depth : Nat}
    {projectId agentRef : String} {inputs : Json} {options : RunOptions} {r : TaskRun}
    {log : List Exchange} {es : List Event} {v : Json}
    (h : e.PerformsWith overlap.process depth projectId agentRef inputs options r log es)
    (hv : r.outcome = .ok v) :
    e.verifier.accepts (.full r.context.definition) v = true ∨
      (r.context.ChoseToStop r.inputs r.log ∧ v = .obj []) := by
  have hengine : r.context.engine = e := by rw [h.context]; rfl
  have hran : r.RanAs overlap.process := h.ran
  unfold TaskRun.outcome at hv
  unfold TaskRun.RanAs at hran
  cases hresult : r.result with
  | error failure => rw [hresult] at hv; cases hv
  | ok result =>
    rw [hresult] at hv hran
    cases hv
    rcases overlap.process_outcome hran with ⟨hstop, rfl⟩ | ⟨_, haccepted⟩
    · exact .inr ⟨hstop, rfl⟩
    · rw [← hengine]
      exact .inl haccepted

/-- A task with the fingerprint of a call is one of the same agent on the same inputs, unless two
fingerprints collide, or the agent was defined anew in between. -/
theorem Engine.PerformsWith.same_or_collides {work : TaskContext → Json → Fallible TaskResult}
    {depth : Nat} {projectId agentRef : String} {inputs : Json} {options : RunOptions} {r : TaskRun}
    {log finding whole : List Exchange} {es : List Event} {identity : Identity} {d : Definition}
    {prepared : Json}
    (h : e.PerformsWith work depth projectId agentRef inputs options r log es) (hlog : log ⊆ whole)
    (hfinds : e.Finds identity finding (.ok (some d))) (hfinding : finding ⊆ whole)
    (hkey : r.key = fingerprint identity prepared) :
    (r.context.identity = identity ∧ r.inputs = prepared ∧ r.context.definition = d) ∨
      Collision r.context.identity identity r.inputs prepared ∨ Redefined identity whole := by
  by_cases hsame : r.context.identity = identity ∧ r.inputs = prepared
  · obtain ⟨finding', before, hfinds', _, hsplit⟩ := h.found
    have hreferent : r.context.identity = Engine.referent projectId agentRef := by
      rw [h.context]
      rfl
    have hfinding' : finding' ⊆ whole := by
      rw [hsplit] at hlog
      exact List.Subset.trans (List.subset_append_left _ _) hlog
    rw [← hreferent, hsame.1] at hfinds'
    -- the same agent was found twice, with one definition or with two
    rcases hfinds'.unique hfinds hfinding' hfinding with hd | hredefined
    · exact .inl ⟨hsame.1, hsame.2, hd⟩
    · exact .inr (.inr hredefined)
  · exact .inr (.inl ⟨hkey, hsame⟩)

theorem recall?_start {start : Option Cache} (hstart : start = none ∨ start = some {})
    (key : String) : Cache.recall? key start = none := by
  rcases hstart with rfl | rfl <;> rfl

/-- What is in the cache after some calls is the outputs of one of their tasks. -/
theorem exists_of_recall? {start : Option Cache} (hstart : start = none ∨ start = some {})
    {log : List Exchange} {tasks : List TaskRun} (hledger : Ledger e log tasks) {key : String}
    {v : Json} (hfound : Cache.recall? key (cacheAfter start log) = some v) :
    ∃ r ∈ tasks, r.key = key ∧ r.outcome = .ok v := by
  rcases recall?_cacheAfter hfound with hbefore | hstored
  · rw [recall?_start hstart] at hbefore
    cases hbefore
  · exact hledger.exists_of_stored hstored

/-- What is recalled at the begin of a call is the outputs of a task of an earlier one. -/
theorem exists_of_recalled {start : Option Cache} (hstart : start = none ∨ start = some {})
    {earlier : List Call} {finding : List Exchange} {identity : Identity} {key : String}
    {found : Except Error (Option Definition)} {v : Json} (hran : ∀ c ∈ earlier, c.Ran e)
    (hfinds : e.Finds identity finding found)
    (hserved : Served start (exchangeOf earlier ++ (finding ++ [⟨.recall key, some v⟩]))) :
    ∃ r, e.Performed r (exchangeOf earlier) ∧ r.key = key ∧ r.outcome = .ok v := by
  obtain ⟨tasks, htasks⟩ := ledger_of_calls hran
  have hfound : Cache.recall? key (cacheAfter start (exchangeOf earlier)) = some v := by
    have hrecalled := (served_append.mp (served_append.mp hserved).2).2.1
    rw [cacheAfter_of_stored?_eq_none hfinds.stored?_eq_none] at hrecalled
    exact hrecalled.symm
  obtain ⟨r, hr, hkey, hv⟩ := exists_of_recall? hstart htasks hfound
  exact ⟨r, htasks.performed r hr, hkey, hv⟩

/-- Calls one after another, without a cache or with one that is empty at first. Whatever is in the
cache afterwards is the outputs of a task with that fingerprint. A call that returns a value returns
the outputs of a task, of this call or of an earlier one with the same fingerprint, and these meet
the schema that the agent had in that task. It is the schema that the agent has now, unless the
agent was defined anew meanwhile. -/
theorem session_conforms {start : Option Cache} (hstart : start = none ∨ start = some {})
    {calls : List Call} (hran : ∀ c ∈ calls, c.Ran e) (hserved : Served start (exchangeOf calls)) :
    ∃ tasks, Ledger e (exchangeOf calls) tasks ∧
      (∀ key v, Cache.recall? key (cacheAfter start (exchangeOf calls)) = some v →
        ∃ r ∈ tasks, r.key = key ∧ r.outcome = .ok v) ∧
      ∀ earlier c later v, calls = earlier ++ c :: later → c.result = .ok v →
        (c.Found e (.ok none) ∧ c.options.isRequired = false ∧ v = .null) ∨
        ∃ d prepared r, c.Found e (.ok (some d)) ∧ prepareInputs d c.inputs = .ok prepared ∧
          e.Performed r (exchangeOf (earlier ++ [c])) ∧ r.outcome = .ok v ∧
          r.key = fingerprint c.identity prepared ∧
          (e.verifier.accepts (.full r.context.definition) v = true ∨
            (r.context.ChoseToStop r.inputs r.log ∧ v = .obj [])) ∧
          ((r.context.identity = c.identity ∧ r.inputs = prepared ∧ r.context.definition = d) ∨
            Collision r.context.identity c.identity r.inputs prepared ∨
            Redefined c.identity (exchangeOf (earlier ++ [c]))) := by
  obtain ⟨tasks, htasks⟩ := ledger_of_calls hran
  refine ⟨tasks, htasks, fun key v => exists_of_recall? hstart htasks, ?_⟩
  intro earlier c later v hcalls hv
  have hlog : exchangeOf calls = exchangeOf earlier ++ (c.log ++ exchangeOf later) := by
    rw [hcalls, ← exchangeOf_singleton c, ← exchangeOf_append, ← exchangeOf_append]
    rfl
  have hc : c.Ran e := hran c (by simp [hcalls])
  rw [exchangeOf_append, exchangeOf_singleton]
  rcases Call.value_cases hc hv with habsent | ⟨d, prepared, hfound, hprepared, hvalue⟩
  · exact .inl habsent
  right
  rcases hvalue with ⟨finding, hfinds, hrecalled⟩ |
    ⟨depth, log, es, r, hperforms, hbegin, rfl, rfl, hr⟩
  · -- the value was known: it is the outputs of a task of an earlier call
    have hearlier : Served start (exchangeOf earlier ++
        (finding ++ [⟨.recall (fingerprint c.identity prepared), some v⟩])) := by
      rw [hlog, hrecalled, ← List.append_assoc] at hserved
      exact (served_append.mp hserved).1
    obtain ⟨r, hr, hkey, houtcome⟩ := exists_of_recalled hstart
      (fun c' hc' => hran c' (by simp [hcalls, hc'])) hfinds hearlier
    have hperformed := hr.mono (List.sublist_append_left _ c.log)
    obtain ⟨_, _, _, _, _, _, log, _, hperforms, hpart⟩ := hr
    refine ⟨d, prepared, r, hfound, hprepared, hperformed, houtcome, hkey,
      hperforms.conforms houtcome, ?_⟩
    have hbefore : log ⊆ exchangeOf earlier ++ c.log :=
      List.Subset.trans hpart.subset (List.subset_append_left _ _)
    have hnow : finding ⊆ exchangeOf earlier ++ c.log := by
      intro x hx
      rw [hrecalled]
      simp [hx]
    exact hperforms.same_or_collides hbefore hfinds hnow hkey
  · -- the value is the outputs of the call's own task
    have hidentity : r.context.identity = c.identity := by rw [hperforms.context]; rfl
    refine ⟨_, _, r, hfound, hprepared, ?_, hr, by rw [TaskRun.key, hidentity],
      hperforms.conforms hr, .inl ⟨hidentity, rfl, rfl⟩⟩
    exact ⟨c.overlap, depth, _, _, _, _, log, es, hperforms,
      hbegin.sublist.trans (List.sublist_append_right _ _)⟩

end Sessions

def hotel : Engine := { project := { id := "hotel" } }

def greeter : Definition :=
  { id := "greeter", name := "Greeter"
    kind := .pipeline { steps := [], outputs := [("greeting", .literal (.str "hello"))] } }

def greeting : Json := .obj [("greeting", .str "hello")]

def greeterKey : String := fingerprint (Engine.referent "hotel" "greeter") (.obj [])

theorem runs_greeter : ∃ log es,
    Runs (hotel.execute 1 "hotel" "greeter" .null {}).run log es (.ok greeting) ∧
    Served (some {}) log ∧ Cache.recall? greeterKey (cacheAfter (some {}) log) = some greeting := by
  have hnone (agentId : String) : hotel.project.agent? agentId = none := rfl
  simp only [Engine.execute_eq, Engine.run_succ, Engine.resolve_eq_query, hnone, implies_true]
  refine ⟨_, _, .answered ⟨.agent _, .ok (some greeter)⟩ <| .answered ⟨.recall _, none⟩ <|
    .answered ⟨.newTask, "a"⟩ <| .report _ <| .answered ⟨.clock, ⟨0, 0⟩⟩ <| .report _ <|
    .answered ⟨.clock, ⟨0, 0⟩⟩ <| .report _ <| .answered ⟨.remember _ _, ()⟩ <| .done _, ?_, ?_⟩
  · exact ⟨trivial, rfl, trivial, trivial, trivial, trivial, trivial⟩
  · exact Cache.get?_set_self greeterKey greeting {}

theorem runs_greeter_again {d : Definition} (hd : d.inputs = []) :
    Runs (hotel.execute 1 "hotel" "greeter" .null {}).run
      [⟨.agent (Engine.referent "hotel" "greeter"), .ok (some d)⟩,
        ⟨.recall greeterKey, some greeting⟩]
      [] (.ok greeting) := by
  have hnone (agentId : String) : hotel.project.agent? agentId = none := rfl
  cases d
  cases hd
  simp only [Engine.execute_eq, Engine.run_succ, Engine.resolve_eq_query, hnone, implies_true]
  exact .answered ⟨.agent _, .ok (some _)⟩ <| .answered ⟨.recall _, some greeting⟩ <| .done _

theorem session_greeter {d : Definition} (hd : d.inputs = []) : ∃ first second : Call,
    (∀ c ∈ [first, second], c.Ran hotel) ∧ Served (some {}) (exchangeOf [first, second]) ∧
    second.Found hotel (.ok (some d)) ∧ second.events = [] ∧ second.result = .ok greeting := by
  obtain ⟨log, es, hrun, hserved, hrecall⟩ := runs_greeter
  let again : List Exchange := [⟨.agent (Engine.referent "hotel" "greeter"), .ok (some d)⟩,
    ⟨.recall greeterKey, some greeting⟩]
  let first : Call := ⟨1, "hotel", "greeter", .null, {}, log, es, .ok greeting, .inOrder⟩
  let second : Call := ⟨1, "hotel", "greeter", .null, {}, again, [], .ok greeting, .inOrder⟩
  have hran : ∀ c ∈ [first, second], c.Ran hotel := by
    rw [List.forall_mem_cons, List.forall_mem_singleton, Call.Ran, Call.Ran,
      Engine.executeWith_inOrder]
    exact ⟨hrun, runs_greeter_again hd⟩
  have hboth : Served (some {}) (exchangeOf [first, second]) := by
    have hlog : exchangeOf [first, second] = first.log ++ second.log := by simp [exchangeOf]
    rw [hlog]
    exact served_append.mpr ⟨hserved, trivial, hrecall.symm, trivial⟩
  have hfound : second.Found hotel (.ok (some d)) :=
    ⟨[⟨.agent (Engine.referent "hotel" "greeter"), .ok (some d)⟩], ⟨[_], rfl⟩,
      .asked _ fun _ => rfl⟩
  exact ⟨first, second, hran, hboth, hfound, rfl, rfl⟩

/-- The second of two equal calls has no task of its own, and returns what the first one did. -/
theorem session_conforms_greeter : ∃ first second : Call,
    (∀ c ∈ [first, second], c.Ran hotel) ∧ Served (some {}) (exchangeOf [first, second]) ∧
    second.events = [] ∧ second.result = .ok greeting ∧
    ∃ r, hotel.Performed r (exchangeOf [first, second]) ∧ r.outcome = second.result := by
  obtain ⟨first, second, hran, hserved, -, hevents, hresult⟩ := session_greeter (d := greeter) rfl
  refine ⟨first, second, hran, hserved, hevents, hresult, ?_⟩
  obtain ⟨tasks, _, _, hvalues⟩ := session_conforms (.inr rfl) hran hserved
  rcases hvalues [first] second [] greeting rfl hresult with
    ⟨_, _, hnull⟩ | ⟨d, prepared, r, _, _, hr, houtcome, _⟩
  · cases hnull
  · exact ⟨r, hr, houtcome.trans hresult.symm⟩

/-- The greeter as it is defined anew: it has to name a room. -/
def porter : Definition := { greeter with outputs := [{ name := "room" }] }

/-- The greeting is returned as it was remembered, although the greeter, which is no decision, has
to name a room by now. -/
theorem redefined_greeter : ∃ first second : Call,
    (∀ c ∈ [first, second], c.Ran hotel) ∧ Served (some {}) (exchangeOf [first, second]) ∧
    second.Found hotel (.ok (some porter)) ∧ (∀ spec, porter.kind ≠ .decision spec) ∧
    second.result = .ok greeting ∧ greeting ≠ .null ∧
    hotel.verifier.accepts (.full porter) greeting = false := by
  obtain ⟨first, second, hran, hserved, hfound, -, hresult⟩ := session_greeter (d := porter) rfl
  exact ⟨first, second, hran, hserved, hfound, nofun, hresult, nofun, by decide +kernel⟩

end Agents
