import Agents.Proofs.Run.Lockstep

/-! # Runs as the services allow them

If answers are as from one `world`, it is known what becomes of an agent that is looked for
(`Engine.lookup`), and so which runs end before a task can begin (`Engine.early?`). The outputs of
any other run are known, or a task is performed.

With a cache such a run is to be found for each of these (`Engine.finds_early`,
`Engine.finds_known`), as long as the work of its task is (`Engine.finds_performed`).
-/

namespace Agents

open Activity

/-! ## Finding agents -/

namespace Engine

variable {e : Engine} {world : (q : Query) → q.Answer} {deadline : Option Timestamp}
  {projectId agentRef : String} {inputs : Json} {log : List Exchange}

def lookup (e : Engine) (world : (q : Query) → q.Answer) (identity : Identity) :
    Except Error (Option Definition) :=
  match if identity.isLocalTo e.project.id then e.project.agent? identity.agentId else none with
  | some d => .ok (some d)
  | none => world (.agent identity)

theorem Finds.eq_lookup {identity : Identity} {found : Except Error (Option Definition)}
    (h : e.Finds identity log found) (hfollows : ∀ x ∈ log, x.Follows world deadline) :
    found = e.lookup world identity := by
  cases h with
  | own hlocal hd => simp only [lookup, hlocal, if_true, hd]
  | asked _ hnone =>
    have hown : (if identity.isLocalTo e.project.id then e.project.agent? identity.agentId
        else none) = none := by
      split
      · next hlocal => exact hnone hlocal
      · rfl
    simp only [lookup, hown]
    exact hfollows _ List.mem_cons_self

/-- How a run ends before its outputs are looked for in the cache, if it does. -/
def early? (e : Engine) (world : (q : Query) → q.Answer) (projectId agentRef : String)
    (inputs : Json) (isRequired : Bool) : Option (Except RunFailure Json) :=
  match e.lookup world (referent projectId agentRef) with
  | .error failure => some (.error ⟨failure, false⟩)
  | .ok none => some (if isRequired then .error ⟨.agentNotFound agentRef, false⟩ else .ok .null)
  | .ok (some d) =>
    match prepareInputs d inputs with
    | .error failure => some (.error ⟨failure, false⟩)
    | .ok _ => none

structure Knows (e : Engine) (world : (q : Query) → q.Answer) (projectId agentRef : String)
    (inputs : Json) (log : List Exchange) (d : Definition) (prepared outputs : Json) : Prop where
  found : e.lookup world (referent projectId agentRef) = .ok (some d)
  accepted : prepareInputs d inputs = .ok prepared
  recalled : ∃ finding, (∀ x ∈ finding, x.stored? = none) ∧
    log = finding ++ [⟨.recall (fingerprint (referent projectId agentRef) prepared), some outputs⟩]

theorem Skips.early_or_knows {isRequired : Bool} {res : Except RunFailure Json}
    (h : e.Skips projectId agentRef inputs isRequired log res)
    (hfollows : ∀ x ∈ log, x.Follows world deadline) :
    e.early? world projectId agentRef inputs isRequired = some res ∨
      ∃ d prepared outputs,
        e.Knows world projectId agentRef inputs log d prepared outputs ∧ res = .ok outputs := by
  cases h with
  | unavailable hfinds => exact .inl (by simp only [early?, ← hfinds.eq_lookup hfollows])
  | missing hfinds hrequired =>
    exact .inl (by simp only [early?, ← hfinds.eq_lookup hfollows, hrequired, if_true])
  | absent hfinds hrequired =>
    exact .inl (by simp [early?, ← hfinds.eq_lookup hfollows, hrequired])
  | refused hfinds hprepared =>
    exact .inl (by simp only [early?, ← hfinds.eq_lookup hfollows, hprepared])
  | known hfinds hprepared =>
    have hlookup := hfinds.eq_lookup fun x hx => hfollows x (List.mem_append_left _ hx)
    have hidle := hfinds.stored?_eq_none
    exact .inr ⟨_, _, _, ⟨hlookup.symm, hprepared, _, hidle, rfl⟩, rfl⟩

theorem early?_eq_none {isRequired : Bool} {d : Definition} {prepared : Json}
    (hfound : e.lookup world (referent projectId agentRef) = .ok (some d))
    (hprepared : prepareInputs d inputs = .ok prepared) :
    e.early? world projectId agentRef inputs isRequired = none := by
  simp only [early?, hfound, hprepared]

theorem Knows.not_served {d : Definition} {prepared outputs : Json}
    (h : e.Knows world projectId agentRef inputs log d prepared outputs) : ¬ Served none log := by
  obtain ⟨finding, -, rfl⟩ := h.recalled
  intro hserved
  have hrecalled := (served_append.mp hserved).2.1
  rw [cacheAfter_none] at hrecalled
  cases hrecalled

theorem Knows.recall?_eq {d : Definition} {prepared outputs : Json} {cache : Option Cache}
    (h : e.Knows world projectId agentRef inputs log d prepared outputs)
    (hserved : Served cache log) :
    Cache.recall? (fingerprint (referent projectId agentRef) prepared) cache = some outputs := by
  obtain ⟨finding, hstored, rfl⟩ := h.recalled
  have hrecalled := (served_append.mp hserved).2.1
  rw [cacheAfter_of_stored?_eq_none hstored] at hrecalled
  exact hrecalled.symm

variable {work : TaskContext → Json → Fallible TaskResult} {depth : Nat} {options : RunOptions}
  {r : TaskRun} {es : List Event}

theorem PerformsWith.isPart
    (h : e.PerformsWith work depth projectId agentRef inputs options r log es) :
    r.log <:+: log := by
  obtain ⟨lead, -, -, rfl⟩ := h.exists_lead
  exact ⟨lead, ⟨.clock, r.ended⟩ :: r.remembering, List.append_assoc _ _ _⟩

theorem PerformsWith.lookup_eq
    (h : e.PerformsWith work depth projectId agentRef inputs options r log es)
    (hfollows : ∀ x ∈ log, x.Follows world deadline) :
    e.lookup world (referent projectId agentRef) = .ok (some r.context.definition) := by
  obtain ⟨finding, before, hfinds, -, rfl⟩ := h.found
  exact (hfinds.eq_lookup fun x hx => hfollows x (List.mem_append_left _ hx)).symm

theorem PerformsWith.identity_eq
    (h : e.PerformsWith work depth projectId agentRef inputs options r log es) :
    r.context.identity = referent projectId agentRef := by
  rw [h.context]
  rfl

/-- What is asked of the cache before a task, if the agent was found and its inputs accepted. -/
theorem PerformsWith.inputs_eq {d : Definition} {prepared : Json}
    (h : e.PerformsWith work depth projectId agentRef inputs options r log es)
    (hfollows : ∀ x ∈ log, x.Follows world deadline)
    (hfound : e.lookup world (referent projectId agentRef) = .ok (some d))
    (hprepared : prepareInputs d inputs = .ok prepared) :
    r.context.definition = d ∧ r.inputs = prepared := by
  have hd : r.context.definition = d := by
    have hsome := (h.lookup_eq hfollows).symm.trans hfound
    cases hsome
    rfl
  have haccepted := h.prepared
  rw [hd, hprepared] at haccepted
  cases haccepted
  exact ⟨hd, rfl⟩

/-! ## Runs with a cache -/

variable {p : Pairing} {cache : Option Cache}

theorem exists_runs_resolve (e : Engine) (p : Pairing) (cache : Option Cache)
    (projectId agentRef : String) : ∃ finding, (∀ x ∈ finding, x.stored? = none) ∧
      p.Cached cache finding ∧ Runs (e.resolve projectId agentRef).run finding []
        ((e.lookup p.world (referent projectId agentRef)).map
          (·.map ((referent projectId agentRef, ·)))) := by
  cases hown : if (referent projectId agentRef).isLocalTo e.project.id then
      e.project.agent? (referent projectId agentRef).agentId else none with
  | some d =>
    have hlocal : (referent projectId agentRef).isLocalTo e.project.id = true := by
      split at hown
      · assumption
      · cases hown
    rw [if_pos hlocal] at hown
    rw [resolve_eq_pure hlocal hown, lookup, if_pos hlocal, hown]
    exact ⟨[], List.forall_mem_nil _, Pairing.cached_nil cache, runs_ok.mpr ⟨rfl, rfl, rfl⟩⟩
  | none =>
    have hnone (hlocal : (referent projectId agentRef).isLocalTo e.project.id = true) :
        e.project.agent? (referent projectId agentRef).agentId = none := by
      rwa [if_pos hlocal] at hown
    rw [resolve_eq_query hnone, lookup, hown]
    let asked : Exchange := ⟨.agent (referent projectId agentRef), p.world (.agent _)⟩
    refine ⟨[asked], fun x hx => ?_, Pairing.cached_singleton trivial rfl, ?_⟩
    · rw [List.mem_singleton.mp hx]
      rfl
    · have hasked : Runs (query (.agent (referent projectId agentRef))) [asked] []
          (p.world (.agent (referent projectId agentRef))) := runs_query.mpr ⟨rfl, rfl⟩
      cases hanswer : p.world (.agent (referent projectId agentRef)) with
      | error failure =>
        rw [hanswer] at hasked
        exact runs_andThen.mpr (.inl ⟨failure, rfl, hasked⟩)
      | ok found =>
        rw [hanswer] at hasked
        exact runs_andThen.mpr (.inr ⟨[asked], [], found, [], [], rfl, rfl, hasked,
          runs_ok.mpr ⟨rfl, rfl, rfl⟩⟩)

theorem finds_run {d : Definition}
    (hfound : e.lookup p.world (referent projectId agentRef) = .ok (some d))
    (h : p.Finds cache (e.runDefinitionWith work (referent projectId agentRef) d options
      (e.childRunWith work depth (referent projectId agentRef).projectId options) inputs).run) :
    p.Finds cache (e.runWith work (depth + 1) projectId agentRef inputs options).run := by
  obtain ⟨finding, hstored, hcached, hresolve⟩ :=
    exists_runs_resolve e p cache projectId agentRef
  obtain ⟨log, es, res, hcached', hrun⟩ := h
  rw [hfound] at hresolve
  refine ⟨finding ++ log, es, res, Pairing.cached_append.mpr ⟨hcached, ?_⟩, ?_⟩
  · rwa [cacheAfter_of_stored?_eq_none hstored]
  · exact runs_andThen.mpr (.inr ⟨finding, [], _, log, es, rfl, rfl,
      runs_adapt.mpr ⟨_, hresolve, rfl⟩, hrun⟩)

theorem runs_refused {d : Definition} {failure : Error}
    {runChild : TaskId → String → Json → Fallible Json}
    (h : prepareInputs d inputs = .error failure) :
    Runs (e.runDefinitionWith work (referent projectId agentRef) d options runChild inputs).run
      [] [] (.error ⟨failure, false⟩) :=
  runs_andThen.mpr (.inl ⟨_, rfl,
    runs_adapt.mpr ⟨_, runs_ofExcept.mpr ⟨rfl, rfl, rfl⟩, by rw [h]; rfl⟩⟩)

theorem finds_early {res : Except RunFailure Json}
    (h : e.early? p.world projectId agentRef inputs options.isRequired = some res) :
    p.Finds cache (e.runWith work (depth + 1) projectId agentRef inputs options).run := by
  obtain ⟨finding, -, hcached, hresolve⟩ := exists_runs_resolve e p cache projectId agentRef
  cases hlookup : e.lookup p.world (referent projectId agentRef) with
  | error failure =>
    rw [hlookup] at hresolve
    exact ⟨finding, [], .error ⟨failure, false⟩, hcached,
      runs_andThen.mpr (.inl ⟨_, rfl, runs_adapt.mpr ⟨_, hresolve, rfl⟩⟩)⟩
  | ok found =>
    cases found with
    | none =>
      rw [hlookup] at hresolve
      refine ⟨finding ++ [], [], res, by rwa [List.append_nil], runs_andThen.mpr (.inr
        ⟨finding, [], none, [], [], rfl, rfl, runs_adapt.mpr ⟨_, hresolve, rfl⟩, ?_⟩)⟩
      simp only [early?, hlookup, Option.some.injEq] at h
      subst h
      change Runs (if options.isRequired then throw ⟨.agentNotFound agentRef, false⟩
        else pure .null : ExceptT RunFailure Activity Json).run [] [] _
      split
      · exact runs_throw.mpr ⟨rfl, rfl, rfl⟩
      · exact runs_ok.mpr ⟨rfl, rfl, rfl⟩
    | some d =>
      cases hprepared : prepareInputs d inputs with
      | error failure =>
        exact finds_run hlookup ⟨[], [], _, Pairing.cached_nil cache, runs_refused hprepared⟩
      | ok prepared =>
        rw [early?_eq_none hlookup hprepared] at h
        cases h

theorem finds_known {d : Definition} {prepared outputs : Json}
    {runChild : TaskId → String → Json → Fallible Json}
    (hprepared : prepareInputs d inputs = .ok prepared)
    (hknown : Cache.recall? (fingerprint (referent projectId agentRef) prepared) cache =
      some outputs) :
    p.Finds cache
      (e.runDefinitionWith work (referent projectId agentRef) d options runChild inputs).run := by
  let recalled : Exchange :=
    ⟨.recall (fingerprint (referent projectId agentRef) prepared), some outputs⟩
  refine ⟨[recalled], [], .ok outputs, Pairing.cached_singleton hknown.symm trivial, ?_⟩
  refine runs_andThen.mpr (.inr ⟨[], [], prepared, [recalled], [], rfl, rfl,
    runs_adapt.mpr ⟨_, runs_ofExcept.mpr ⟨rfl, rfl, rfl⟩, by rw [hprepared]; rfl⟩, ?_⟩)
  exact runs_liftThen.mpr ⟨[recalled], [], some outputs, [], [], rfl, rfl,
    runs_query.mpr ⟨rfl, rfl⟩, runs_ok.mpr ⟨rfl, rfl, rfl⟩⟩

theorem finds_performed {d : Definition} {prepared : Json}
    {runChild : TaskId → String → Json → Fallible Json}
    (hprepared : prepareInputs d inputs = .ok prepared)
    (hunknown : Cache.recall? (fingerprint (referent projectId agentRef) prepared) cache = none)
    (htask : p.Finds cache
      (e.performTaskWith work (referent projectId agentRef) d options runChild prepared).run) :
    p.Finds cache
      (e.runDefinitionWith work (referent projectId agentRef) d options runChild inputs).run := by
  obtain ⟨log, es, res, hcached, hrun⟩ := htask
  let recalled : Exchange := ⟨.recall (fingerprint (referent projectId agentRef) prepared), none⟩
  have hrecalled : p.Cached cache [recalled] := Pairing.cached_singleton hunknown.symm trivial
  have hbegin {log es res} (h : Runs (do
      let outputs ← (e.performTaskWith work (referent projectId agentRef) d options runChild
        prepared).adapt (RunFailure.mk · true)
      query (.remember (fingerprint (referent projectId agentRef) prepared) outputs)
      return outputs : ExceptT RunFailure Activity Json).run log es res) :
      Runs (e.runDefinitionWith work (referent projectId agentRef) d options runChild inputs).run
        (recalled :: log) es res :=
    runs_andThen.mpr (.inr ⟨[], [], prepared, recalled :: log, es, rfl, rfl,
      runs_adapt.mpr ⟨_, runs_ofExcept.mpr ⟨rfl, rfl, rfl⟩, by rw [hprepared]; rfl⟩,
      runs_liftThen.mpr ⟨[recalled], [], none, log, es, rfl, rfl, runs_query.mpr ⟨rfl, rfl⟩, h⟩⟩)
  cases res with
  | error failure =>
    refine ⟨recalled :: log, es, .error ⟨failure, true⟩,
      Pairing.cached_append.mpr ⟨hrecalled, hcached⟩, hbegin ?_⟩
    exact runs_andThen.mpr (.inl ⟨_, rfl, runs_adapt.mpr ⟨_, hrun, rfl⟩⟩)
  | ok outputs =>
    let remembered : Exchange :=
      ⟨.remember (fingerprint (referent projectId agentRef) prepared) outputs, ()⟩
    have hremembered (cache : Option Cache) : p.Cached cache [remembered] :=
      Pairing.cached_singleton trivial trivial
    refine ⟨recalled :: (log ++ [remembered]), es ++ [], .ok outputs,
      Pairing.cached_append.mpr ⟨hrecalled, Pairing.cached_append.mpr ⟨hcached, hremembered _⟩⟩,
      hbegin ?_⟩
    exact runs_andThen.mpr (.inr ⟨log, es, outputs, [remembered], [], rfl, rfl,
      runs_adapt.mpr ⟨_, hrun, rfl⟩, runs_liftThen.mpr ⟨[remembered], [], (), [], [], rfl, rfl,
        runs_query.mpr ⟨rfl, rfl⟩, runs_ok.mpr ⟨rfl, rfl, rfl⟩⟩⟩)

theorem finds_execute
    (h : p.Finds cache (e.runWith work depth projectId agentRef inputs options).run) :
    p.Finds cache (e.executeWith work depth projectId agentRef inputs options).run := by
  rw [executeWith, run_liftThen]
  refine Pairing.finds_bind h fun cache res => ?_
  cases res with
  | ok outputs => exact Pairing.finds_pure cache _
  | error failure =>
    dsimp only
    split
    · rw [run_liftThen]
      refine Pairing.finds_bind ?_ fun cache _ => Pairing.finds_pure cache _
      exact Pairing.finds_bind (p.finds_now cache) fun cache now =>
        Pairing.finds_reportAll _ cache
    · exact Pairing.finds_pure cache _

end Engine

end Agents
