import Agents.Proofs.Run.Conformity

/-! # Two runs in step

Two sessions are compared in which the services answer alike, one with a cache and one without. Two
activities are in step if, run in these two sessions, they give the same, and what is known of the
cache still holds (`Pairing.InStep`). Events, times and the ids of tasks may differ. If the pairing
asks for it (`Pairing.Completes`), the first can be run in its session wherever the second was run.

Whatever the kind of an agent, its work in the one session is in step with its work in the other,
as long as its children are (`Pairing.Beside.process`). The exception are scripts that put what a
child says into a document, since what a child says is not what it gives.
-/

namespace Agents

open Activity

/-! ## Services that answer alike -/

/-- An answer as from `world`, at a time before the deadline; ids and the cache are left open. -/
def Exchange.Follows (world : (q : Query) → q.Answer) (deadline : Option Timestamp) :
    Exchange → Prop
  | ⟨.clock, now⟩ => ∀ d ∈ deadline, now.isBefore d = true
  | ⟨.newTask, _⟩ | ⟨.recall _, _⟩ | ⟨.remember .., _⟩ => True
  | ⟨q, answer⟩ => answer = world q

/-- A query that is always answered alike. -/
def Query.IsSteady : Query → Prop
  | .clock | .newTask | .recall _ | .remember .. => False
  | _ => True

theorem Exchange.Follows.answer_eq {world : (q : Query) → q.Answer} {deadline : Option Timestamp}
    {q : Query} {answer : q.Answer} (h : Exchange.Follows world deadline ⟨q, answer⟩)
    (hq : q.IsSteady) : answer = world q := by
  cases q <;> first | exact h | exact hq.elim

theorem Exchange.follows_world (world : (q : Query) → q.Answer) (deadline : Option Timestamp)
    {q : Query} (hq : q.IsSteady) : Exchange.Follows world deadline ⟨q, world q⟩ := by
  cases q <;> first | rfl | exact hq.elim

theorem exists_isBefore (deadline : Option Timestamp) :
    ∃ now : Timestamp, ∀ d ∈ deadline, now.isBefore d = true := by
  cases deadline with
  | none => exact ⟨⟨0, 0⟩, fun d hd => absurd hd (Option.not_mem_none d)⟩
  | some deadline =>
    refine ⟨⟨deadline.seconds - 1, 0⟩, fun d hd => ?_⟩
    cases hd
    have hearlier : deadline.seconds - 1 < deadline.seconds := by omega
    rw [Timestamp.isBefore, decide_eq_true hearlier, Bool.true_or]

/-! ## Documents without children -/

namespace Script

/-- A part of a document that is not what a child says. -/
def DocumentPart.IsOwn : DocumentPart → Prop
  | .agent .. => False
  | _ => True

/-- A call that puts nothing of what a child says into a document. -/
def HostCall.QuotesNone : HostCall → Prop
  | .renderJson parts => ∀ part ∈ parts, part.IsOwn
  | _ => True

/-- However its calls are answered, the script puts nothing of what a child says into a document. -/
def Interaction.QuotesNone {granted : CapabilitySet} {α : Type} : Interaction granted α → Prop
  | .done _ => True
  | .call request resume => request.val.QuotesNone ∧ ∀ answer, (resume answer).QuotesNone
  | .notify request rest => request.val.QuotesNone ∧ rest.QuotesNone

theorem Interaction.quotesNone_of_not_granted {granted : CapabilitySet} {α : Type}
    (h : granted.has .json = false) (i : Interaction granted α) : i.QuotesNone := by
  have hcall (request : GrantedCall granted) : request.val.QuotesNone := by
    obtain ⟨request, hgranted, _⟩ := request
    cases request with
    | renderJson parts => exact absurd hgranted (by simpa [HostCall.capability] using h)
    | _ => trivial
  induction i with
  | done result => trivial
  | call request resume ih => exact ⟨hcall request, ih⟩
  | notify request rest ih => exact ⟨hcall request, ih⟩

end Script

/-- The agent is no script that puts what its children say into documents. -/
def Definition.QuotesNone (l : SandboxLimits) (d : Definition) : Prop :=
  ∀ spec, d.kind = .scriptedLogic spec → ∀ arguments,
    (Script.start l spec.source arguments).QuotesNone

theorem Definition.quotesNone_of_not_granted {l : SandboxLimits}
    (h : l.capabilitySet.has .json = false) (d : Definition) : d.QuotesNone l :=
  fun _ _ _ => Script.Interaction.quotesNone_of_not_granted h _

/-! ## Pairs of runs -/

/-- Two sessions, one with a cache and one without. -/
structure Pairing where
  world : (q : Query) → q.Answer
  /-- What is exchanged in the session without a cache. -/
  whole : List Exchange
  /-- What is known of the cache. -/
  Holds : Option Cache → Prop
  /-- Whether there is to be a run in the session with a cache for each one without. -/
  Completes : Prop
  /-- The deadline in the session with a cache. -/
  deadline : Option Timestamp
  /-- The deadline in the session without a cache. -/
  deadline' : Option Timestamp

namespace Pairing

variable {p : Pairing} {α β γ δ : Type}

structure Cached (p : Pairing) (cache : Option Cache) (log : List Exchange) : Prop where
  served : Served cache log
  follows : ∀ x ∈ log, x.Follows p.world p.deadline

structure Plain (p : Pairing) (log : List Exchange) : Prop where
  served : Served none log
  follows : ∀ x ∈ log, x.Follows p.world p.deadline'
  part : log <:+: p.whole

theorem cached_nil (cache : Option Cache) : p.Cached cache [] where
  served := trivial
  follows := List.forall_mem_nil _

theorem cached_singleton {cache : Option Cache} {x : Exchange} (hserved : x.IsServedBy cache)
    (hfollows : x.Follows p.world p.deadline) : p.Cached cache [x] where
  served := ⟨hserved, trivial⟩
  follows := fun y hy => by rwa [List.mem_singleton.mp hy]

theorem cached_append {cache : Option Cache} {log more : List Exchange} :
    p.Cached cache (log ++ more) ↔ p.Cached cache log ∧ p.Cached (cacheAfter cache log) more := by
  constructor
  · rintro ⟨hserved, hfollows⟩
    obtain ⟨hlog, hmore⟩ := served_append.mp hserved
    exact ⟨⟨hlog, fun x hx => hfollows x (List.mem_append_left _ hx)⟩,
      ⟨hmore, fun x hx => hfollows x (List.mem_append_right _ hx)⟩⟩
  · rintro ⟨⟨hlog, hfollows⟩, ⟨hmore, hfollows'⟩⟩
    exact ⟨served_append.mpr ⟨hlog, hmore⟩, fun x hx =>
      (List.mem_append.mp hx).elim (hfollows x) (hfollows' x)⟩

theorem Plain.left {log more : List Exchange} (h : p.Plain (log ++ more)) : p.Plain log where
  served := (served_append.mp h.served).1
  follows := fun x hx => h.follows x (List.mem_append_left _ hx)
  part := (List.prefix_append _ _).isInfix.trans h.part

theorem Plain.right {log more : List Exchange} (h : p.Plain (log ++ more)) : p.Plain more where
  served := by
    have hmore := (served_append.mp h.served).2
    rwa [cacheAfter_none] at hmore
  follows := fun x hx => h.follows x (List.mem_append_right _ hx)
  part := (List.suffix_append _ _).isInfix.trans h.part

/-- The activity can be run in the session with a cache. -/
def Finds (p : Pairing) (cache : Option Cache) (a : Activity α) : Prop :=
  ∃ log es r, p.Cached cache log ∧ Runs a log es r

/-- Run in the two sessions, the activities give results that are related so, and what is known of
the cache is true afterwards if it was before. If it is asked for, there is a run of the first one
for each of the second. -/
structure InStep (p : Pairing) (R : α → β → Prop) (a : Activity α) (b : Activity β) : Prop where
  agree : ∀ {cache log es r log' es' r'}, p.Holds cache → p.Cached cache log → p.Plain log' →
    Runs a log es r → Runs b log' es' r' → R r r' ∧ p.Holds (cacheAfter cache log)
  complete : p.Completes → ∀ {cache log' es' r'}, p.Holds cache → p.Plain log' →
    Runs b log' es' r' → p.Finds cache a

abbrev Same (p : Pairing) (a b : Activity α) : Prop := p.InStep Eq a b

theorem finds_pure (cache : Option Cache) (x : α) : p.Finds cache (pure x) :=
  ⟨[], [], x, cached_nil cache, .done x⟩

theorem finds_bind {cache : Option Cache} {a : Activity α} {f : α → Activity β}
    (ha : p.Finds cache a) (hf : ∀ cache x, p.Finds cache (f x)) : p.Finds cache (a >>= f) := by
  obtain ⟨log₁, es₁, x, hcached₁, ha₁⟩ := ha
  obtain ⟨log₂, es₂, r, hcached₂, ha₂⟩ := hf (cacheAfter cache log₁) x
  exact ⟨log₁ ++ log₂, es₁ ++ es₂, r, cached_append.mpr ⟨hcached₁, hcached₂⟩,
    runs_bind.mpr ⟨log₁, es₁, x, log₂, es₂, rfl, rfl, ha₁, ha₂⟩⟩

theorem finds_query {q : Query} (hq : q.IsSteady) (cache : Option Cache) :
    p.Finds cache (query q) := by
  have hserved : Exchange.IsServedBy cache ⟨q, p.world q⟩ := by
    cases q <;> trivial
  exact ⟨[⟨q, p.world q⟩], [], p.world q,
    cached_singleton hserved (Exchange.follows_world _ _ hq), runs_query.mpr ⟨rfl, rfl⟩⟩

theorem finds_now (p : Pairing) (cache : Option Cache) : p.Finds cache now := by
  obtain ⟨now, hnow⟩ := exists_isBefore p.deadline
  exact ⟨[⟨.clock, now⟩], [], now, cached_singleton trivial hnow,
    runs_query (q := .clock).mpr ⟨rfl, rfl⟩⟩

theorem finds_reportAll (events : List Event) (cache : Option Cache) :
    p.Finds cache (reportAll events) :=
  ⟨[], events, (), cached_nil cache, runs_reportAll.mpr ⟨rfl, rfl⟩⟩

theorem inStep_pure {R : α → β → Prop} {x : α} {y : β} (h : R x y) :
    p.InStep R (pure x) (pure y) where
  agree := by
    intro cache log es r log' es' r' hcache _ _ ha hb
    obtain ⟨rfl, rfl, rfl⟩ := runs_pure.mp ha
    obtain ⟨rfl, rfl, rfl⟩ := runs_pure.mp hb
    exact ⟨h, hcache⟩
  complete := fun _ cache _ _ _ _ _ _ => finds_pure cache x

theorem inStep_bind {R : α → β → Prop} {S : γ → δ → Prop} {a : Activity α} {b : Activity β}
    {f : α → Activity γ} {g : β → Activity δ} (hab : p.InStep R a b)
    (hfg : ∀ x y, R x y → p.InStep S (f x) (g y)) : p.InStep S (a >>= f) (b >>= g) where
  agree := by
    intro cache log es r log' es' r' hcache hcached hplain ha hb
    obtain ⟨log₁, es₁, x, log₂, es₂, rfl, rfl, ha₁, ha₂⟩ := runs_bind.mp ha
    obtain ⟨log₁', es₁', y, log₂', es₂', rfl, rfl, hb₁, hb₂⟩ := runs_bind.mp hb
    obtain ⟨hcached₁, hcached₂⟩ := cached_append.mp hcached
    obtain ⟨hxy, hcache₁⟩ := hab.agree hcache hcached₁ hplain.left ha₁ hb₁
    rw [cacheAfter_append]
    exact (hfg x y hxy).agree hcache₁ hcached₂ hplain.right ha₂ hb₂
  complete := by
    intro hcompletes cache log' es' r' hcache hplain hb
    obtain ⟨log₁', es₁', y, log₂', es₂', rfl, rfl, hb₁, hb₂⟩ := runs_bind.mp hb
    obtain ⟨log₁, es₁, x, hcached₁, ha₁⟩ := hab.complete hcompletes hcache hplain.left hb₁
    obtain ⟨hxy, hcache₁⟩ := hab.agree hcache hcached₁ hplain.left ha₁ hb₁
    obtain ⟨log₂, es₂, r, hcached₂, ha₂⟩ :=
      (hfg x y hxy).complete hcompletes hcache₁ hplain.right hb₂
    exact ⟨log₁ ++ log₂, es₁ ++ es₂, r, cached_append.mpr ⟨hcached₁, hcached₂⟩,
      runs_bind.mpr ⟨log₁, es₁, x, log₂, es₂, rfl, rfl, ha₁, ha₂⟩⟩

theorem inStep_map {R : α → β → Prop} {S : γ → δ → Prop} {a : Activity α} {b : Activity β}
    {f : α → γ} {g : β → δ} (hab : p.InStep R a b) (hfg : ∀ x y, R x y → S (f x) (g y)) :
    p.InStep S (f <$> a) (g <$> b) := by
  rw [map_eq_pure_bind, map_eq_pure_bind]
  exact inStep_bind hab fun x y hxy => inStep_pure (hfg x y hxy)

theorem inStep_reportAll (events events' : List Event) :
    p.Same (reportAll events) (reportAll events') where
  agree := by
    intro cache log es r log' es' r' hcache _ _ ha hb
    obtain ⟨rfl, rfl⟩ := runs_reportAll.mp ha
    exact ⟨rfl, hcache⟩
  complete := fun _ cache _ _ _ _ _ _ => finds_reportAll events cache

theorem same_query {q : Query} (hq : q.IsSteady) : p.Same (query q) (query q) where
  agree := by
    intro cache log es r log' es' r' hcache hcached hplain ha hb
    obtain ⟨rfl, rfl⟩ := runs_query.mp ha
    obtain ⟨rfl, rfl⟩ := runs_query.mp hb
    have hr := (hcached.follows _ List.mem_cons_self).answer_eq hq
    have hr' := (hplain.follows _ List.mem_cons_self).answer_eq hq
    refine ⟨hr.trans hr'.symm, ?_⟩
    have hstored : Exchange.stored? ⟨q, r⟩ = none := by
      cases q <;> first | rfl | exact hq.elim
    change p.Holds (Exchange.cacheAfter cache ⟨q, r⟩)
    rwa [Exchange.cacheAfter_of_stored?_eq_none hstored]
  complete := fun _ cache _ _ _ _ _ _ => finds_query hq cache

theorem inStep_now : p.InStep (fun now now' => (∀ d ∈ p.deadline, now.isBefore d = true) ∧
    ∀ d ∈ p.deadline', now'.isBefore d = true) now now where
  agree := by
    intro cache log es r log' es' r' hcache hcached hplain ha hb
    obtain ⟨rfl, rfl⟩ := runs_query (q := .clock).mp ha
    obtain ⟨rfl, rfl⟩ := runs_query (q := .clock).mp hb
    exact ⟨⟨hcached.follows _ List.mem_cons_self, hplain.follows _ List.mem_cons_self⟩, hcache⟩
  complete := fun _ _ _ _ _ _ _ _ => p.finds_now _

theorem inStep_through {ω ω' : Type} {R : α → β → Prop} {a : Activity α} {b : Activity β}
    (hab : p.InStep R a b) (step : ω → Event → List Event × ω)
    (step' : ω' → Event → List Event × ω') (s : ω) (s' : ω') :
    p.InStep (fun x y => R x.1 y.1) (a.through step s) (b.through step' s') where
  agree := by
    intro cache log es r log' es' r' hcache hcached hplain ha hb
    obtain ⟨_, ha, _⟩ := runs_through ha
    obtain ⟨_, hb, _⟩ := runs_through hb
    exact hab.agree hcache hcached hplain ha hb
  complete := by
    intro hcompletes cache log' es' r' hcache hplain hb
    obtain ⟨_, hb, _⟩ := runs_through hb
    obtain ⟨log, es, r, hcached, ha⟩ := hab.complete hcompletes hcache hplain hb
    obtain ⟨es₂, s₂, hthrough⟩ := exists_runs_through ha step s
    exact ⟨log, es₂, (r, s₂), hcached, hthrough⟩

/-- The activity can be run in the session with a cache alone, and what is known of the cache stays
true. -/
abbrev Alone (p : Pairing) (a : Activity α) : Prop := p.InStep (fun _ _ => True) a (pure ())

theorem alone_of {a : Activity α}
    (hstored : ∀ {log es r}, Runs a log es r → ∀ x ∈ log, x.stored? = none)
    (hfinds : ∀ cache, p.Finds cache a) : p.Alone a where
  agree := by
    intro cache log es r log' es' r' hcache _ _ ha _
    rw [cacheAfter_of_stored?_eq_none (hstored ha)]
    exact ⟨trivial, hcache⟩
  complete := fun _ cache _ _ _ _ _ _ => hfinds cache

theorem alone_now : p.Alone now := by
  refine alone_of (fun hrun x hx => ?_) (p.finds_now ·)
  obtain ⟨rfl, -⟩ := runs_query (q := .clock).mp hrun
  rw [List.mem_singleton.mp hx]
  rfl

theorem alone_newTask : p.Alone (query .newTask) := by
  refine alone_of (fun hrun x hx => ?_) fun cache => ?_
  · obtain ⟨rfl, -⟩ := runs_query (q := .newTask).mp hrun
    rw [List.mem_singleton.mp hx]
    rfl
  · exact ⟨[⟨.newTask, ""⟩], [], "", cached_singleton trivial trivial,
      runs_query (q := .newTask).mpr ⟨rfl, rfl⟩⟩

theorem alone_reportAll (events : List Event) : p.Alone (reportAll events) := by
  refine alone_of (fun hrun x hx => ?_) (finds_reportAll events)
  obtain ⟨rfl, -⟩ := runs_reportAll.mp hrun
  cases hx

theorem inStep_lead {S : γ → δ → Prop} {a : Activity α} {f : α → Activity γ} {b : Activity δ}
    (ha : p.Alone a) (hf : ∀ x, p.InStep S (f x) b) : p.InStep S (a >>= f) b := by
  have hbind : p.InStep S (a >>= f) (pure () >>= fun _ => b) := inStep_bind ha fun x _ _ => hf x
  rwa [pure_bind] at hbind

theorem inStep_trail {R : α → β → Prop} {S : γ → β → Prop} {a : Activity α} {f : α → Activity γ}
    {b : Activity β} (hab : p.InStep R a b) (hf : ∀ x y, R x y → p.InStep S (f x) (pure y)) :
    p.InStep S (a >>= f) b := by
  have hbind : p.InStep S (a >>= f) (b >>= pure) := inStep_bind hab hf
  rwa [bind_pure] at hbind

/-! ### Activities that can fail -/

section Failing

variable {ε : Type} {x y : ExceptT ε Activity α}

theorem same_ok (a : α) : p.Same (pure a : ExceptT ε Activity α).run (pure a : ExceptT ε _ _).run :=
  inStep_pure rfl

theorem same_throw (e : ε) :
    p.Same (throw e : ExceptT ε Activity α).run (throw e : ExceptT ε Activity α).run :=
  inStep_pure rfl

theorem same_ofExcept (r : Except ε α) : p.Same (MonadExcept.ofExcept r : ExceptT ε Activity α).run
    (MonadExcept.ofExcept r : ExceptT ε Activity α).run := by
  cases r with
  | ok a => exact same_ok a
  | error e => exact same_throw e

theorem same_andThen {f g : α → ExceptT ε Activity β} (hxy : p.Same x.run y.run)
    (hfg : ∀ a, p.Same (f a).run (g a).run) : p.Same (x >>= f).run (y >>= g).run := by
  rw [ExceptT.run_bind, ExceptT.run_bind]
  refine inStep_bind hxy fun r r' hr => ?_
  subst hr
  cases r with
  | ok a => exact hfg a
  | error e => exact inStep_pure rfl

theorem finds_mapOk (f : α → β) {cache : Option Cache} (hx : p.Finds cache x.run) :
    p.Finds cache (f <$> x).run := by
  rw [ExceptT.run_map, map_eq_pure_bind]
  exact finds_bind hx fun cache r => finds_pure cache _

theorem same_mapOk (f : α → β) (hxy : p.Same x.run y.run) : p.Same (f <$> x).run (f <$> y).run := by
  rw [map_eq_pure_bind, map_eq_pure_bind]
  exact same_andThen hxy fun a => same_ok (f a)

theorem same_lift {a b : Activity α} (hab : p.Same a b) :
    p.Same (liftM a : ExceptT ε Activity α).run (liftM b : ExceptT ε Activity α).run :=
  inStep_map hab fun _ _ h => congrArg Except.ok h

theorem same_liftThen {δ : Type} {R : α → β → Prop} {a : Activity α} {b : Activity β}
    {f : α → ExceptT ε Activity δ} {g : β → ExceptT ε Activity δ} (hab : p.InStep R a b)
    (hfg : ∀ u v, R u v → p.Same (f u).run (g v).run) :
    p.Same ((liftM a : ExceptT ε Activity α) >>= f).run
      ((liftM b : ExceptT ε Activity β) >>= g).run := by
  rw [run_liftThen, run_liftThen]
  exact inStep_bind hab hfg

theorem same_adapt {ε' : Type} (f : ε → ε') (hxy : p.Same x.run y.run) :
    p.Same (x.adapt f).run (y.adapt f).run := inStep_map hxy fun _ _ h => congrArg _ h

theorem same_mapM {f g : γ → ExceptT ε Activity β} (hfg : ∀ a, p.Same (f a).run (g a).run)
    (xs : List γ) : p.Same (xs.mapM f).run (xs.mapM g).run := by
  induction xs with
  | nil => exact same_ok []
  | cons x rest ih =>
    rw [List.mapM_cons, List.mapM_cons]
    exact same_andThen (hfg x) fun y => same_andThen ih fun ys => same_ok _

theorem same_foldlM {f g : β → γ → ExceptT ε Activity β} {xs : List γ}
    (hfg : ∀ b, ∀ a ∈ xs, p.Same (f b a).run (g b a).run) (b : β) :
    p.Same (xs.foldlM f b).run (xs.foldlM g b).run := by
  induction xs generalizing b with
  | nil => exact same_ok b
  | cons x rest ih =>
    rw [List.foldlM_cons, List.foldlM_cons]
    exact same_andThen (hfg b x List.mem_cons_self) fun b =>
      ih (fun b a ha => hfg b a (List.mem_cons_of_mem x ha)) b

end Failing

/-! ## Tasks -/

/-- Tasks of one agent in the two sessions. They may be told different ids, and to different
readers. -/
structure Beside (p : Pairing) (t t' : TaskContext) : Prop where
  engine : t.engine = t'.engine
  definition : t.definition = t'.definition
  identity : t.identity = t'.identity
  retries : t.options.maxRetries = t'.options.maxRetries
  deadline : t.options.deadline = p.deadline
  deadline' : t'.options.deadline = p.deadline'
  runChild : ∀ agentRef inputs,
    p.Same (t.runChild agentRef inputs).run (t'.runChild agentRef inputs).run

variable {t t' : TaskContext}

/-- The clock shows a time before the deadline, if it is looked at. -/
theorem runs_isPastDeadline {world : (q : Query) → q.Answer} {log : List Exchange}
    {es : List Event} {late : Bool} (hfollows : ∀ x ∈ log, x.Follows world t.options.deadline)
    (h : Runs t.isPastDeadline log es late) : late = false ∧ ∀ x ∈ log, x.stored? = none := by
  unfold TaskContext.isPastDeadline at h
  split at h
  · obtain ⟨rfl, rfl, rfl⟩ := runs_pure.mp h
    exact ⟨rfl, List.forall_mem_nil _⟩
  · next deadline hdeadline =>
    obtain ⟨log₁, es₁, now, log₂, es₂, rfl, rfl, hnow, hrest⟩ := runs_bind.mp h
    obtain ⟨rfl, rfl⟩ := runs_query (q := .clock).mp hnow
    obtain ⟨rfl, rfl, rfl⟩ := runs_pure.mp hrest
    have hbefore : now.isBefore deadline = true := hfollows _ List.mem_cons_self deadline hdeadline
    refine ⟨by rw [hbefore]; rfl, fun x hx => ?_⟩
    rw [List.mem_singleton.mp hx]
    rfl

namespace Beside

theorem settings (h : p.Beside t t') (s : ModelSettings) : t.settings s = t'.settings s := by
  simp only [TaskContext.settings, h.engine]

theorem scope (h : p.Beside t t') (inputs : Json) (memory : Json.Fields) :
    t.scope inputs memory = t'.scope inputs memory := by
  simp only [TaskContext.scope, h.definition]

theorem model (h : p.Beside t t') : t.model = t'.model := by
  simp only [TaskContext.model, h.engine]

theorem maxRetries (h : p.Beside t t') : t.maxRetries = t'.maxRetries := by
  simp only [TaskContext.maxRetries, h.definition, h.engine, h.retries]

theorem validated (h : p.Beside t t') (outputs : Json) :
    p.Same (t.validated outputs).run (t'.validated outputs).run := by
  have hvalid : t.validate outputs = t'.validate outputs := by
    simp only [TaskContext.validate, h.definition, h.engine]
  unfold TaskContext.validated
  rw [hvalid]
  exact same_andThen (same_ofExcept _) fun _ => same_ok outputs

theorem memory (h : p.Beside t t') : p.Same t.memory.run t'.memory.run := by
  unfold TaskContext.memory
  rw [h.identity]
  exact same_mapOk _ (same_query (q := .memory t'.identity) trivial)

theorem isPastDeadline (h : p.Beside t t') :
    p.InStep (fun late late' => late = false ∧ late' = false) t.isPastDeadline
      t'.isPastDeadline where
  agree := by
    intro cache log es r log' es' r' hcache hcached hplain ha hb
    obtain ⟨hr, hstored⟩ := runs_isPastDeadline (h.deadline ▸ hcached.follows) ha
    obtain ⟨hr', -⟩ := runs_isPastDeadline (h.deadline' ▸ hplain.follows) hb
    rw [cacheAfter_of_stored?_eq_none hstored]
    exact ⟨⟨hr, hr'⟩, hcache⟩
  complete := by
    intro _ cache log' es' r' _ _ _
    unfold TaskContext.isPastDeadline
    split
    · exact finds_pure cache false
    · exact finds_bind (p.finds_now cache) fun cache _ => finds_pure cache _

theorem retry (h : p.Beside t t') {attempt attempt' : Nat → Fallible α}
    (hattempt : ∀ n, p.Same (attempt n).run (attempt' n).run) :
    p.Same (t.retry attempt).run (t'.retry attempt').run := by
  unfold TaskContext.retry Retry.run
  rw [h.maxRetries, h.definition]
  suffices hfrom : ∀ remaining n, p.Same
      (Retry.runFrom t'.definition.id t.isPastDeadline (fun n => (attempt n).run) remaining n)
      (Retry.runFrom t'.definition.id t'.isPastDeadline (fun n => (attempt' n).run) remaining n)
    from hfrom _ 1
  intro remaining
  induction remaining with
  | zero =>
    intro n
    unfold Retry.runFrom
    refine inStep_bind (hattempt n) fun r r' hr => ?_
    subst hr
    cases r with
    | ok value => exact inStep_pure rfl
    | error e =>
      dsimp only
      split <;> exact inStep_pure rfl
  | succ remaining ih =>
    intro n
    unfold Retry.runFrom
    refine inStep_bind (hattempt n) fun r r' hr => ?_
    subst hr
    cases r with
    | ok value => exact inStep_pure rfl
    | error e =>
      dsimp only
      split
      · exact inStep_pure rfl
      · refine inStep_bind h.isPastDeadline fun late late' hlate => ?_
        obtain ⟨rfl, rfl⟩ := hlate
        exact ih (n + 1)

end Beside

theorem same_callModel (messages : List ChatMessage) (settings : ModelSettings) :
    p.Same (TaskContext.callModel messages settings).run
      (TaskContext.callModel messages settings).run := same_query trivial

theorem same_report (events events' : List Event) :
    p.Same (TaskContext.report events).run (TaskContext.report events').run :=
  same_lift (inStep_reportAll events events')

theorem same_reportUsage (usage : Option Usage) :
    p.Same (t.reportUsage usage).run (t'.reportUsage usage).run := by
  cases usage with
  | none => exact same_ok ()
  | some u => exact same_report _ _

/-! ### The kinds of agents -/

namespace Beside

theorem modelPrompt_prompt (h : p.Beside t t') (spec : ModelPromptSpec) (inputs : Json) :
    p.Same (ModelPrompt.prompt t spec inputs).run (ModelPrompt.prompt t' spec inputs).run := by
  unfold ModelPrompt.prompt
  refine same_andThen h.memory fun memory => ?_
  rw [h.scope]
  exact same_ok _

theorem narrative (attempt : Nat) (pieces : List String) :
    p.Same (ModelPrompt.reportNarrative t attempt pieces).run
      (ModelPrompt.reportNarrative t' attempt pieces).run := by
  unfold ModelPrompt.reportNarrative
  split
  · exact same_report _ _
  · exact same_ok ()

theorem narrate (messages : List ChatMessage) (settings : ModelSettings) (attempt : Nat) :
    p.Same (ModelPrompt.narrate t messages settings attempt).run
      (ModelPrompt.narrate t' messages settings attempt).run := by
  refine same_andThen (same_callModel messages settings) fun stream => ?_
  refine same_andThen (narrative attempt _) fun _ => ?_
  exact same_ofExcept _

theorem structuredAttempt (h : p.Beside t t') (messages : List ChatMessage)
    (settings : ModelSettings) (attempt : Nat) :
    p.Same (ModelPrompt.structuredAttempt t messages settings attempt).run
      (ModelPrompt.structuredAttempt t' messages settings attempt).run := by
  -- what follows is the same whether there is a narrative or not
  have hafter (d : Definition) (narrative : Response) : p.Same (do
      let schema := (OutputSchema.structured d).jsonSchema
      let stream ← TaskContext.callModel messages { settings with responseSchema := some schema }
      let answer ← MonadExcept.ofExcept (Response.ofStream stream)
      t.reportUsage (Response.addUsage narrative.usage answer.usage)
      let fields ← MonadExcept.ofExcept (ModelPrompt.objectOf answer.text)
      return .obj (ModelPrompt.fillStreamed d narrative.text fields) : Fallible Json).run (do
      let schema := (OutputSchema.structured d).jsonSchema
      let stream ← TaskContext.callModel messages { settings with responseSchema := some schema }
      let answer ← MonadExcept.ofExcept (Response.ofStream stream)
      t'.reportUsage (Response.addUsage narrative.usage answer.usage)
      let fields ← MonadExcept.ofExcept (ModelPrompt.objectOf answer.text)
      return .obj (ModelPrompt.fillStreamed d narrative.text fields) : Fallible Json).run := by
    refine same_andThen (same_callModel _ _) fun stream => ?_
    refine same_andThen (same_ofExcept _) fun answer => ?_
    refine same_andThen (same_reportUsage _) fun _ => ?_
    exact same_andThen (same_ofExcept _) fun fields => same_ok _
  unfold ModelPrompt.structuredAttempt
  dsimp only
  rw [h.definition]
  split
  · exact same_andThen (narrate messages settings attempt) (hafter _)
  · exact same_andThen (same_ok _) (hafter _)

theorem fencedAttempt (h : p.Beside t t') (messages : List ChatMessage)
    (settings : ModelSettings) (attempt : Nat) :
    p.Same (ModelPrompt.fencedAttempt t messages settings attempt).run
      (ModelPrompt.fencedAttempt t' messages settings attempt).run := by
  unfold ModelPrompt.fencedAttempt
  dsimp only
  rw [h.definition, h.engine]
  refine same_andThen (same_callModel _ _) fun stream => ?_
  refine same_andThen (narrative attempt _) fun _ => ?_
  refine same_andThen (same_ofExcept _) fun chunks => ?_
  refine same_andThen (same_ofExcept _) fun answer => ?_
  exact same_andThen (same_reportUsage _) fun _ => same_ok _

theorem modelPrompt (h : p.Beside t t') (spec : ModelPromptSpec) (inputs : Json) :
    p.Same (ModelPrompt.process t spec inputs).run (ModelPrompt.process t' spec inputs).run := by
  unfold ModelPrompt.process
  rw [h.model, h.settings]
  refine same_andThen (same_ofExcept _) fun model => ?_
  refine same_andThen (h.modelPrompt_prompt spec inputs) fun messages => ?_
  refine h.retry fun attempt => ?_
  dsimp only
  split
  · exact same_andThen (h.structuredAttempt _ _ attempt) h.validated
  · exact same_andThen (h.fencedAttempt _ _ attempt) h.validated

theorem runGroups (h : p.Beside t t') (groups : List (List PipelineStep)) (vars : Json.Fields)
    (last : Json) : p.Same (Pipeline.runGroups t vars last groups).run
      (Pipeline.runGroups t' vars last groups).run := by
  induction groups generalizing vars last with
  | nil => exact same_ok _
  | cons group rest ih =>
    have hgroup : p.Same (Pipeline.runGroup t vars group).run
        (Pipeline.runGroup t' vars group).run := by
      refine same_mapM (fun step => ?_) group
      exact same_andThen (h.runChild _ _) fun _ => same_ok _
    exact same_andThen hgroup fun outputs => ih _ _

theorem pipeline (h : p.Beside t t') (spec : PipelineSpec) (inputs : Json) :
    p.Same (Pipeline.process t spec inputs).run (Pipeline.process t' spec inputs).run :=
  same_andThen (h.runGroups _ _ _) fun _ => h.validated _

theorem choose (h : p.Beside t t') (spec : DecisionSpec) (inputs : Json) :
    p.Same (Decision.choose t spec inputs).run (Decision.choose t' spec inputs).run := by
  unfold Decision.choose
  dsimp only
  rw [h.model, h.settings, h.definition]
  refine same_andThen (same_ofExcept _) fun _ => ?_
  refine h.retry fun attempt => ?_
  refine same_andThen (same_callModel _ _) fun stream => ?_
  refine same_andThen (same_ofExcept _) fun answer => ?_
  refine same_andThen (same_reportUsage _) fun _ => ?_
  exact same_ofExcept _

theorem decision (h : p.Beside t t') (spec : DecisionSpec) (inputs : Json) :
    p.Same (Decision.process t spec inputs).run (Decision.process t' spec inputs).run := by
  refine same_andThen (h.choose spec inputs) fun chosen => ?_
  split
  · exact same_ok _
  · refine same_andThen (h.runChild _ _) fun outputs => ?_
    exact same_andThen (h.validated _) fun _ => same_ok _

theorem endpointOf (h : p.Beside t t') (ref : EndpointRef) :
    p.Same (HttpApi.endpointOf t ref).run (HttpApi.endpointOf t' ref).run := by
  cases ref with
  | inline e => exact same_ok e
  | named name =>
    change p.Same (HttpApi.endpointNamed t name).run (HttpApi.endpointNamed t' name).run
    unfold HttpApi.endpointNamed
    rw [h.engine, h.definition]
    split
    · exact same_ok _
    · refine same_andThen (same_query (q := .endpoint name) trivial) fun found => ?_
      split
      · exact same_ok _
      · exact same_throw _

theorem httpApi (h : p.Beside t t') (spec : HttpApiSpec) (inputs : Json) :
    p.Same (HttpApi.process t spec inputs).run (HttpApi.process t' spec inputs).run := by
  refine same_andThen (h.endpointOf _) fun endpoint => ?_
  refine same_andThen (same_ofExcept _) fun request => ?_
  refine h.retry fun attempt => ?_
  refine same_andThen (same_query (q := .http request) trivial) fun response => ?_
  exact same_andThen (same_ofExcept _) fun _ => h.validated _

theorem imageGeneration (h : p.Beside t t') (spec : ImageGenerationSpec) (inputs : Json) :
    p.Same (ImageGeneration.process t spec inputs).run
      (ImageGeneration.process t' spec inputs).run := by
  have hrest : p.Same (do
      let prompt := Template.renderText (t.scope inputs (← t.memory)) spec.prompt
      let images ← ExceptT.mk
        (Activity.query (.images prompt (t.settings spec.model) (max spec.count 1)))
      TaskContext.report (t.emitter.images images)
      t.validated (ImageGeneration.outputsOf t.definition images) : Fallible Json).run (do
      let prompt := Template.renderText (t'.scope inputs (← t'.memory)) spec.prompt
      let images ← ExceptT.mk
        (Activity.query (.images prompt (t'.settings spec.model) (max spec.count 1)))
      TaskContext.report (t'.emitter.images images)
      t'.validated (ImageGeneration.outputsOf t'.definition images) : Fallible Json).run := by
    refine same_andThen h.memory fun memory => ?_
    rw [h.scope, h.settings, h.definition]
    refine same_andThen (same_query trivial) fun images => ?_
    exact same_andThen (same_report _ _) fun _ => h.validated _
  unfold ImageGeneration.process
  dsimp only
  rw [h.engine]
  split
  · exact same_andThen (same_throw _) fun _ => hrest
  · exact hrest

theorem fetch (h : p.Beside t t') (method url : String) (body : Json) :
    p.Same (ScriptedLogic.fetch t method url body).run
      (ScriptedLogic.fetch t' method url body).run := by
  unfold ScriptedLogic.fetch
  rw [h.engine]
  refine same_andThen (same_ofExcept _) fun _ => ?_
  refine same_andThen (same_query (q := .http _) trivial) fun response => ?_
  exact same_ok _

theorem runAgent (h : p.Beside t t') (emitter emitter' : TaskEmitter) (agent : String)
    (inputs : Json) (relayText : Bool) :
    p.Same (ScriptedLogic.runAgent t emitter agent inputs relayText).run
      (ScriptedLogic.runAgent t' emitter' agent inputs relayText).run := by
  have hchild := h.runChild agent inputs
  unfold ScriptedLogic.runAgent
  dsimp only
  split
  all_goals
    rw [bind_map_left, bind_map_left]
    refine same_liftThen (inStep_through hchild _ _ _ _) fun said said' hresult => ?_
    rw [hresult]
    exact same_ofExcept _

theorem logLine (emitter emitter' : TaskEmitter) (message : String) :
    p.Same (ScriptedLogic.logLine emitter message).run
      (ScriptedLogic.logLine emitter' message).run := by
  refine same_liftThen inStep_now fun now now' _ => ?_
  exact same_andThen (same_report _ _) fun _ => same_ok _

theorem write {c c' : Composer} (haccepts : c.accepts = c'.accepts) (d : JsonDocument)
    (piece : String) : p.Same (c.write d piece).run (c'.write d piece).run := by
  have hdocument : (c.add d piece).2 = (c'.add d piece).2 := by
    simp only [Composer.add, haccepts]
  unfold Composer.write
  dsimp only
  rw [hdocument]
  exact same_andThen (same_report _ _) fun _ => same_ok _

theorem compose {c c' : Composer} (haccepts : c.accepts = c'.accepts)
    {parts : List Script.DocumentPart} (hown : ∀ part ∈ parts, part.IsOwn) :
    p.Same (c.compose t parts).run (c'.compose t' parts).run := by
  have hpart (d : JsonDocument) (part : Script.DocumentPart) (hmem : part ∈ parts) :
      p.Same (c.addPart t d part).run (c'.addPart t' d part).run := by
    cases part with
    | raw text => exact write haccepts d text
    | value value => exact write haccepts d value.compact
    | agent agent inputs => exact (hown _ hmem).elim
  exact same_andThen (same_foldlM hpart _) fun d => same_ofExcept d.value

theorem answer (h : p.Beside t t') (emitter emitter' : TaskEmitter) {call : Script.HostCall}
    (hquotes : call.QuotesNone) : p.Same (ScriptedLogic.answer t emitter call).run
      (ScriptedLogic.answer t' emitter' call).run := by
  cases call with
  | log message => exact logLine emitter emitter' message
  | fetch method url body => exact h.fetch method url body
  | runAgent agent inputs relayText => exact h.runAgent emitter emitter' agent inputs relayText
  | renderJson parts =>
    refine compose ?_ hquotes
    rw [h.engine, h.definition]

end Beside

/-- A script whose calls are answered alike goes on alike. -/
theorem same_serve {granted : CapabilitySet}
    {handle handle' : Script.HostCall → Activity (Option (Except Error Json))}
    (hhandle : ∀ call, call.QuotesNone → p.Same (handle call) (handle' call)) (timeout : Error)
    {i : Script.Interaction granted α} (hquotes : i.QuotesNone) :
    p.Same (i.serve handle timeout) (i.serve handle' timeout) := by
  induction i with
  | done result => exact inStep_pure rfl
  | notify request rest ih =>
    refine inStep_bind (hhandle _ hquotes.1) ?_
    rintro answered _ rfl
    cases answered with
    | none => exact inStep_pure rfl
    | some _ => exact ih hquotes.2
  | call request resume ih =>
    unfold Script.Interaction.serve
    refine inStep_bind (hhandle _ hquotes.1) ?_
    rintro answered _ rfl
    cases answered with
    | none => exact inStep_pure rfl
    | some answer => exact ih answer (hquotes.2 answer)

theorem same_script {handle handle' : Script.HostCall → Activity (Option (Except Error Json))}
    (hhandle : ∀ call, call.QuotesNone → p.Same (handle call) (handle' call)) {l : SandboxLimits}
    {code : String} {arguments : Json.Fields}
    (hquotes : (Script.start l code arguments).QuotesNone) :
    p.Same (Script.run l code arguments handle) (Script.run l code arguments handle') := by
  unfold Script.run
  split
  · exact inStep_pure rfl
  · split
    · exact inStep_pure rfl
    · exact inStep_map (same_serve hhandle _ hquotes) fun _ _ hr => by rw [hr]

namespace Beside

theorem readStream (h : p.Beside t t') (attempt : Nat) (path : String)
    (items : Stream Json) : p.Same (ScriptedLogic.readStream t attempt path items).run
      (ScriptedLogic.readStream t' attempt path items).run := by
  unfold ScriptedLogic.readStream
  rw [h.definition]
  split
  · split
    · refine same_andThen (same_report _ _) fun _ => ?_
      exact same_andThen (same_ofExcept _) fun _ => same_ok _
    · exact same_andThen (same_ofExcept _) fun _ => same_ok _
  · exact same_andThen (same_ofExcept _) fun _ => same_ok _

theorem readStreams (h : p.Beside t t') (attempt : Nat) (paths : List String) (value : Json)
    (relay : Script.Relay) : p.Same (ScriptedLogic.readStreams t attempt value relay paths).run
      (ScriptedLogic.readStreams t' attempt value relay paths).run := by
  induction paths generalizing value relay with
  | nil => exact same_ok value
  | cons path rest ih => exact same_andThen (h.readStream attempt path _) fun held => ih _ _

theorem scriptedLogic (h : p.Beside t t') (spec : ScriptSpec) (inputs : Json)
    (hquotes : ∀ arguments,
      (Script.start t.engine.config.sandbox spec.source arguments).QuotesNone) :
    p.Same (ScriptedLogic.process t spec inputs).run
      (ScriptedLogic.process t' spec inputs).run := by
  refine h.retry fun attempt => ?_
  dsimp only
  rw [← h.engine]
  refine same_andThen ?_ fun outcome => ?_
  · refine same_script (fun call hcall => ?_) (hquotes _)
    exact inStep_map (h.answer _ _ hcall) fun _ _ hr => congrArg some hr
  · exact same_andThen (h.readStreams attempt _ _ _) h.validated

theorem process (h : p.Beside t t') (hquotes : t.definition.QuotesNone t.engine.config.sandbox)
    (inputs : Json) : p.Same (t.process inputs).run (t'.process inputs).run := by
  unfold TaskContext.process
  rw [← h.definition]
  split
  · exact same_mapOk _ (h.modelPrompt _ inputs)
  · next spec hkind => exact same_mapOk _ (h.scriptedLogic spec inputs (hquotes spec hkind))
  · exact same_mapOk _ (h.pipeline _ inputs)
  · exact h.decision _ inputs
  · exact same_mapOk _ (h.httpApi _ inputs)
  · exact same_mapOk _ (h.imageGeneration _ inputs)

end Beside

/-! ### Performing -/

theorem alone_prompt (t : TaskContext) (inputs : Json) : p.Alone (t.prompt inputs).run := by
  refine alone_of (fun hrun x hx => ?_) fun cache => ?_
  · exact Exchange.stored?_of_isOwn ((prompt_quiet t inputs hrun).1 x hx)
  · unfold TaskContext.prompt
    split
    · refine finds_mapOk _ (finds_bind (finds_mapOk _ ?_) fun cache r => ?_)
      · exact finds_query (q := .memory t.identity) trivial cache
      · cases r <;> exact finds_pure cache _
    all_goals exact finds_pure cache _

theorem alone_reportPhase (t : TaskContext) (phase : ExecutePhase) :
    p.Alone (t.reportPhase phase) :=
  inStep_lead alone_now fun _ => alone_reportAll _

theorem run_performWith (t : TaskContext) (work : Json → Fallible TaskResult) (inputs : Json) :
    (t.performWith work inputs).run = (do
      let shown ← (t.prompt inputs).run
      reportAll (t.emitter.input (redact t.definition inputs) shown.toOption.join)
      t.reportPhase .start
      match ← (work inputs).run with
      | .ok result =>
        t.reportPhase result.phase
        return .ok result.outputs
      | .error e =>
        t.reportPhase .finish
        return .error e) := by
  refine run_liftThen.trans (bind_congr fun shown => ?_)
  refine run_liftThen.trans (bind_congr fun _ => ?_)
  refine run_liftThen.trans (bind_congr fun _ => ?_)
  refine run_liftThen.trans (bind_congr fun result => ?_)
  cases result with
  | ok result => exact run_liftThen
  | error e => exact run_liftThen

theorem inStep_performWith (t : TaskContext) {work work' : Json → Fallible TaskResult}
    {inputs : Json} (hwork : p.Same (work inputs).run (work' inputs).run) :
    p.InStep (fun res res' => res = res'.map TaskResult.outputs) (t.performWith work inputs).run
      (work' inputs).run := by
  rw [run_performWith]
  refine inStep_lead (alone_prompt t inputs) fun shown => ?_
  refine inStep_lead (alone_reportAll _) fun _ => ?_
  refine inStep_lead (alone_reportPhase t _) fun _ => ?_
  refine inStep_trail hwork fun result result' hresult => ?_
  subst hresult
  cases result with
  | ok result => exact inStep_lead (alone_reportPhase t _) fun _ => inStep_pure rfl
  | error e => exact inStep_lead (alone_reportPhase t _) fun _ => inStep_pure rfl

end Pairing

end Agents
