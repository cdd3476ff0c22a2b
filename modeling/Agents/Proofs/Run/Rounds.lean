import Agents.Proofs.Binding
import Agents.Proofs.Json.Overlay
import Agents.Proofs.Run.Siblings

/-! # Pipelines in rounds

A pipeline runs its groups in rounds. A group sees the inputs, and over them the outputs of the
groups before it (`visible`); what its own steps put out is seen by later groups only. So the order
in which the steps of a group come to their ends does not matter, and `Rounds` says what a run is
like without it: in each round every step of one group runs its agent once. Either all of them
succeed, and the next round follows, or one fails, and there is no other round.

`process_in_rounds` says so for every pipeline whose children are functions: the result of a child
is decided by its agent and its inputs, for answers of a given kind. The induction is on the groups
that are left, and it carries that the variables are those that `visible` makes of the steps so far.
-/

namespace Agents

namespace Activity

variable {α β ε : Type} {answers : Exchange → Prop}

/-! ## Coming to an end -/

/-- As long as the answers are of this kind, the activity comes to an end, with such a result. -/
inductive Concludes (answers : Exchange → Prop) (P : α → Prop) : Activity α → Prop
  | done {r : α} (h : P r) : Concludes answers P (.done r)
  | report (event : Event) {rest : Activity α} (h : Concludes answers P rest) :
      Concludes answers P (.report event rest)
  | ask {query : Query} {resume : query.Answer → Activity α}
      (h : ∀ answer, answers ⟨query, answer⟩ → Concludes answers P (resume answer)) :
      Concludes answers P (.ask query resume)

/-- The activity comes to an end, with whatever result. -/
def Terminates (answers : Exchange → Prop) (a : Activity α) : Prop :=
  a.Concludes answers fun _ => True

namespace Concludes

variable {P Q : α → Prop} {a : Activity α}

theorem mono (h : a.Concludes answers P) (hPQ : ∀ r, P r → Q r) : a.Concludes answers Q := by
  induction h with
  | done h => exact .done (hPQ _ h)
  | report event _ ih => exact .report event ih
  | ask _ ih => exact .ask ih

theorem terminates (h : a.Concludes answers P) : a.Terminates answers := h.mono fun _ _ => trivial

theorem bind {P : β → Prop} {f : α → Activity β} (ha : a.Concludes answers Q)
    (hf : ∀ r, Q r → (f r).Concludes answers P) : (a >>= f).Concludes answers P := by
  induction ha with
  | done h => exact hf _ h
  | report event _ ih => exact .report event ih
  | ask _ ih => exact .ask ih

theorem liftThen {P : Except ε β → Prop} {f : α → ExceptT ε Activity β}
    (ha : a.Concludes answers Q) (hf : ∀ r, Q r → (f r).run.Concludes answers P) :
    ((liftM a : ExceptT ε Activity α) >>= f).run.Concludes answers P := by
  rw [run_liftThen]
  exact ha.bind hf

theorem result {log : List Exchange} {es : List Event} {r : α} (h : a.Concludes answers P)
    (hruns : Runs a log es r) (hlog : ∀ x ∈ log, answers x) : P r := by
  induction hruns with
  | done r =>
    cases h with
    | done h => exact h
  | report event _ ih =>
    cases h with
    | report _ h => exact ih h hlog
  | ask answer _ ih =>
    cases h with
    | ask h =>
      obtain ⟨hanswer, hrest⟩ := List.forall_mem_cons.mp hlog
      exact ih (h answer hanswer) hrest

theorem exists_run (h : a.Concludes answers P)
    (hanswers : ∀ query, ∃ answer, answers ⟨query, answer⟩) :
    ∃ log es r, Runs a log es r ∧ ∀ x ∈ log, answers x := by
  induction h with
  | @done r _ => exact ⟨[], [], r, .done r, List.forall_mem_nil _⟩
  | report event _ ih =>
    obtain ⟨log, es, r, hruns, hlog⟩ := ih
    exact ⟨log, event :: es, r, .report event hruns, hlog⟩
  | @ask query resume _ ih =>
    obtain ⟨answer, hanswer⟩ := hanswers query
    obtain ⟨log, es, r, hruns, hlog⟩ := ih answer hanswer
    exact ⟨⟨query, answer⟩ :: log, es, r, .ask answer hruns,
      List.forall_mem_cons.mpr ⟨hanswer, hlog⟩⟩

theorem upTo {stop : Step → Bool} (h : a.Concludes answers P) :
    (a.upTo stop).Concludes answers fun left => left.Concludes answers P := by
  induction h with
  | done h => exact .done (.done h)
  | @report event rest h ih =>
    refine .report event ?_
    split
    · exact .done h
    · exact ih
  | ask h ih =>
    refine .ask fun answer hanswer => ?_
    split
    · exact .done (h answer hanswer)
    · exact ih answer hanswer

end Concludes

theorem terminates_compositional (answers : Exchange → Prop) :
    Compositional (Terminates answers) where
  pure := fun _ => .done trivial
  bind := fun ha hf => ha.bind fun r _ => hf r

theorem terminates_inOrder {runs : List (Fallible α)}
    (h : ∀ run ∈ runs, run.run.Terminates answers) : (runs.mapM id).run.Terminates answers := by
  have hcompositional := terminates_compositional answers
  induction runs with
  | nil => exact hcompositional.ok []
  | cons run rest ih =>
    obtain ⟨hrun, hrest⟩ := List.forall_mem_cons.mp h
    rw [List.mapM_cons]
    exact hcompositional.andThen hrun fun x =>
      hcompositional.andThen (ih hrest) fun xs => hcompositional.ok _

end Activity

open Activity

/-- Runs that come to an end also do so side by side, whatever the turns are. -/
theorem terminates_together {α : Type} {answers : Exchange → Prop} {turns : List Turn}
    {runs : List (Fallible α)} (h : ∀ run ∈ runs, run.run.Terminates answers) :
    (together turns runs).run.Terminates answers := by
  induction turns generalizing runs with
  | nil => exact terminates_inOrder h
  | cons turn turns ih =>
    unfold together
    split
    · exact ih h
    next run hrun =>
    have hterminates : run.run.Terminates answers := h run (List.mem_of_getElem? hrun)
    refine hterminates.upTo.liftThen fun left hleft => ?_
    split
    · exact .done trivial
    · refine ih fun run' hrun' => ?_
      rcases List.mem_or_eq_of_mem_set hrun' with hmem | rfl
      · exact h run' hmem
      · exact hleft

namespace Pipeline

/-! ## Groups -/

/-- Steps in groups that run together: a step by itself, or neighbouring concurrent steps, as many
as there are. -/
structure Grouped (steps : List PipelineStep) (gs : List (List PipelineStep)) : Prop where
  joined : steps = gs.flatten
  filled : [] ∉ gs
  kinds : ∀ group ∈ gs, (∃ step, group = [step]) ∨ ∀ step ∈ group, step.concurrent = true
  widest : gs.IsChain fun a b =>
    ¬ ((∀ step ∈ a, step.concurrent = true) ∧ ∀ step ∈ b, step.concurrent = true)

/-- A step by itself or a concurrent group: what holds of one of its steps holds of all. -/
theorem concurrent_of_mem {group : List PipelineStep} {step : PipelineStep}
    (hkind : (∃ step, group = [step]) ∨ ∀ step ∈ group, step.concurrent = true)
    (hmem : step ∈ group) (hstep : step.concurrent = true) :
    ∀ step ∈ group, step.concurrent = true := by
  rcases hkind with ⟨only, rfl⟩ | hall
  · obtain rfl := List.mem_singleton.mp hmem
    exact List.forall_mem_singleton.mpr hstep
  · exact hall

theorem grouped_groups (steps : List PipelineStep) : Grouped steps (groups steps) where
  joined := (List.flatten_splitBy _ steps).symm
  filled := List.nil_notMem_splitBy _ steps
  kinds := by
    intro group hgroup
    match hmatch : group, List.ne_nil_of_mem_splitBy hgroup with
    | [step], _ => exact .inl ⟨step, rfl⟩
    | _ :: _ :: rest, _ =>
      exact .inr (concurrent_of_several hgroup (Nat.le_add_left 2 rest.length))
  widest := by
    refine (List.isChain_getLast_head_splitBy _ steps).imp ?_
    rintro a b ⟨ha, hb, hborder⟩ ⟨hall, hall'⟩
    rw [hall _ (List.getLast_mem ha), hall' _ (List.head_mem hb)] at hborder
    cases hborder

/-- There is one way to group the steps. -/
theorem grouped_iff {steps : List PipelineStep} {gs : List (List PipelineStep)} :
    Grouped steps gs ↔ gs = groups steps := by
  constructor
  · rintro ⟨hjoined, hfilled, hkinds, hwidest⟩
    refine (List.splitBy_eq_iff.mpr ⟨hjoined, hfilled, fun group hgroup => ?_, ?_⟩).symm
    · rcases hkinds group hgroup with ⟨step, rfl⟩ | hall
      · exact .singleton step
      · refine List.isChain_iff_getElem.mpr fun i hi => ?_
        rw [hall _ (List.getElem_mem _), hall _ (List.getElem_mem _)]
        rfl
    · refine List.isChain_iff_getElem.mpr fun i hi => ?_
      have hne (j : ℕ) (hj : j < gs.length) : gs[j] ≠ [] := by
        intro hnil
        exact hfilled (hnil ▸ List.getElem_mem hj)
      refine ⟨hne i (Nat.lt_of_succ_lt hi), hne (i + 1) hi, ?_⟩
      have happart := List.isChain_iff_getElem.mp hwidest i hi
      rw [Bool.and_eq_false_iff]
      by_contra hboth
      rw [not_or, Bool.not_eq_false, Bool.not_eq_false] at hboth
      exact happart
        ⟨concurrent_of_mem (hkinds _ (List.getElem_mem _)) (List.getLast_mem _) hboth.1,
          concurrent_of_mem (hkinds _ (List.getElem_mem _)) (List.head_mem _) hboth.2⟩
  · rintro rfl
    exact grouped_groups steps

/-! ## Variables -/

/-- The variables after some steps, each with its outputs: the inputs, and over them the outputs
under the names of the steps. -/
def visible (inputs : Json) (earlier : List (PipelineStep × Json)) : Json.Fields :=
  Json.Fields.overlay (inputFields inputs) (earlier.map fun (step, out) => (step.name, out))

def lastOutputs (earlier : List (PipelineStep × Json)) : Json :=
  (earlier.getLast?.map (·.2)).getD .null

/-- A name stands for the outputs of the last step of that name, and else for an input. -/
theorem get?_visible (inputs : Json) (earlier : List (PipelineStep × Json)) (name : String) :
    Json.Fields.get? name (visible inputs earlier) =
      ((earlier.filter fun (step, _) => step.name = name).getLast?.map (·.2)).or
        (inputs.get? name) := by
  have hinputs : Json.Fields.get? name (inputFields inputs) = inputs.get? name := by
    cases inputs <;> rfl
  rw [visible, Json.Fields.get?_overlay_last?, Json.Fields.last?_eq_getLast?, List.filter_map,
    List.getLast?_map, Option.map_map, hinputs]
  rfl

theorem visible_append (inputs : Json) (earlier later : List (PipelineStep × Json)) :
    visible inputs (earlier ++ later) = Json.Fields.overlay (visible inputs earlier)
      (later.map fun (step, out) => (step.name, out)) := by
  simp [visible, Json.Fields.overlay]

theorem lastOutputs_append (earlier later : List (PipelineStep × Json)) :
    lastOutputs (earlier ++ later) =
      (later.getLast?.map (·.2)).getD (lastOutputs earlier) := by
  rw [lastOutputs, List.getLast?_append]
  cases later.getLast? <;> rfl

/-! ## One round -/

def childOf (t : TaskContext) (vars : Json.Fields) (step : PipelineStep) : Fallible Json :=
  t.runChild step.agent (.obj (step.inputs.resolve vars))

variable {t : TaskContext} {overlap : Overlap} {vars : Json.Fields} {log : List Exchange}
  {es : List Event} {group : List PipelineStep} {answers : Exchange → Prop}
  {child : String → Json.Fields → Except Error Json}

theorem advances_childOf {step : PipelineStep} {c : Course (String × Json)}
    (h : c.IsOf (runStep t vars step)) : ∃ left,
      Advances (childOf t vars step).run c.log c.events left ∧
      ∀ r, c.left = .done r → ∃ r', left = .done r' ∧ r = r'.map fun out => (step.name, out) := by
  have hmap : runStep t vars step = (fun out => (step.name, out)) <$> childOf t vars step :=
    (map_eq_pure_bind _ _).symm
  rw [Course.IsOf, hmap, ExceptT.run_map] at h
  obtain ⟨left, hchild, hleft⟩ := advances_map h
  refine ⟨left, hchild, fun r hr => ?_⟩
  rw [hr] at hleft
  cases left with
  | done r' => exact ⟨r', rfl, Activity.done.inj hleft⟩
  | report event rest => cases hleft
  | ask query resume => cases hleft
  | tooDeep => cases hleft

/-- The courses of the steps are those of their children; where they end well, the children do, and
a step that fails does so because its child fails. -/
theorem exists_children {courses : List (Course (String × Json))}
    (h : Courses (group.map (runStep t vars)) courses log es) :
    ∃ children, Courses (group.map (childOf t vars)) children log es ∧
      (∀ results, courses.map Course.left = results.map (fun x => .done (.ok x)) →
        ∃ outputs, children.map Course.left = outputs.map (fun x => .done (.ok x)) ∧
          results = (group.zip outputs).map fun (step, out) => (step.name, out)) ∧
      ∀ e, .done (.error e) ∈ courses.map Course.left →
        .done (.error e) ∈ children.map Course.left := by
  induction group generalizing courses log es with
  | nil =>
    cases h
    refine ⟨[], .nil, fun results hresults => ?_, nofun⟩
    match results, hresults with
    | [], _ => exact ⟨[], rfl, rfl⟩
  | cons step rest ih =>
    cases h with
    | @cons _ _ c courses _ _ _ _ hc hothers hlog hes =>
      obtain ⟨children, hchildren, hok, herror⟩ := ih hothers
      obtain ⟨left, hadvances, hleft⟩ := advances_childOf hc
      refine ⟨⟨c.log, c.events, left⟩ :: children, .cons hadvances hchildren hlog hes, ?_, ?_⟩
      · intro results hresults
        match results, hresults with
        | result :: results, hresults =>
          simp only [List.map_cons, List.cons.injEq] at hresults
          obtain ⟨outputs, hlefts, rfl⟩ := hok results hresults.2
          obtain ⟨r, rfl, hr⟩ := hleft _ hresults.1
          cases r with
          | error e => cases hr
          | ok out =>
            cases hr
            exact ⟨out :: outputs, by rw [List.map_cons, List.map_cons, hlefts], rfl⟩
      · intro e he
        rcases List.mem_cons.mp he with hfailed | hlater
        · obtain ⟨r, rfl, hr⟩ := hleft _ hfailed.symm
          cases r with
          | ok out => cases hr
          | error e' =>
            cases hr
            exact List.mem_cons_self
        · exact List.mem_cons_of_mem _ (herror e hlater)

/-- What the children of a group give, if their agents and inputs decide it. -/
def results (child : String → Json.Fields → Except Error Json) (vars : Json.Fields)
    (group : List PipelineStep) : List (Except Error Json) :=
  group.map fun step => child step.agent (step.inputs.resolve vars)

theorem results_of_children {children : List (Course Json)} {outputs : List Json}
    (h : Courses (group.map (childOf t vars)) children log es) (hlog : ∀ x ∈ log, answers x)
    (hchild : ∀ step ∈ group, (childOf t vars step).run.Concludes answers
      (· = child step.agent (step.inputs.resolve vars)))
    (hok : children.map Course.left = outputs.map fun x => .done (.ok x)) :
    results child vars group = outputs.map .ok := by
  induction group generalizing children outputs log es with
  | nil =>
    cases h
    match outputs, hok with
    | [], _ => rfl
  | cons step rest ih =>
    cases h with
    | @cons _ _ c children _ _ _ _ hc hothers hlog' hes =>
      match outputs, hok with
      | out :: outputs, hok =>
        simp only [List.map_cons, List.cons.injEq] at hok
        obtain ⟨hstep, hrest⟩ := List.forall_mem_cons.mp hchild
        have hruns : Runs (childOf t vars step).run c.log c.events (.ok out) := by
          rw [runs_iff_advances, ← hok.1]
          exact hc
        have hout := hstep.result hruns fun x hx => hlog x (hlog'.sublist_left.subset hx)
        have houts := ih hothers (fun x hx => hlog x (hlog'.sublist_right.subset hx)) hrest hok.2
        rw [results, List.map_cons, ← results, houts, ← hout, List.map_cons]

theorem error_mem_results {children : List (Course Json)} {e : Error}
    (h : Courses (group.map (childOf t vars)) children log es) (hlog : ∀ x ∈ log, answers x)
    (hchild : ∀ step ∈ group, (childOf t vars step).run.Concludes answers
      (· = child step.agent (step.inputs.resolve vars)))
    (herror : .done (.error e) ∈ children.map Course.left) :
    .error e ∈ results child vars group := by
  obtain ⟨c, hc, hleft⟩ := List.mem_map.mp herror
  obtain ⟨run, hrun, hof⟩ := h.exists_run hc
  obtain ⟨step, hstep, rfl⟩ := List.mem_map.mp hrun
  have hruns : Runs (childOf t vars step).run c.log c.events (.error e) := by
    rw [runs_iff_advances, ← hleft]
    exact hof
  have hresult := (hchild step hstep).result hruns fun x hx => hlog x ((h.sublist hc).1.subset hx)
  exact List.mem_map.mpr ⟨step, hstep, hresult.symm⟩

/-! ## Rounds -/

/-- The rounds in which groups are run, after some steps with their outputs; the result is all
steps with their outputs, or a failure. -/
inductive Rounds (t : TaskContext) (child : String → Json.Fields → Except Error Json)
    (inputs : Json) : List (PipelineStep × Json) → List (List PipelineStep) → List Exchange →
    List Event → Except Error (List (PipelineStep × Json)) → Prop
  | none (earlier : List (PipelineStep × Json)) :
      Rounds t child inputs earlier [] [] [] (.ok earlier)
  /-- Every step of the group runs its agent, and all of them succeed. -/
  | next {earlier : List (PipelineStep × Json)} {group : List PipelineStep}
      {rest : List (List PipelineStep)} {children : List (Course Json)} {outputs : List Json}
      {log log' : List Exchange} {es es' : List Event}
      {result : Except Error (List (PipelineStep × Json))}
      (hchildren : Courses (group.map (childOf t (visible inputs earlier))) children log es)
      (hok : children.map Course.left = outputs.map fun x => .done (.ok x))
      (hresults : results child (visible inputs earlier) group = outputs.map .ok)
      (hrest : Rounds t child inputs (earlier ++ group.zip outputs) rest log' es' result) :
      Rounds t child inputs earlier (group :: rest) (log ++ log') (es ++ es') result
  /-- A child of the group fails, and nothing else is done. -/
  | failed {earlier : List (PipelineStep × Json)} {group : List PipelineStep}
      {rest : List (List PipelineStep)} {children : List (Course Json)} {e : Error}
      {log : List Exchange} {es : List Event}
      (hchildren : Courses (group.map (childOf t (visible inputs earlier))) children log es)
      (herror : .done (.error e) ∈ children.map Course.left)
      (hresults : .error e ∈ results child (visible inputs earlier) group) :
      Rounds t child inputs earlier (group :: rest) log es (.error e)

/-- The steps of the groups one by one: all steps with their outputs, or the first failure. -/
def oneByOne (child : String → Json.Fields → Except Error Json) (inputs : Json) :
    List (PipelineStep × Json) → List (List PipelineStep) →
    Except Error (List (PipelineStep × Json))
  | earlier, [] => .ok earlier
  | earlier, group :: rest => do
    let outputs ← (results child (visible inputs earlier) group).mapM id
    oneByOne child inputs (earlier ++ group.zip outputs) rest

theorem mapM_id_ok (outputs : List Json) :
    (outputs.map Except.ok).mapM id = (.ok outputs : Except Error (List Json)) := by
  induction outputs with
  | nil => rfl
  | cons out outputs ih =>
    rw [List.map_cons, List.mapM_cons, ih]
    rfl

theorem mapM_id_error {found : List (Except Error Json)} {e : Error} (h : .error e ∈ found) :
    ∃ e', found.mapM id = .error e' := by
  induction found with
  | nil => cases h
  | cons first rest ih =>
    rw [List.mapM_cons]
    cases first with
    | error e' => exact ⟨e', rfl⟩
    | ok out =>
      obtain ⟨e', he'⟩ := ih ((List.mem_cons.mp h).resolve_left nofun)
      exact ⟨e', by rw [he']; rfl⟩

/-- Rounds end as the steps one by one do, but for which of several failures it is. -/
theorem Rounds.eq_oneByOne_or {inputs : Json} {earlier : List (PipelineStep × Json)}
    {gs : List (List PipelineStep)} {result : Except Error (List (PipelineStep × Json))}
    (h : Rounds t child inputs earlier gs log es result) :
    result = oneByOne child inputs earlier gs ∨
      ∃ e e', result = .error e ∧ oneByOne child inputs earlier gs = .error e' := by
  induction h with
  | none earlier => exact .inl rfl
  | next _ _ hresults _ ih =>
    rw [oneByOne, hresults, mapM_id_ok]
    exact ih
  | failed _ _ hresults =>
    obtain ⟨e', he'⟩ := mapM_id_error hresults
    rw [oneByOne, he']
    exact .inr ⟨_, e', rfl, rfl⟩

theorem rounds_of_runs {inputs : Json} {gs : List (List PipelineStep)}
    (earlier : List (PipelineStep × Json)) {res : Except Error (Json.Fields × Json)}
    (hchild : ∀ group ∈ gs, ∀ step ∈ group, ∀ fields,
      (t.runChild step.agent (.obj fields)).run.Concludes answers (· = child step.agent fields))
    (h : Runs (runGroupsWith (runGroupIn overlap t) (visible inputs earlier) (lastOutputs earlier)
      gs).run log es res) (hlog : ∀ x ∈ log, answers x) :
    ∃ result, Rounds t child inputs earlier gs log es result ∧
      res = result.map fun steps => (visible inputs steps, lastOutputs steps) := by
  induction gs generalizing earlier log es with
  | nil =>
    obtain ⟨rfl, rfl, rfl⟩ := runs_ok.mp h
    exact ⟨.ok earlier, .none earlier, rfl⟩
  | cons group rest ih =>
    obtain ⟨hgroup, hrest⟩ := List.forall_mem_cons.mp hchild
    have hgroup := fun step hstep =>
      hgroup step hstep (step.inputs.resolve (visible inputs earlier))
    rcases runs_andThen.mp h with
      ⟨e, rfl, hran⟩ | ⟨log₁, es₁, outputs, log₂, es₂, rfl, rfl, hran, hlater⟩
    · obtain ⟨courses, hcourses, hends⟩ := advances_together (runs_iff_advances.mp hran)
      obtain ⟨children, hchildren, _, herror⟩ := exists_children hcourses
      have hfailed := herror e (hends.2 e rfl)
      exact ⟨.error e, .failed hchildren hfailed (error_mem_results hchildren hlog hgroup hfailed),
        rfl⟩
    · obtain ⟨hlog₁, hlog₂⟩ := List.forall_mem_append.mp hlog
      obtain ⟨courses, hcourses, hends⟩ := advances_together (runs_iff_advances.mp hran)
      obtain ⟨children, hchildren, hok, _⟩ := exists_children hcourses
      obtain ⟨outs, hlefts, rfl⟩ := hok outputs (hends.1 outputs rfl)
      have hlast : (((group.zip outs).map fun (step, out) => (step.name, out)).getLast?.map
          (·.2)).getD (lastOutputs earlier) = lastOutputs (earlier ++ group.zip outs) := by
        rw [lastOutputs_append, List.getLast?_map, Option.map_map]
        rfl
      rw [← visible_append, hlast] at hlater
      obtain ⟨result, hrounds, hresult⟩ := ih _ hrest hlater hlog₂
      exact ⟨result, .next hchildren hlefts (results_of_children hchildren hlog₁ hgroup hlefts)
        hrounds, hresult⟩

theorem terminates_runGroups {gs : List (List PipelineStep)} {last : Json}
    (hchild : ∀ group ∈ gs, ∀ step ∈ group, ∀ fields,
      (t.runChild step.agent (.obj fields)).run.Terminates answers) :
    (runGroupsWith (runGroupIn overlap t) vars last gs).run.Terminates answers := by
  have hcompositional := terminates_compositional answers
  induction gs generalizing vars last with
  | nil => exact hcompositional.ok (vars, last)
  | cons group rest ih =>
    obtain ⟨hgroup, hrest⟩ := List.forall_mem_cons.mp hchild
    refine hcompositional.andThen (terminates_together fun run hrun => ?_) fun _ => ih hrest
    obtain ⟨step, hstep, rfl⟩ := List.mem_map.mp hrun
    exact hcompositional.andThen (hgroup step hstep _) fun _ => hcompositional.ok _

/-! ## Pipelines -/

/-- What a pipeline ends with after all its steps: its bindings over the variables, or else the
outputs of the last step, if that meets its schema. -/
def ending (t : TaskContext) (spec : PipelineSpec) (inputs : Json)
    (steps : List (PipelineStep × Json)) : Except Error Json :=
  let outputs :=
    if spec.outputs = [] then lastOutputs steps
    else .obj (spec.outputs.resolve (visible inputs steps))
  (t.validate outputs).map fun _ => outputs

theorem validate_outputsOf (spec : PipelineSpec) (inputs : Json)
    (steps : List (PipelineStep × Json)) :
    (t.validate (outputsOf spec (visible inputs steps) (lastOutputs steps))).map
      (fun _ => outputsOf spec (visible inputs steps) (lastOutputs steps)) =
      ending t spec inputs steps := by
  simp only [ending, outputsOf, List.isEmpty_iff]

/-- A run of a pipeline goes in rounds, and ends as the rounds do. -/
theorem rounds_of_process {spec : PipelineSpec} {inputs : Json} {r : Except Error Json}
    (hchild : ∀ group ∈ groups spec.steps, ∀ step ∈ group, ∀ fields,
      (t.runChild step.agent (.obj fields)).run.Concludes answers (· = child step.agent fields))
    (h : Runs (processWith t (runGroupIn overlap t) spec inputs).run log es r)
    (hlog : ∀ x ∈ log, answers x) :
    ∃ result, Rounds t child inputs [] (groups spec.steps) log es result ∧
      r = result.bind (ending t spec inputs) := by
  rcases runs_andThen.mp h with
    ⟨e, rfl, hran⟩ | ⟨_, _, ⟨vars, last⟩, _, _, rfl, rfl, hran, hvalidated⟩
  · obtain ⟨result, hresult, hends⟩ := rounds_of_runs [] hchild hran hlog
    cases result with
    | ok steps => cases hends
    | error e' =>
      cases hends
      exact ⟨_, hresult, rfl⟩
  · obtain ⟨rfl, rfl, rfl⟩ := runs_validated hvalidated
    rw [List.append_nil] at hlog
    obtain ⟨result, hresult, hends⟩ := rounds_of_runs [] hchild hran hlog
    cases result with
    | error e => cases hends
    | ok steps =>
      cases hends
      rw [List.append_nil, List.append_nil]
      exact ⟨_, hresult, validate_outputsOf spec inputs steps⟩

/-- A pipeline whose children are functions of their agents and inputs comes to its end, whatever
the turns of concurrent steps are. Its steps are run in groups, one round after another; each group
sees the inputs under the outputs of earlier groups, and each of its steps is fed what its bindings
stand for among these. After the last round it ends with its own outputs, and where a child fails,
with such a failure; it is the end of the steps one by one, but for which of several failures in a
group it is. -/
theorem process_in_rounds (spec : PipelineSpec) (inputs : Json)
    (hchild : ∀ step ∈ spec.steps, ∀ fields,
      (t.runChild step.agent (.obj fields)).run.Concludes answers (· = child step.agent fields)) :
    ∃ gs, (∀ gs', Grouped spec.steps gs' ↔ gs' = gs) ∧
      (∀ earlier name, Json.Fields.get? name (visible inputs earlier) =
        ((earlier.filter fun (step, _) => step.name = name).getLast?.map (·.2)).or
          (inputs.get? name)) ∧
      (∀ vars (bindings : Bindings), bindings.Feed vars (bindings.resolve vars)) ∧
      (∀ overlap : Overlap,
        (processWith t (runGroupIn overlap t) spec inputs).run.Terminates answers) ∧
      ∀ (overlap : Overlap) log es r,
        Runs (processWith t (runGroupIn overlap t) spec inputs).run log es r →
        (∀ x ∈ log, answers x) →
        ∃ result, Rounds t child inputs [] gs log es result ∧
          r = result.bind (ending t spec inputs) ∧
          (result = oneByOne child inputs [] gs ∨
            ∃ e e', result = .error e ∧ oneByOne child inputs [] gs = .error e') := by
  have hgroups : ∀ group ∈ groups spec.steps, ∀ step ∈ group, ∀ fields,
      (t.runChild step.agent (.obj fields)).run.Concludes answers
        (· = child step.agent fields) := by
    intro group hgroup step hstep
    refine hchild step ?_
    rw [(grouped_groups spec.steps).joined]
    exact List.mem_flatten.mpr ⟨group, hgroup, hstep⟩
  refine ⟨groups spec.steps, fun gs' => grouped_iff, get?_visible inputs, Bindings.feed_resolve,
    fun overlap => ?_, fun overlap log es r h hlog => ?_⟩
  · have hcompositional := terminates_compositional answers
    refine hcompositional.andThen (terminates_runGroups fun group hgroup step hstep fields =>
      (hgroups group hgroup step hstep fields).terminates) fun _ => ?_
    exact hcompositional.andThen (hcompositional.ofExcept _) fun _ => hcompositional.ok _
  · obtain ⟨result, hrounds, hr⟩ := rounds_of_process hgroups h hlog
    exact ⟨result, hrounds, hr, hrounds.eq_oneByOne_or⟩

/-! ## A pipeline with two groups -/

def stamp : Definition :=
  { id := "stamp", name := "Stamp"
    kind := .pipeline { steps := [], outputs := [("mark", .variable "ink" [])] } }

/-- Two stamps at once, and then one that takes its ink from the second. -/
def letter : PipelineSpec where
  steps := [{ name := "first", agent := "stamp", concurrent := true,
              inputs := [("ink", .literal (.str "red"))] },
    { name := "second", agent := "stamp", concurrent := true,
      inputs := [("ink", .variable "color" [])] },
    { name := "first", agent := "stamp", inputs := [("ink", .variable "second" [.key "mark"])] }]

/-- The agent is the stamp, and nothing is known in advance. -/
def Stamped : Exchange → Prop
  | ⟨.agent _, found⟩ => found = .ok (some stamp)
  | ⟨.recall _, known⟩ => known = none
  | _ => True

def stamping (_ : String) (fields : Json.Fields) : Except Error Json :=
  .ok (.obj [("mark", (Json.Fields.get? "ink" fields).getD .null)])

theorem process_stamp (t : TaskContext) (hengine : t.engine = newsroom)
    (hdefinition : t.definition = stamp) (fields : Json.Fields) :
    (secondFirst.process t (.obj fields)).run =
      .done ((stamping "stamp" fields).map TaskResult.ofOutputs) := by
  obtain ⟨engine, definition, identity, emitter, options, runChild⟩ := t
  obtain rfl : engine = newsroom := hengine
  obtain rfl : definition = stamp := hdefinition
  have hink : ((Json.Fields.get? "ink" fields).bind (Binding.follow [])).getD .null =
      (Json.Fields.get? "ink" fields).getD .null := by
    cases Json.Fields.get? "ink" fields <;> rfl
  rw [stamping, ← hink]
  rfl

theorem concludes_stamp (fields : Json.Fields) :
    (pageTask.runChild "stamp" (.obj fields)).run.Concludes Stamped
      (· = stamping "stamp" fields) := by
  have hnone (agentId : String) : newsroom.project.agent? agentId = none := rfl
  delta pageTask Engine.taskContextWith Engine.childRunWith
  simp only [Engine.runWith, Engine.resolve_eq_query, hnone, implies_true]
  apply Concludes.ask
  intro found hfound
  obtain rfl : found = .ok (some stamp) := hfound
  apply Concludes.ask
  intro known hknown
  obtain rfl : known = none := hknown
  apply Concludes.ask
  intro id _
  apply Concludes.report
  apply Concludes.ask
  intro started _
  apply Concludes.report
  rw [process_stamp _ rfl rfl]
  apply Concludes.ask
  intro ended _
  apply Concludes.report
  apply Concludes.ask
  intro remembered _
  apply Concludes.done
  rfl

theorem stamped_answers (query : Query) : ∃ answer, Stamped ⟨query, answer⟩ := by
  cases query with
  | model => exact ⟨.ok [], trivial⟩
  | images => exact ⟨.ok [], trivial⟩
  | agent => exact ⟨.ok (some stamp), rfl⟩
  | endpoint => exact ⟨.ok none, trivial⟩
  | memory => exact ⟨.ok [], trivial⟩
  | http => exact ⟨.error (.model ""), trivial⟩
  | clock => exact ⟨⟨0, 0⟩, trivial⟩
  | newTask => exact ⟨"b", trivial⟩
  | «recall» => exact ⟨none, rfl⟩
  | remember => exact ⟨(), trivial⟩

/-- The letter is stamped by two at once, and then with the mark of the second of them, whose ink
is the color that is asked for. -/
theorem process_in_rounds_letter : ∃ log es,
    Runs (processWith pageTask (runGroupIn secondFirst pageTask) letter
      (.obj [("color", .str "blue")])).run log es (.ok (.obj [("mark", .str "blue")])) ∧
    ∃ result, Rounds pageTask stamping (.obj [("color", .str "blue")]) [] (groups letter.steps)
        log es result ∧
      result.map (·.map (·.2)) = .ok [.obj [("mark", .str "red")], .obj [("mark", .str "blue")],
        .obj [("mark", .str "blue")]] := by
  have hchild : ∀ step ∈ letter.steps, ∀ fields,
      (pageTask.runChild step.agent (.obj fields)).run.Concludes Stamped
        (· = stamping step.agent fields) := by
    intro step hstep fields
    have hagent : step.agent = "stamp" := by
      simp only [letter, List.mem_cons, List.not_mem_nil, or_false] at hstep
      rcases hstep with rfl | rfl | rfl <;> rfl
    rw [hagent]
    exact concludes_stamp fields
  obtain ⟨gs, hgroups, _, _, hterminates, hrounds⟩ :=
    process_in_rounds letter (.obj [("color", .str "blue")]) hchild
  obtain rfl := (hgroups _).mp (grouped_groups letter.steps)
  obtain ⟨log, es, r, hruns, hlog⟩ := (hterminates secondFirst).exists_run stamped_answers
  obtain ⟨result, hresult, rfl, hagrees | ⟨e, e', _, hfails⟩⟩ :=
    hrounds secondFirst log es r hruns hlog
  · refine ⟨log, es, ?_, result, hresult, ?_⟩
    · rw [hagrees] at hruns
      exact hruns
    · rw [hagrees]
      rfl
  · cases hfails

end Pipeline

end Agents
