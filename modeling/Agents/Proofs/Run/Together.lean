import Agents.Proofs.Run.Advance
import Agents.Run.Overlap

/-! # Runs side by side

Whatever the turns are, activities that are run together go each its own way: `advances_together`
takes what was exchanged and reported apart into one course for each of them. The whole ends well
only if each of them does, and it ends with a failure only if one of them does; the courses of the
others may then stop anywhere.
-/

namespace Agents

open Activity

/-! ## Mixed lists -/

/-- The third list has the entries of the other two, those of each in their order. -/
inductive Shuffle {α : Type} : List α → List α → List α → Prop
  | nil : Shuffle [] [] []
  | left (x : α) {xs ys zs : List α} : Shuffle xs ys zs → Shuffle (x :: xs) ys (x :: zs)
  | right (y : α) {xs ys zs : List α} : Shuffle xs ys zs → Shuffle xs (y :: ys) (y :: zs)

namespace Shuffle

variable {α : Type} {xs ys zs : List α}

theorem append_left (before : List α) (h : Shuffle xs ys zs) :
    Shuffle (before ++ xs) ys (before ++ zs) := by
  induction before with
  | nil => exact h
  | cons x rest ih => exact .left x ih

theorem append_right (before : List α) (h : Shuffle xs ys zs) :
    Shuffle xs (before ++ ys) (before ++ zs) := by
  induction before with
  | nil => exact h
  | cons y rest ih => exact .right y ih

theorem append (xs ys : List α) : Shuffle xs ys (xs ++ ys) := by
  simpa using (nil.append_right ys).append_left xs

theorem sublist_left (h : Shuffle xs ys zs) : xs.Sublist zs := by
  induction h with
  | nil => exact List.Sublist.refl _
  | left x _ ih => exact ih.cons_cons x
  | right y _ ih => exact ih.cons y

theorem sublist_right (h : Shuffle xs ys zs) : ys.Sublist zs := by
  induction h with
  | nil => exact List.Sublist.refl _
  | left x _ ih => exact ih.cons x
  | right y _ ih => exact ih.cons_cons y

theorem perm (h : Shuffle xs ys zs) : zs.Perm (xs ++ ys) := by
  induction h with
  | nil => exact List.Perm.nil
  | left x _ ih => exact ih.cons x
  | right y _ ih => exact (ih.cons y).trans List.perm_middle.symm

end Shuffle

/-! ## Courses -/

structure Course (α : Type) where
  log : List Exchange
  events : List Event
  /-- What is left of it. -/
  left : Activity (Except Error α)

def Course.IsOf {α : Type} (c : Course α) (run : Fallible α) : Prop :=
  Advances run.run c.log c.events c.left

/-- Runs that went on side by side, each for itself: the whole exchange and all the events are those
of the courses, mixed in some way. -/
inductive Courses {α : Type} :
    List (Fallible α) → List (Course α) → List Exchange → List Event → Prop
  | nil : Courses [] [] [] []
  | cons {run : Fallible α} {runs : List (Fallible α)} {c : Course α} {courses : List (Course α)}
      {log log' : List Exchange} {es es' : List Event} :
      c.IsOf run → Courses runs courses log es → Shuffle c.log log log' →
      Shuffle c.events es es' → Courses (run :: runs) (c :: courses) log' es'

namespace Courses

variable {α : Type} {run : Fallible α} {runs : List (Fallible α)} {courses : List (Course α)}
  {log log₁ log₂ : List Exchange} {es es₁ es₂ : List Event}

theorem idle (runs : List (Fallible α)) :
    Courses runs (runs.map fun run => ⟨[], [], run.run⟩) [] [] := by
  induction runs with
  | nil => exact .nil
  | cons run rest ih => exact .cons (.here _) ih .nil .nil

theorem first {left : Activity (Except Error α)} (h : Advances run.run log₁ es₁ left)
    (hrest : Courses runs courses log₂ es₂) :
    Courses (run :: runs) (⟨log₁, es₁, left⟩ :: courses) (log₁ ++ log₂) (es₁ ++ es₂) :=
  .cons h hrest (.append log₁ log₂) (.append es₁ es₂)

theorem turn {n : Nat} {left : Activity (Except Error α)} (hn : runs[n]? = some run)
    (h : Advances run.run log₁ es₁ left)
    (hrest : Courses (runs.set n (ExceptT.mk left)) courses log₂ es₂) :
    ∃ courses', Courses runs courses' (log₁ ++ log₂) (es₁ ++ es₂) ∧
      courses'.map Course.left = courses.map Course.left := by
  induction runs generalizing n courses log₂ es₂ with
  | nil => cases hn
  | cons head rest ih =>
    cases n with
    | zero =>
      cases hn
      cases hrest with
      | @cons _ _ c courses _ _ _ _ hc hothers hlog hes =>
        exact ⟨_, .cons (c := ⟨log₁ ++ c.log, es₁ ++ c.events, c.left⟩) (h.trans hc) hothers
          (hlog.append_left log₁) (hes.append_left es₁), rfl⟩
    | succ n =>
      cases hrest with
      | @cons _ _ c courses _ _ _ _ hc hothers hlog hes =>
        obtain ⟨courses', hcourses, hlefts⟩ := ih hn hothers
        exact ⟨_, .cons hc hcourses (hlog.append_right log₁) (hes.append_right es₁),
          by simp [hlefts]⟩

theorem log_perm (h : Courses runs courses log es) : log.Perm (courses.flatMap Course.log) := by
  induction h with
  | nil => exact List.Perm.nil
  | cons _ _ hlog _ ih => exact hlog.perm.trans (ih.append_left _)

theorem events_perm (h : Courses runs courses log es) :
    es.Perm (courses.flatMap Course.events) := by
  induction h with
  | nil => exact List.Perm.nil
  | cons _ _ _ hes ih => exact hes.perm.trans (ih.append_left _)

/-- Each course is a part of the whole, in its own order. -/
theorem sublist (h : Courses runs courses log es) {c : Course α} (hc : c ∈ courses) :
    c.log.Sublist log ∧ c.events.Sublist es := by
  induction h with
  | nil => cases hc
  | cons _ _ hlog hes ih =>
    rcases List.mem_cons.mp hc with rfl | hc
    · exact ⟨hlog.sublist_left, hes.sublist_left⟩
    · obtain ⟨hlog', hes'⟩ := ih hc
      exact ⟨hlog'.trans hlog.sublist_right, hes'.trans hes.sublist_right⟩

theorem length_eq (h : Courses runs courses log es) : courses.length = runs.length := by
  induction h with
  | nil => rfl
  | cons _ _ _ _ ih => rw [List.length_cons, List.length_cons, ih]

theorem exists_run (h : Courses runs courses log es) {c : Course α} (hc : c ∈ courses) :
    ∃ run ∈ runs, c.IsOf run := by
  induction h with
  | nil => cases hc
  | cons hof _ _ _ ih =>
    rcases List.mem_cons.mp hc with rfl | hc
    · exact ⟨_, List.mem_cons_self, hof⟩
    · obtain ⟨run, hrun, hof⟩ := ih hc
      exact ⟨run, List.mem_cons_of_mem _ hrun, hof⟩

end Courses

/-! ## Turns -/

theorem Activity.advances_upTo {α : Type} {stop : Step → Bool} {a : Activity α}
    {log : List Exchange} {es : List Event} {left : Activity (Activity α)}
    (h : Advances (a.upTo stop) log es left) :
    ∃ left', Advances a log es left' ∧ ∀ rest, left = .done rest → rest = left' := by
  induction a generalizing log es with
  | done r =>
    obtain ⟨rfl, rfl, rfl⟩ := advances_done h
    exact ⟨.done r, .here _, fun rest hrest => (Activity.done.inj hrest).symm⟩
  | report event rest ih =>
    cases h with
    | here => exact ⟨_, .here _, nofun⟩
    | report _ h =>
      split at h
      · obtain ⟨rfl, rfl, rfl⟩ := advances_done h
        exact ⟨rest, .report event (.here rest), fun rest' h => (Activity.done.inj h).symm⟩
      · obtain ⟨left', ha, hleft⟩ := ih h
        exact ⟨left', .report event ha, hleft⟩
  | ask query resume ih =>
    cases h with
    | here => exact ⟨_, .here _, nofun⟩
    | ask answer h =>
      split at h
      · obtain ⟨rfl, rfl, rfl⟩ := advances_done h
        exact ⟨_, .ask answer (.here _), fun rest' h => (Activity.done.inj h).symm⟩
      · obtain ⟨left', ha, hleft⟩ := ih answer h
        exact ⟨left', .ask answer ha, hleft⟩
  | tooDeep =>
    obtain ⟨rfl, rfl, rfl⟩ := advances_tooDeep h
    exact ⟨.tooDeep, .here _, nofun⟩

/-- How runs end that went on side by side: all of them with the results of the whole, in their
order, or one of them with the failure of the whole, unless the whole has not ended. -/
def Ends {α : Type} (lefts : List (Activity (Except Error α)))
    (whole : Activity (Except Error (List α))) : Prop :=
  (∀ results, whole = .done (.ok results) → lefts = results.map fun x => .done (.ok x)) ∧
    ∀ e, whole = .done (.error e) → .done (.error e) ∈ lefts

/-- Where the whole ends well, each of the runs comes to its end. -/
theorem Ends.finished {α : Type} {lefts : List (Activity (Except Error α))} {results : List α}
    (h : Ends lefts (.done (.ok results))) : ∀ left ∈ lefts, left.Finished := by
  rw [h.1 results rfl]
  intro left hleft
  obtain ⟨x, _, rfl⟩ := List.mem_map.mp hleft
  exact finished_done _

theorem Ends.of_open {α : Type} {lefts : List (Activity (Except Error α))}
    {whole : Activity (Except Error (List α))} (h : ¬ whole.Finished) : Ends lefts whole :=
  ⟨fun _ hwhole => absurd ⟨_, hwhole⟩ h, fun _ hwhole => absurd ⟨_, hwhole⟩ h⟩

theorem Ends.of_error {α : Type} {lefts : List (Activity (Except Error α))} {e : Error}
    (h : .done (.error e) ∈ lefts) : Ends lefts (.done (.error e)) :=
  ⟨nofun, fun e' he => by cases he; exact h⟩

section Together

variable {α : Type} {runs : List (Fallible α)} {log : List Exchange} {es : List Event}
  {left : Activity (Except Error (List α))}

theorem advances_inOrder (h : Advances (runs.mapM id).run log es left) :
    ∃ courses, Courses runs courses log es ∧ Ends (courses.map Course.left) left := by
  induction runs generalizing log es left with
  | nil =>
    obtain ⟨rfl, rfl, rfl⟩ := advances_done h
    refine ⟨[], .nil, ?_, nofun⟩
    rintro _ ⟨⟩
    rfl
  | cons run rest ih =>
    rw [List.mapM_cons] at h
    rcases advances_andThen h with
      ⟨left', hrun, _, hopen⟩ | ⟨e, rfl, hrun⟩ | ⟨log₁, es₁, x, log₂, es₂, rfl, rfl, hrun, hrest⟩
    · have hcourses := Courses.first hrun (.idle rest)
      simp only [List.append_nil] at hcourses
      exact ⟨_, hcourses, .of_open hopen⟩
    · have hcourses := Courses.first (runs_iff_advances.mp hrun) (.idle rest)
      simp only [List.append_nil] at hcourses
      exact ⟨_, hcourses, .of_error List.mem_cons_self⟩
    · have hrun := runs_iff_advances.mp hrun
      rcases advances_andThen hrest with
        ⟨left', hothers, _, hopen⟩ | ⟨e, rfl, hothers⟩ | ⟨_, _, xs, _, _, rfl, rfl, hothers, hdone⟩
      · obtain ⟨courses, hcourses, _⟩ := ih hothers
        exact ⟨_, .first hrun hcourses, .of_open hopen⟩
      · obtain ⟨courses, hcourses, _, herror⟩ := ih (runs_iff_advances.mp hothers)
        exact ⟨_, .first hrun hcourses, .of_error (List.mem_cons_of_mem _ (herror e rfl))⟩
      · obtain ⟨rfl, rfl, rfl⟩ := advances_done hdone
        obtain ⟨courses, hcourses, hok, _⟩ := ih (runs_iff_advances.mp hothers)
        refine ⟨_, .first hrun (by simpa using hcourses), ?_, nofun⟩
        rintro _ ⟨⟩
        rw [List.map_cons, List.map_cons, hok xs rfl]

/-- Activities that are run together go each its own way, whatever the turns are. -/
theorem advances_together {turns : List Turn} (h : Advances (together turns runs).run log es left) :
    ∃ courses, Courses runs courses log es ∧ Ends (courses.map Course.left) left := by
  induction turns generalizing runs log es left with
  | nil => exact advances_inOrder h
  | cons turn turns ih =>
    unfold together at h
    split at h
    · exact ih h
    next run hrun =>
    rcases advances_liftThen h with ⟨rest, hturn, hopen⟩ | ⟨_, _, rest, _, _, rfl, rfl, hturn, h⟩
    -- everything is dropped in the middle of the turn
    · obtain ⟨left', hadvances, _⟩ := advances_upTo hturn
      obtain ⟨courses, hcourses, _⟩ := Courses.turn hrun hadvances (.idle _)
      simp only [List.append_nil] at hcourses
      exact ⟨courses, hcourses, .of_open hopen⟩
    · obtain ⟨_, hadvances, hrest⟩ := advances_upTo (runs_iff_advances.mp hturn)
      obtain rfl := hrest rest rfl
      split at h
      · next e =>
        obtain ⟨rfl, rfl, rfl⟩ := advances_done h
        obtain ⟨courses, hcourses, hlefts⟩ := Courses.turn hrun hadvances (.idle _)
        refine ⟨courses, hcourses, .of_error ?_⟩
        rw [hlefts, List.map_map]
        have hbound := (List.getElem?_eq_some_iff.mp hrun).1
        exact List.mem_map.mpr ⟨_, List.mem_set hbound _, rfl⟩
      · obtain ⟨courses, hcourses, hends⟩ := ih h
        obtain ⟨courses', hcourses', hlefts⟩ := Courses.turn hrun hadvances hcourses
        exact ⟨courses', hcourses', by rw [hlefts]; exact hends⟩

end Together

end Agents
