import Mathlib.Algebra.Group.Nat.Defs
import Mathlib.Data.Nat.Find
import Mathlib.Order.Bounds.Basic
import Agents.Proofs.Run.Silence

/-! # When a retried activity ends

Attempts 1, 2, … are made until one of them settles the matter: it succeeds, it fails in a way that
no other attempt can mend, it is the last one of the budget, or the deadline has passed after it.
The budget is a number of 32 bits, and so is the number of every attempt that is made.

`retry_settles` says so for all activities that may be retried, however their attempts go and
whatever the clock says: which attempts are made is decided by their results and the times after
them, and there is no other run. The induction is on how many attempts remain; with the number of
the next one they add up to the budget.
-/

namespace Agents

open Activity

variable {α : Type}

/-! ## Settling -/

/-- What is given after attempt `n` with this result, if it is the last one. -/
def Retry.verdict (agent : String) (n : Nat) : Except Error α → Except Error α
  | .ok value => .ok value
  | .error e =>
    if e.isRetryable then .error (.unexpectedResponseFormat agent n e.message) else .error e

namespace TaskContext

def isLate (t : TaskContext) (now : Timestamp) : Bool :=
  t.options.deadline.any fun deadline => !now.isBefore deadline

/-- No attempt follows attempt `n` with this result, if the clock says `now` after it. -/
def Settles (t : TaskContext) (n : Nat) (result : Except Error α) (now : Timestamp) : Prop :=
  (∀ e, result = .error e → e.isRetryable = false) ∨ n = Retry.attempts t.maxRetries ∨
    t.isLate now = true

/-- The exchange after attempt `n`: the clock is asked if there is a deadline, and another attempt
would be worth it and is left. -/
def pause (t : TaskContext) (n : Nat) (result : Except Error α) (now : Timestamp) :
    List Exchange :=
  match result with
  | .ok _ => []
  | .error e =>
    if e.isRetryable = true ∧ n < Retry.attempts t.maxRetries then
      (t.options.deadline.map fun _ => ⟨.clock, now⟩).toList
    else []

/-- The attempts from number `first` to number `last`, and no others, are made one after another;
the last one is the first to settle the matter. `tries` are the attempts as they go, each under its
number, and `now` are the times after them. -/
structure Attempted (t : TaskContext) (attempt : Nat → Fallible α) (first : Nat)
    (tries : Nat → Attempt α) (now : Nat → Timestamp) (last : Nat) (log : List Exchange)
    (es : List Event) (r : Except Error α) : Prop where
  least : IsLeast {n | first ≤ n ∧ t.Settles n (tries n).result (now n)} last
  ran : ∀ n, first ≤ n → n ≤ last → (tries n).number = n ∧ (tries n).Ran attempt
  exchanged : log = (List.range' first (last + 1 - first)).flatMap fun n =>
    (tries n).log ++ t.pause n (tries n).result (now n)
  reported : es = (List.range' first (last + 1 - first)).flatMap fun n => (tries n).events
  given : r = Retry.verdict t.definition.id last (tries last).result

/-! ## One attempt -/

variable {t : TaskContext} {attempt : Nat → Fallible α} {n : Nat} {x : Except Error α}
  {log : List Exchange} {es : List Event} {r : Except Error α}

/-- The failure may be mended by another attempt, and the budget has one left. -/
def MayGoOn (t : TaskContext) (n : Nat) : Except Error α → Prop
  | .ok _ => False
  | .error e => e.isRetryable = true ∧ n < Retry.attempts t.maxRetries

theorem settles_iff (hn : n ≤ Retry.attempts t.maxRetries) {now : Timestamp} :
    t.Settles n x now ↔ ¬ t.MayGoOn n x ∨ t.isLate now = true := by
  cases x with
  | ok value =>
    have hfinal : ∀ e : Error, (.ok value : Except Error α) = .error e → e.isRetryable = false :=
      nofun
    exact ⟨fun _ => .inl id, fun _ => .inl hfinal⟩
  | error e =>
    constructor
    · rintro (hfinal | hspent | hlate)
      · left
        rintro ⟨hmended, -⟩
        rw [hfinal e rfl] at hmended
        cases hmended
      · left
        rintro ⟨-, hleft⟩
        exact hleft.ne hspent
      · exact .inr hlate
    · rintro (hstop | hlate)
      · by_cases hmended : e.isRetryable = true
        · right; left
          exact Nat.le_antisymm hn (Nat.le_of_not_lt fun hleft => hstop ⟨hmended, hleft⟩)
        · left
          rintro e' ⟨⟩
          exact Bool.eq_false_iff.mpr hmended
      · exact .inr (.inr hlate)

theorem pause_of_not_mayGoOn (h : ¬ t.MayGoOn n x) (now : Timestamp) : t.pause n x now = [] := by
  cases x with
  | ok value => rfl
  | error e => exact if_neg h

theorem pause_of_mayGoOn (h : t.MayGoOn n x) (now : Timestamp) :
    t.pause n x now = (t.options.deadline.map fun _ => (⟨.clock, now⟩ : Exchange)).toList := by
  cases x with
  | ok value => exact h.elim
  | error e => exact if_pos h

theorem runs_isPastDeadline_iff {late : Bool} : Runs t.isPastDeadline log es late ↔
    ∃ now, log = (t.options.deadline.map fun _ => (⟨.clock, now⟩ : Exchange)).toList ∧ es = [] ∧
      late = t.isLate now := by
  unfold isPastDeadline isLate
  cases t.options.deadline with
  | none =>
    rw [runs_pure]
    constructor
    · rintro ⟨rfl, rfl, rfl⟩
      exact ⟨⟨0, 0⟩, rfl, rfl, rfl⟩
    · rintro ⟨now, rfl, rfl, rfl⟩
      exact ⟨rfl, rfl, rfl⟩
  | some deadline =>
    show Runs (Activity.now >>= fun now => pure (!now.isBefore deadline)) log es late ↔ _
    rw [runs_bind]
    constructor
    · rintro ⟨log₁, es₁, now, log₂, es₂, rfl, rfl, hnow, hrest⟩
      obtain ⟨rfl, rfl⟩ := (runs_query (q := .clock)).mp hnow
      obtain ⟨rfl, rfl, rfl⟩ := runs_pure.mp hrest
      exact ⟨now, rfl, rfl, rfl⟩
    · rintro ⟨now, rfl, rfl, rfl⟩
      exact ⟨_, [], now, [], [], rfl, rfl, (runs_query (q := .clock)).mpr ⟨rfl, rfl⟩,
        runs_pure.mpr ⟨rfl, rfl, rfl⟩⟩

def attemptsFrom (t : TaskContext) (attempt : Nat → Fallible α) (remaining n : Nat) :
    Activity (Except Error α) :=
  Retry.runFrom t.definition.id t.isPastDeadline (fun n => (attempt n).run) remaining n

def proceed (t : TaskContext) (attempt : Nat → Fallible α) (remaining n : Nat) :
    Except Error α → Activity (Except Error α)
  | .ok value => return .ok value
  | .error e =>
    if !e.isRetryable then return .error e
    else match remaining with
      | 0 => return .error (Retry.exhausted t.definition.id n e)
      | remaining + 1 => do
        if ← t.isPastDeadline then return .error (Retry.exhausted t.definition.id n e)
        else t.attemptsFrom attempt remaining (n + 1)

theorem attemptsFrom_eq (remaining n : Nat) :
    t.attemptsFrom attempt remaining n =
      (attempt n).run >>= t.proceed attempt remaining n := by
  unfold attemptsFrom
  cases remaining <;>
  · unfold Retry.runFrom
    congr 1

section Proceed

variable {remaining : Nat} (hbudget : n + remaining = Retry.attempts t.maxRetries)

include hbudget

theorem proceed_of_not_mayGoOn (h : ¬ t.MayGoOn n x) :
    t.proceed attempt remaining n x = pure (Retry.verdict t.definition.id n x) := by
  cases x with
  | ok value => rfl
  | error e =>
    cases hmended : e.isRetryable with
    | false => simp only [proceed, Retry.verdict, hmended]; rfl
    | true =>
      -- the budget is spent
      obtain rfl : remaining = 0 := by
        by_contra hleft
        exact h ⟨hmended, by omega⟩
      simp only [proceed, Retry.verdict, hmended]
      rfl

/-- Whether another attempt is made is up to the clock. -/
theorem proceed_of_mayGoOn (attempt : Nat → Fallible α) (h : t.MayGoOn n x) :
    ∃ later, remaining = later + 1 ∧
    t.proceed attempt remaining n x = t.isPastDeadline >>= fun late =>
      if late then pure (Retry.verdict t.definition.id n x)
      else t.attemptsFrom attempt later (n + 1) := by
  cases x with
  | ok value => exact h.elim
  | error e =>
    obtain ⟨hmended, hleft⟩ := h
    obtain ⟨later, rfl⟩ := Nat.exists_eq_add_one.mpr (show 0 < remaining by omega)
    refine ⟨later, rfl, ?_⟩
    simp only [proceed, Retry.verdict, hmended]
    rfl

/-- After attempt `n` the matter is settled, or the attempts after it are made. -/
theorem runs_proceed_iff :
    Runs (t.proceed attempt remaining n x) log es r ↔ ∃ now,
      (t.Settles n x now ∧ log = t.pause n x now ∧ es = [] ∧
        r = Retry.verdict t.definition.id n x) ∨
      (¬ t.Settles n x now ∧ ∃ later log', remaining = later + 1 ∧ log = t.pause n x now ++ log' ∧
        Runs (t.attemptsFrom attempt later (n + 1)) log' es r) := by
  have hn : n ≤ Retry.attempts t.maxRetries := by omega
  by_cases hmay : t.MayGoOn n x
  · obtain ⟨later, rfl, hproceed⟩ := proceed_of_mayGoOn hbudget attempt hmay
    have hsettles : ∀ now, t.Settles n x now ↔ t.isLate now = true := by
      intro now
      rw [settles_iff hn]
      exact or_iff_right (not_not_intro hmay)
    simp only [hproceed, runs_bind, runs_isPastDeadline_iff, hsettles, pause_of_mayGoOn hmay]
    constructor
    · rintro ⟨_, _, late, log', es', rfl, rfl, ⟨now, rfl, rfl, rfl⟩, hrest⟩
      use now
      cases hlate : t.isLate now with
      | true =>
        left
        rw [hlate] at hrest
        obtain ⟨rfl, rfl, rfl⟩ := runs_pure.mp hrest
        exact ⟨rfl, List.append_nil _, rfl, rfl⟩
      | false =>
        right
        rw [hlate] at hrest
        exact ⟨Bool.false_ne_true, later, log', rfl, rfl, hrest⟩
    · rintro ⟨now, ⟨hlate, rfl, rfl, rfl⟩ | ⟨hopen, later', log', hlater, rfl, hrest⟩⟩
      · refine ⟨_, [], true, [], [], (List.append_nil _).symm, rfl, ⟨now, rfl, rfl, hlate.symm⟩, ?_⟩
        exact runs_pure.mpr ⟨rfl, rfl, rfl⟩
      · obtain rfl : later = later' := Nat.succ.inj hlater
        have hearly : t.isLate now = false := Bool.eq_false_iff.mpr hopen
        exact ⟨_, [], false, log', es, rfl, rfl, ⟨now, rfl, rfl, hearly.symm⟩, hrest⟩
  · have hsettles : ∀ now, t.Settles n x now := fun now => (settles_iff hn).mpr (.inl hmay)
    rw [proceed_of_not_mayGoOn hbudget hmay, runs_pure]
    simp only [pause_of_not_mayGoOn hmay]
    constructor
    · rintro ⟨rfl, rfl, rfl⟩
      exact ⟨⟨0, 0⟩, .inl ⟨hsettles _, rfl, rfl, rfl⟩⟩
    · rintro ⟨now, ⟨-, rfl, rfl, rfl⟩ | ⟨hopen, -⟩⟩
      · exact ⟨rfl, rfl, rfl⟩
      · exact absurd (hsettles now) hopen

end Proceed

/-! ## All attempts -/

section Attempted

variable {first last : Nat} {tries : Nat → Attempt α} {now : Nat → Timestamp}

/-- The numbers of the attempts: the first one, and those after it. -/
theorem numbers_eq_cons (h : first ≤ last) : List.range' first (last + 1 - first) =
    first :: List.range' (first + 1) (last + 1 - (first + 1)) := by
  rw [show last + 1 - first = (last + 1 - (first + 1)) + 1 by omega, List.range'_succ]

theorem Attempted.of_settles {a : Attempt α} {time : Timestamp} (hnumber : a.number = n)
    (hran : a.Ran attempt) (hsettles : t.Settles n a.result time) :
    t.Attempted attempt n (fun _ => a) (fun _ => time) n (a.log ++ t.pause n a.result time)
      a.events (Retry.verdict t.definition.id n a.result) where
  least := ⟨⟨Nat.le_refl n, hsettles⟩, fun m hm => hm.1⟩
  ran := by
    intro m hfirst hlast
    exact ⟨hnumber.trans (Nat.le_antisymm hfirst hlast), hran⟩
  exchanged := by simp
  reported := by simp
  given := rfl

theorem Attempted.cons {a : Attempt α} {time : Timestamp} (hnumber : a.number = n)
    (hran : a.Ran attempt) (hopen : ¬ t.Settles n a.result time)
    (h : t.Attempted attempt (n + 1) tries now last log es r) :
    t.Attempted attempt n (Function.update tries n a) (Function.update now n time) last
      (a.log ++ t.pause n a.result time ++ log) (a.events ++ es) r := by
  have hlast : n + 1 ≤ last := h.least.1.1
  have hlater : ∀ m, n + 1 ≤ m → Function.update tries n a m = tries m ∧
      Function.update now n time m = now m := by
    intro m hm
    have hne : m ≠ n := by omega
    exact ⟨Function.update_of_ne hne a tries, Function.update_of_ne hne time now⟩
  have hnumbers := numbers_eq_cons (Nat.le_of_succ_le hlast)
  have hcongr : ∀ (β : Type) (f : Nat → Attempt α → Timestamp → List β),
      (List.range' (n + 1) (last + 1 - (n + 1))).flatMap (fun m =>
        f m (Function.update tries n a m) (Function.update now n time m)) =
      (List.range' (n + 1) (last + 1 - (n + 1))).flatMap fun m => f m (tries m) (now m) := by
    intro β f
    rw [List.flatMap_def, List.flatMap_def]
    apply congrArg List.flatten
    apply List.map_congr_left
    intro m hm
    obtain ⟨htries, hnow⟩ := hlater m (List.mem_range'_1.mp hm).1
    rw [htries, hnow]
  constructor
  case least =>
    constructor
    · obtain ⟨htries, hnow⟩ := hlater last hlast
      refine ⟨by omega, ?_⟩
      rw [htries, hnow]
      exact h.least.1.2
    · rintro m ⟨hm, hsettles⟩
      by_cases hmn : m = n
      · subst hmn
        rw [Function.update_self, Function.update_self] at hsettles
        exact absurd hsettles hopen
      · obtain ⟨htries, hnow⟩ := hlater m (by omega)
        rw [htries, hnow] at hsettles
        exact h.least.2 ⟨by omega, hsettles⟩
  case ran =>
    intro m hfirst hm
    by_cases hmn : m = n
    · subst hmn
      rw [Function.update_self]
      exact ⟨hnumber, hran⟩
    · rw [(hlater m (by omega)).1]
      exact h.ran m (by omega) hm
  case exchanged =>
    rw [hnumbers, List.flatMap_cons, Function.update_self, Function.update_self,
      hcongr _ fun m x time => x.log ++ t.pause m x.result time, ← h.exchanged]
  case reported =>
    rw [hnumbers, List.flatMap_cons, Function.update_self,
      hcongr _ fun _ x _ => x.events, ← h.reported]
  case given =>
    rw [(hlater last hlast).1]
    exact h.given

theorem Attempted.cases (h : t.Attempted attempt n tries now last log es r) :
    (tries n).number = n ∧ (tries n).Ran attempt ∧
      ((t.Settles n (tries n).result (now n) ∧
          log = (tries n).log ++ t.pause n (tries n).result (now n) ∧ es = (tries n).events ∧
          r = Retry.verdict t.definition.id n (tries n).result) ∨
        (¬ t.Settles n (tries n).result (now n) ∧ ∃ log' es',
          log = (tries n).log ++ t.pause n (tries n).result (now n) ++ log' ∧
          es = (tries n).events ++ es' ∧
          t.Attempted attempt (n + 1) tries now last log' es' r)) := by
  have hfirst : n ≤ last := h.least.1.1
  obtain ⟨hnumber, hran⟩ := h.ran n (Nat.le_refl n) hfirst
  refine ⟨hnumber, hran, ?_⟩
  by_cases hsettles : t.Settles n (tries n).result (now n)
  · left
    obtain rfl : n = last := Nat.le_antisymm hfirst (h.least.2 ⟨Nat.le_refl n, hsettles⟩)
    have honly : List.range' n (n + 1 - n) = [n] := by
      rw [show n + 1 - n = 1 by omega, List.range'_one]
    refine ⟨hsettles, ?_, ?_, h.given⟩
    · rw [h.exchanged, honly, List.flatMap_singleton]
    · rw [h.reported, honly, List.flatMap_singleton]
  · right
    have hne : n ≠ last := by
      rintro rfl
      exact hsettles h.least.1.2
    have hnumbers := numbers_eq_cons hfirst
    refine ⟨hsettles, _, _, ?_, ?_, ?_, ?_, rfl, rfl, h.given⟩
    · rw [h.exchanged, hnumbers, List.flatMap_cons]
    · rw [h.reported, hnumbers, List.flatMap_cons]
    · constructor
      · exact ⟨by omega, h.least.1.2⟩
      · rintro m ⟨hm, hm'⟩
        exact h.least.2 ⟨by omega, hm'⟩
    · intro m hm hlast
      exact h.ran m (by omega) hlast

/-- The attempts from number `n` on, as many as are left of the budget, go on until one settles the
matter. -/
theorem runs_attemptsFrom_iff {remaining : Nat}
    (hbudget : n + remaining = Retry.attempts t.maxRetries) :
    Runs (t.attemptsFrom attempt remaining n) log es r ↔
      ∃ tries now last, t.Attempted attempt n tries now last log es r := by
  induction remaining using Nat.strongRecOn generalizing n log es with
  | ind remaining ih =>
  have hlater : ∀ later, remaining = later + 1 → ∀ {log es},
      Runs (t.attemptsFrom attempt later (n + 1)) log es r ↔
        ∃ tries now last, t.Attempted attempt (n + 1) tries now last log es r := by
    intro later hremaining log es
    exact ih later (by omega) (by omega)
  rw [attemptsFrom_eq, runs_bind]
  constructor
  · rintro ⟨log₁, es₁, x, log₂, es₂, rfl, rfl, hran, hrest⟩
    obtain ⟨time, ⟨hsettles, rfl, rfl, rfl⟩ | ⟨hopen, later, log', hremaining, rfl, hnext⟩⟩ :=
      (runs_proceed_iff hbudget).mp hrest
    · rw [List.append_nil]
      exact ⟨_, _, n, .of_settles (a := ⟨n, log₁, es₁, x⟩) rfl hran hsettles⟩
    · obtain ⟨tries, now, last, hattempted⟩ := (hlater later hremaining).mp hnext
      rw [← List.append_assoc]
      exact ⟨_, _, last, hattempted.cons (a := ⟨n, log₁, es₁, x⟩) rfl hran hopen⟩
  · rintro ⟨tries, now, last, hattempted⟩
    obtain ⟨hnumber, hran, hrest⟩ := hattempted.cases
    have hran : Runs (attempt n).run (tries n).log (tries n).events (tries n).result := by
      unfold Attempt.Ran at hran
      rwa [hnumber] at hran
    refine ⟨(tries n).log, (tries n).events, (tries n).result, ?_⟩
    rcases hrest with ⟨hsettles, rfl, rfl, rfl⟩ | ⟨hopen, log', es', rfl, rfl, hnext⟩
    · refine ⟨_, [], rfl, (List.append_nil _).symm, hran, ?_⟩
      exact (runs_proceed_iff hbudget).mpr ⟨now n, .inl ⟨hsettles, rfl, rfl, rfl⟩⟩
    · refine ⟨_, es', List.append_assoc _ _ _, rfl, hran, ?_⟩
      have hleft : n ≠ Retry.attempts t.maxRetries := fun hspent => hopen (.inr (.inl hspent))
      have hremaining : remaining = (remaining - 1) + 1 := by omega
      apply (runs_proceed_iff hbudget).mpr
      refine ⟨now n, .inr ⟨hopen, remaining - 1, log', hremaining, rfl, ?_⟩⟩
      exact (hlater _ hremaining).mpr ⟨tries, now, last, hnext⟩

/-- The budget is spent at last, so some attempt is the first to settle the matter. -/
theorem exists_isLeast (t : TaskContext) (tries : Nat → Attempt α) (now : Nat → Timestamp) :
    ∃ last, IsLeast {n | 1 ≤ n ∧ t.Settles n (tries n).result (now n)} last ∧
      last ≤ Retry.attempts t.maxRetries := by
  have hpositive : 1 ≤ Retry.attempts t.maxRetries := by
    have hmax : 0 < Retry.maxAttempts := by decide
    unfold Retry.attempts
    omega
  have hspent : ∃ n, 1 ≤ n ∧ t.Settles n (tries n).result (now n) :=
    ⟨_, hpositive, .inr (.inl rfl)⟩
  classical
  refine ⟨Nat.find hspent, ⟨Nat.find_spec hspent, fun n hn => Nat.find_min' hspent hn⟩, ?_⟩
  exact Nat.find_min' hspent ⟨hpositive, .inr (.inl rfl)⟩

end Attempted

end TaskContext

/-- A retried activity makes attempts 1, 2, … up to the first one that settles the matter, and no
others: it succeeds, fails for good, is the last one of the budget, or is followed by the deadline.
There is such an attempt whatever the attempts give and the clock says, its number has 32 bits, and
what it gives is the result; only a failure that might have been mended is reported as one of so
many attempts. -/
theorem TaskContext.retry_settles (t : TaskContext) (attempt : Nat → Fallible α) :
    (∀ (tries : Nat → Attempt α) (now : Nat → Timestamp),
      ∃ last, IsLeast {n | 1 ≤ n ∧ t.Settles n (tries n).result (now n)} last ∧
        last ≤ Retry.attempts t.maxRetries) ∧
    Retry.attempts t.maxRetries ≤ 2 ^ 32 - 1 ∧
    ∀ log es r, Runs (t.retry attempt).run log es r ↔
      ∃ tries now last, t.Attempted attempt 1 tries now last log es r := by
  refine ⟨t.exists_isLeast, Nat.min_le_right _ _, fun log es r => ?_⟩
  apply runs_attemptsFrom_iff
  have hmax : 0 < Retry.maxAttempts := by decide
  unfold Retry.attempts
  omega

end Agents
