import Agents.Decimal.Shortest
import Agents.Proofs.Text.Digits
import Mathlib.Algebra.Order.Field.Power
import Mathlib.Tactic.FieldSimp
import Mathlib.Tactic.Linarith
import Mathlib.Tactic.Positivity
import Mathlib.Tactic.Ring

/-! # The shortest decimal tells doubles apart

The decimal that is found for a number lies in the interval of the numbers that round to it
(`rounds_shortest`): the grids that are tried get fine enough. The intervals of two different
numbers have at most an end in common, and then it belongs to only one of them
(`eq_of_rounds`). So two numbers with the same decimal are the same.
-/

namespace Agents.Decimal

/-! ## Intervals -/

def Scaled.value (s : Scaled) : ℚ := s.digits * 10 ^ s.exponent

def Binary.lower (b : Binary) : ℚ := (interval b).1 * 2 ^ (b.exponent - 2)

def Binary.upper (b : Binary) : ℚ := (4 * b.mantissa + 2 : ℕ) * 2 ^ (b.exponent - 2)

/-- A number that rounds to `b`; the ends of the interval go to the even mantissa. -/
def Binary.Rounds (b : Binary) (r : ℚ) : Prop :=
  if b.mantissa % 2 = 0 then b.lower ≤ r ∧ r ≤ b.upper else b.lower < r ∧ r < b.upper

/-- The numbers that a double can be. -/
structure Binary.Valid (b : Binary) : Prop where
  mantissa_lt : b.mantissa < 2 ^ 53
  least_le : -1074 ≤ b.exponent
  le_largest : b.exponent ≤ 972
  normal : b.exponent = -1074 ∨ 2 ^ 52 ≤ b.mantissa

theorem size_52 : Word.size 52 = 2 ^ 52 := rfl

theorem valid_magnitude (x : Float) : (magnitude x).Valid := by
  have hbits : x.toBits.toNat % Word.size 63 < 2 ^ 63 := Nat.mod_lt _ (Word.size_pos 63)
  unfold magnitude
  dsimp only
  generalize x.toBits.toNat % Word.size 63 = bits at hbits
  rw [size_52]
  split
  · exact ⟨by dsimp only; omega, by dsimp only; omega, by dsimp only; omega, .inl rfl⟩
  · exact ⟨by dsimp only; omega, by dsimp only; omega, by dsimp only; omega,
      .inr (by dsimp only; omega)⟩

variable {b b' : Binary} {r : ℚ}

theorem Binary.Rounds.le (h : b.Rounds r) : b.lower ≤ r ∧ r ≤ b.upper := by
  unfold Binary.Rounds at h
  split at h
  · exact h
  · exact ⟨h.1.le, h.2.le⟩

theorem Binary.Rounds.even_of_eq (h : b.Rounds r) (hend : b.lower = r ∨ r = b.upper) :
    b.mantissa % 2 = 0 := by
  unfold Binary.Rounds at h
  split at h
  · next heven => exact heven
  · rcases hend with heq | heq
    · exact absurd heq h.1.ne
    · exact absurd heq h.2.ne

/-- Numbers in the order of their exponents, and of their mantissas where these are the same. -/
def Binary.Below (b b' : Binary) : Prop :=
  b.exponent < b'.exponent ∨ b.exponent = b'.exponent ∧ b.mantissa < b'.mantissa

/-- How far below a number its interval begins, in quarters of its last bit. -/
theorem interval_fst (b : Binary) : (interval b).1 =
    4 * b.mantissa - if b.mantissa = 2 ^ 52 ∧ -1074 < b.exponent then 1 else 2 := rfl

/-- In quarters of the last bit of the lower one of two numbers: the one ends where the other
begins, at the latest, and if they meet they are not both even. -/
theorem quarters_le (h : b.Valid) (h' : b'.Valid) (hlt : b.Below b') :
    ∃ e : ℕ, b'.exponent = b.exponent + e ∧ 4 * b.mantissa + 2 ≤ (interval b').1 * 2 ^ e ∧
      (4 * b.mantissa + 2 = (interval b').1 * 2 ^ e →
        b.mantissa % 2 = 0 → b'.mantissa % 2 = 1) := by
  have hmantissa := h.mantissa_lt
  have hnormal := h'.normal
  rw [interval_fst]
  rcases hlt with hexponent | ⟨hexponent, hless⟩
  · have hleast := h.least_le
    refine ⟨(b'.exponent - b.exponent).toNat, by omega, ?_⟩
    obtain ⟨e, he⟩ : ∃ e, (b'.exponent - b.exponent).toNat = e + 1 :=
      Nat.exists_eq_succ_of_ne_zero (by omega)
    have htwo : 2 ≤ 2 ^ (e + 1) := Nat.le_self_pow (Nat.succ_ne_zero e) 2
    rw [he]
    have hlow : 2 ^ 54 - 1 ≤ 4 * b'.mantissa -
        if b'.mantissa = 2 ^ 52 ∧ -1074 < b'.exponent then 1 else 2 := by
      split <;> omega
    have hmul := Nat.mul_le_mul hlow htwo
    constructor
    · omega
    · intro heq heven
      omega
  · refine ⟨0, by omega, ?_⟩
    rw [Nat.pow_zero, Nat.mul_one]
    split
    · omega
    · constructor
      · omega
      · intro heq heven
        omega

/-- The interval of a number ends where that of a greater one begins, at the latest; and if they
meet, they are not both even. -/
theorem upper_le_lower (h : b.Valid) (h' : b'.Valid) (hlt : b.Below b') :
    b.upper ≤ b'.lower ∧ (b.upper = b'.lower → b.mantissa % 2 = 0 → b'.mantissa % 2 = 1) := by
  obtain ⟨e, hexponent, hle, hodd⟩ := quarters_le h h' hlt
  have hunit : (0 : ℚ) < 2 ^ (b.exponent - 2) := by positivity
  have hlower : b'.lower = ((interval b').1 * 2 ^ e : ℕ) * 2 ^ (b.exponent - 2) := by
    rw [Binary.lower, show b'.exponent - 2 = e + (b.exponent - 2) by omega,
      zpow_add₀ (by norm_num), zpow_natCast]
    push_cast
    ring
  rw [hlower, Binary.upper]
  constructor
  · exact mul_le_mul_of_nonneg_right (by exact_mod_cast hle) hunit.le
  · intro heq
    exact hodd (by exact_mod_cast mul_right_cancel₀ hunit.ne' heq)

theorem eq_of_rounds (h : b.Valid) (h' : b'.Valid) (hr : b.Rounds r) (hr' : b'.Rounds r) :
    b = b' := by
  -- of two different ones, one is below the other
  have habove {b b' : Binary} (h : b.Valid) (h' : b'.Valid) (hr : b.Rounds r)
      (hr' : b'.Rounds r) : ¬ b.Below b' := by
    intro hlt
    obtain ⟨hle, hodd⟩ := upper_le_lower h h' hlt
    have hupper : r = b.upper := le_antisymm hr.le.2 (hle.trans hr'.le.1)
    have hlower : b'.lower = r := le_antisymm hr'.le.1 (hr.le.2.trans hle)
    have heven := hr.even_of_eq (.inr hupper)
    have heven' := hr'.even_of_eq (.inl hlower)
    have := hodd (hupper.symm.trans hlower.symm) heven
    omega
  have hbelow := habove h h' hr hr'
  have hbelow' := habove h' h hr' hr
  unfold Binary.Below at hbelow hbelow'
  obtain ⟨m, q⟩ := b
  obtain ⟨m', q'⟩ := b'
  simp only [Binary.mk.injEq]
  dsimp only at hbelow hbelow'
  omega

/-! ## Grids -/

theorem unit_eq (q : Int) : 0 < (unit q).2 ∧ ((unit q).1 : ℚ) = 2 ^ (q - 2) * (unit q).2 := by
  unfold unit
  split
  · next e he => simp [he]
  · next e he =>
    rw [he, zpow_negSucc]
    simp

theorem scale_eq {num den : ℕ} {v : ℚ} (hden : 0 < den) (h : (num : ℚ) = v * den) (k : Int) :
    0 < (scale num den k).2 ∧
      ((scale num den k).1 : ℚ) = v * 10 ^ k * (scale num den k).2 := by
  unfold scale
  split
  · next e =>
    refine ⟨hden, ?_⟩
    simp only [Int.ofNat_eq_natCast, zpow_natCast, Nat.pow_eq]
    push_cast
    rw [h]
    ring
  · next e =>
    refine ⟨Nat.mul_pos hden (Nat.pow_pos (by norm_num)), ?_⟩
    rw [zpow_negSucc]
    push_cast [Nat.pow_eq]
    rw [h]
    field_simp

/-- Whether a point of a grid lies in the interval; `num / den` is the unit of the interval. -/
def isInside (b : Binary) (num den d : ℕ) : Bool :=
  if b.mantissa % 2 = 0 then (interval b).1 * num ≤ d * den ∧ d * den ≤ (4 * b.mantissa + 2) * num
  else (interval b).1 * num < d * den ∧ d * den < (4 * b.mantissa + 2) * num

/-- One of the two points of the grid next to the number, as long as one lies in the interval. -/
theorem onGrid?_eq (b : Binary) (k : Int) :
    let num := (scale (unit b.exponent).1 (unit b.exponent).2 k).1
    let den := (scale (unit b.exponent).1 (unit b.exponent).2 k).2
    let floor := 4 * b.mantissa * num / den
    ∃ nearest, (nearest = floor ∨ nearest = floor + 1) ∧ onGrid? b k =
      match isInside b num den floor, isInside b num den (floor + 1) with
      | true, true => some nearest
      | true, false => some floor
      | false, true => some (floor + 1)
      | false, false => none := by
  intro num den floor
  have hinside (d : ℕ) : isInside b num den d =
      if decide (b.mantissa % 2 = 0) = true then
        decide ((interval b).1 * num ≤ d * den ∧ d * den ≤ (interval b).2.2.1 * num)
      else decide ((interval b).1 * num < d * den ∧ d * den < (interval b).2.2.1 * num) := by
    simp only [isInside, decide_eq_true_eq]
    rfl
  rw [hinside, hinside]
  refine ⟨_, ?_, rfl⟩
  exact ite_eq_or_eq _ _ _

theorem isInside_of_onGrid? {k : Int} {d : ℕ} (h : onGrid? b k = some d) :
    isInside b (scale (unit b.exponent).1 (unit b.exponent).2 k).1
      (scale (unit b.exponent).1 (unit b.exponent).2 k).2 d = true := by
  obtain ⟨nearest, hnearest, heq⟩ := onGrid?_eq b k
  rw [heq] at h
  split at h
  · next hfloor hnext =>
    cases h
    rcases hnearest with rfl | rfl
    · exact hfloor
    · exact hnext
  · next hfloor _ =>
    cases h
    exact hfloor
  · next _ hnext =>
    cases h
    exact hnext
  · cases h

theorem isSome_of_isInside {k : Int} (h : isInside b
    (scale (unit b.exponent).1 (unit b.exponent).2 k).1
    (scale (unit b.exponent).1 (unit b.exponent).2 k).2
    (4 * b.mantissa * (scale (unit b.exponent).1 (unit b.exponent).2 k).1 /
      (scale (unit b.exponent).1 (unit b.exponent).2 k).2 + 1) = true) :
    (onGrid? b k).isSome := by
  obtain ⟨nearest, -, heq⟩ := onGrid?_eq b k
  rw [heq, h]
  split
  · rfl
  · rfl
  · rfl
  · next hfalse => cases hfalse

theorem isInside_iff {num den d : ℕ} {k : Int} (hden : 0 < den)
    (h : (num : ℚ) = 2 ^ (b.exponent - 2) * 10 ^ k * den) :
    isInside b num den d = true ↔ b.Rounds (d * 10 ^ (-k)) := by
  have hten : (0 : ℚ) < 10 ^ k := by positivity
  have hpos : (0 : ℚ) < 10 ^ k * den := mul_pos hten (by exact_mod_cast hden)
  have hpoint : ((d * den : ℕ) : ℚ) = d * 10 ^ (-k) * (10 ^ k * den) := by
    rw [zpow_neg]
    push_cast
    field_simp
  have hend (n : ℕ) : ((n * num : ℕ) : ℚ) = n * 2 ^ (b.exponent - 2) * (10 ^ k * den) := by
    push_cast
    rw [h]
    ring
  have hle (n : ℕ) : n * num ≤ d * den ↔ (n : ℚ) * 2 ^ (b.exponent - 2) ≤ d * 10 ^ (-k) := by
    rw [← Nat.cast_le (α := ℚ), hpoint, hend, mul_le_mul_iff_left₀ hpos]
  have hge (n : ℕ) : d * den ≤ n * num ↔ (d : ℚ) * 10 ^ (-k) ≤ n * 2 ^ (b.exponent - 2) := by
    rw [← Nat.cast_le (α := ℚ), hpoint, hend, mul_le_mul_iff_left₀ hpos]
  unfold isInside Binary.Rounds Binary.lower Binary.upper
  split
  · rw [decide_eq_true_eq, hle, hge]
  · rw [decide_eq_true_eq, ← Nat.not_le, ← Nat.not_le, hle, hge, not_le, not_le]

theorem rounds_of_onGrid? {k : Int} {d : ℕ} (h : onGrid? b k = some d) :
    b.Rounds (d * 10 ^ (-k)) := by
  obtain ⟨hunit, hvalue⟩ := unit_eq b.exponent
  obtain ⟨hden, hnum⟩ := scale_eq hunit hvalue k
  exact (isInside_iff hden hnum).mp (isInside_of_onGrid? h)

theorem pos_of_rounds (hb : b.mantissa ≠ 0) (h : b.Rounds r) : 0 < r := by
  have hpos : 0 < (interval b).1 := by
    rw [interval_fst]
    split <;> omega
  have hlower : 0 < b.lower := mul_pos (by exact_mod_cast hpos) (by positivity)
  exact hlower.trans_le h.le.1

/-- A grid that is finer than half of the last bit has a point that rounds to the number. -/
theorem isSome_onGrid? {k : Int} (h : (10 : ℚ) ^ (-k) < 2 ^ (b.exponent - 1)) :
    (onGrid? b k).isSome := by
  obtain ⟨hunit, hvalue⟩ := unit_eq b.exponent
  obtain ⟨hden, hnum⟩ := scale_eq hunit hvalue k
  refine isSome_of_isInside ?_
  generalize (scale (unit b.exponent).1 (unit b.exponent).2 k).1 = num at hnum ⊢
  generalize (scale (unit b.exponent).1 (unit b.exponent).2 k).2 = den at hden hnum ⊢
  -- the point after the number is less than half of the last bit away
  have hfine : den < 2 * num := by
    have hunit : (2 : ℚ) ^ (b.exponent - 1) = 2 * 2 ^ (b.exponent - 2) := by
      rw [← zpow_one_add₀ (by norm_num), show 1 + (b.exponent - 2) = b.exponent - 1 by ring]
    have hone : 1 < 2 * 2 ^ (b.exponent - 2) * (10 : ℚ) ^ k := by
      rwa [← hunit, ← inv_lt_iff_one_lt_mul₀ (by positivity), ← zpow_neg]
    have hden' : (0 : ℚ) < den := by exact_mod_cast hden
    have hcast : (den : ℚ) < 2 * num := by
      rw [hnum]
      nlinarith
    exact_mod_cast hcast
  have hfloor := Nat.div_add_mod (4 * b.mantissa * num) den
  have hmod := Nat.mod_lt (4 * b.mantissa * num) hden
  have hlower : (interval b).1 ≤ 4 * b.mantissa := Nat.sub_le _ _
  have hlower' := Nat.mul_le_mul_right num hlower
  have hpoint : (4 * b.mantissa * num / den + 1) * den =
      den * (4 * b.mantissa * num / den) + den := by ring
  have hupper : (4 * b.mantissa + 2) * num = 4 * b.mantissa * num + 2 * num := by ring
  unfold isInside
  rw [hpoint, hupper]
  split
  · exact decide_eq_true ⟨by omega, by omega⟩
  · exact decide_eq_true ⟨by omega, by omega⟩

/-! ## The search -/

theorem value_strip (fuel : ℕ) (s : Scaled) : (strip fuel s).value = s.value := by
  fun_induction strip fuel s with
  | case1 => rfl
  | case2 fuel s h ih =>
    have hdigits : s.digits = 10 * (s.digits / 10) := by omega
    rw [ih, Scaled.value, Scaled.value]
    dsimp only
    rw [zpow_add_one₀ (by norm_num)]
    conv_rhs => rw [hdigits]
    push_cast
    ring
  | case3 => rfl

theorem rounds_search {fuel : ℕ} {k : Int}
    (h : (onGrid? b (k + fuel)).isSome) : b.Rounds (search b fuel k).value := by
  induction fuel generalizing k with
  | zero =>
    obtain ⟨d, hd⟩ := Option.isSome_iff_exists.mp h
    rw [Nat.cast_zero, Int.add_zero] at hd
    unfold search
    rw [hd]
    exact rounds_of_onGrid? hd
  | succ fuel ih =>
    have hrest : b.Rounds (search b fuel (k + 1)).value := ih (by
      rwa [show k + 1 + (fuel : Int) = k + (fuel + 1 : ℕ) by push_cast; ring])
    unfold search
    split
    · next d hd =>
      split
      · exact hrest
      · exact rounds_of_onGrid? hd
    · exact hrest

theorem pow_ten_lt_pow_two {m n : ℕ} (h : 10 * n < 3 * m) : 10 ^ n < 2 ^ m := by
  refine lt_of_pow_lt_pow_left₀ 3 (Nat.zero_le _) ?_
  calc (10 ^ n) ^ 3 = (10 ^ 3) ^ n := by rw [← pow_mul, ← pow_mul, Nat.mul_comm]
    _ ≤ (2 ^ 10) ^ n := Nat.pow_le_pow_left (by norm_num) n
    _ = 2 ^ (10 * n) := (pow_mul 2 10 n).symm
    _ < 2 ^ (3 * m) := Nat.pow_lt_pow_right (by norm_num) h
    _ = (2 ^ m) ^ 3 := by rw [← pow_mul, Nat.mul_comm]

theorem pow_two_lt_pow_ten {m n : ℕ} (h : 10 * m < 33 * n) : 2 ^ m < 10 ^ n := by
  refine lt_of_pow_lt_pow_left₀ 10 (Nat.zero_le _) ?_
  calc (2 ^ m) ^ 10 = 2 ^ (10 * m) := by rw [← pow_mul, Nat.mul_comm]
    _ < 2 ^ (33 * n) := Nat.pow_lt_pow_right (by norm_num) h
    _ = (2 ^ 33) ^ n := pow_mul 2 33 n
    _ ≤ (10 ^ 10) ^ n := Nat.pow_le_pow_left (by norm_num) n
    _ = (10 ^ n) ^ 10 := by rw [← pow_mul, ← pow_mul, Nat.mul_comm]

/-- The last grid that is tried is finer than half of the last bit. -/
theorem grid_lt_half {a q : Int} (hleast : -1074 ≤ q) (hlargest : q ≤ 972)
    (h : 100000 * (a + 19) ≤ 30103 * (52 + q)) : (10 : ℚ) ^ a < 2 ^ (q - 1) := by
  rcases Int.lt_or_le a 0 with hneg | hpos
  · obtain ⟨n, rfl⟩ : ∃ n : ℕ, a = -n := ⟨(-a).toNat, by omega⟩
    rcases Int.lt_or_le (q - 1) 0 with hq | hq
    · obtain ⟨m, hm⟩ : ∃ m : ℕ, q - 1 = -m := ⟨(1 - q).toNat, by omega⟩
      have hpow : 2 ^ m < 10 ^ n := pow_two_lt_pow_ten (by omega)
      rw [hm, zpow_neg, zpow_neg, zpow_natCast, zpow_natCast]
      exact inv_strictAnti₀ (by positivity) (by exact_mod_cast hpow)
    · have hlt : (10 : ℚ) ^ (-n : ℤ) < 1 := zpow_lt_one_of_neg₀ (by norm_num) hneg
      exact hlt.trans_le (one_le_zpow₀ (by norm_num) hq)
  · obtain ⟨n, rfl⟩ := Int.eq_ofNat_of_zero_le hpos
    obtain ⟨m, hm⟩ : ∃ m : ℕ, q - 1 = m := ⟨(q - 1).toNat, by omega⟩
    have hpow : 10 ^ n < 2 ^ m := pow_ten_lt_pow_two (by omega)
    rw [hm, zpow_natCast, zpow_natCast]
    exact_mod_cast hpow

/-- The shortest decimal of a double rounds to it. -/
theorem rounds_shortest {x : Float} (hx : (magnitude x).mantissa ≠ 0) :
    (magnitude x).Rounds (shortest x).value := by
  have hvalid := valid_magnitude x
  unfold shortest
  dsimp only
  rw [if_neg hx, value_strip]
  refine rounds_search (isSome_onGrid? (grid_lt_half hvalid.least_le hvalid.le_largest ?_))
  have hlog : (magnitude x).mantissa.log2 < 53 := (Nat.log2_lt hx).mpr hvalid.mantissa_lt
  omega

end Agents.Decimal
