import Agents.Proofs.Text.Digits
import Agents.Timestamp
import Mathlib.Tactic

/-! # Points in time and their texts

Counting days from a date and finding the date of a day are inverse to one another
(`daysFromDate_dateFromDays`). So the text of a point in time tells it apart from every other one
(`text_injective`), provided that a leap second stands at the end of a minute, as it does in all
that is read (`valid_of_parse?`).
-/

namespace Agents.Timestamp

/-- A point in time as a clock gives it: only the last second of a minute is ever two seconds
long. -/
structure Valid (t : Timestamp) : Prop where
  nanoseconds_lt : t.nanoseconds < 2000000000
  leap : 1000000000 ≤ t.nanoseconds → t.seconds % 60 = 59

/-! ## The calendar -/

/-- The years of an era and the days of such a year, counted from March. -/
theorem yearOfEra_bounds {dayOfEra yearOfEra dayOfYear : ℤ} (hnonneg : 0 ≤ dayOfEra)
    (hlt : dayOfEra < 146097)
    (hyear : yearOfEra = (dayOfEra - dayOfEra / 1460 + dayOfEra / 36524 - dayOfEra / 146096) / 365)
    (hday : dayOfYear = dayOfEra - (365 * yearOfEra + yearOfEra / 4 - yearOfEra / 100)) :
    0 ≤ yearOfEra ∧ yearOfEra < 400 ∧ 0 ≤ dayOfYear ∧ dayOfYear ≤ 365 := by
  -- the last day of an era belongs to a fifth century
  have hcases : (∃ century, dayOfEra / 36524 = century ∧ dayOfEra / 146096 = 0 ∧ 0 ≤ century ∧
      century ≤ 3) ∨ dayOfEra = 146096 := by
    refine or_iff_not_imp_right.mpr fun h => ⟨_, rfl, ?_, ?_, ?_⟩ <;> omega
  rcases hcases with ⟨century, hcentury, hlast, hcentury0, hcentury3⟩ | rfl
  · rw [hcentury, hlast] at hyear
    have hsame : yearOfEra / 100 = century := by omega
    rw [hsame] at hday
    refine ⟨?_, ?_, ?_, ?_⟩ <;> omega
  · subst hyear hday
    decide

theorem daysFromDate_eq {yearOfEra era fromMarch : ℤ} {month : ℕ} (hyear0 : 0 ≤ yearOfEra)
    (hyear400 : yearOfEra < 400) (hmonth : (((month + 9) % 12 : ℕ) : ℤ) = fromMarch) (day : ℕ) :
    daysFromDate (yearOfEra + era * 400 + (if month ≤ 2 then 1 else 0)) month day =
      era * 146097 + (yearOfEra * 365 + yearOfEra / 4 - yearOfEra / 100
        + ((153 * fromMarch + 2) / 5 + day - 1)) - 719468 := by
  have hyear : (if month ≤ 2 then yearOfEra + era * 400 + (if month ≤ 2 then 1 else 0) - 1
      else yearOfEra + era * 400 + (if month ≤ 2 then 1 else 0)) = yearOfEra + era * 400 := by
    split_ifs <;> omega
  have hera : (yearOfEra + era * 400) / 400 = era := by omega
  have hyearOfEra : (yearOfEra + era * 400) % 400 = yearOfEra := by omega
  simp only [daysFromDate, hyear, hera, hyearOfEra, hmonth]

/-- The date of a day leads back to the day. -/
theorem daysFromDate_dateFromDays (days : ℤ) :
    daysFromDate (dateFromDays days).1 (dateFromDays days).2.1 (dateFromDays days).2.2 = days := by
  unfold dateFromDays
  extract_lets shifted era dayOfEra yearOfEra dayOfYear fromMarch day month year
  have hsum : days + 719468 = era * 146097 + dayOfEra := by
    simp only [era, dayOfEra, shifted]
    omega
  have hbounds : 0 ≤ yearOfEra ∧ yearOfEra < 400 ∧ 0 ≤ dayOfYear ∧ dayOfYear ≤ 365 :=
    yearOfEra_bounds (Int.emod_nonneg _ (by decide)) (Int.emod_lt_of_pos _ (by decide)) rfl rfl
  obtain ⟨hyear0, hyear400, hday0, hday365⟩ := hbounds
  have hmarch : fromMarch = (5 * dayOfYear + 2) / 153 := rfl
  have hday : day = dayOfYear - (153 * fromMarch + 2) / 5 + 1 := rfl
  have hmonth : month = if fromMarch < 10 then fromMarch + 3 else fromMarch - 9 := rfl
  have hyear : year = yearOfEra + era * 400 + (if month ≤ 2 then 1 else 0) := rfl
  have hdayOfYear : dayOfYear = dayOfEra - (365 * yearOfEra + yearOfEra / 4 - yearOfEra / 100) := rfl
  clear_value year month day fromMarch dayOfYear yearOfEra dayOfEra era
  have hmonths : 1 ≤ month ∧ month ≤ 12 ∧ (month + 9) % 12 = fromMarch := by
    split_ifs at hmonth <;> omega
  have hyear' : year = yearOfEra + era * 400 + (if month.toNat ≤ 2 then 1 else 0) := by
    rw [hyear]
    split_ifs <;> omega
  have hcounted : (((month.toNat + 9) % 12 : ℕ) : ℤ) = fromMarch := by omega
  rw [hyear']
  change daysFromDate _ month.toNat day.toNat = days
  rw [daysFromDate_eq hyear0 hyear400 hcounted]
  omega

theorem dateFromDays_injective {a b : ℤ} (h : dateFromDays a = dateFromDays b) : a = b := by
  rw [← daysFromDate_dateFromDays a, h, daysFromDate_dateFromDays]

/-! ## Texts -/

theorem toList_padded (width n : ℕ) : (padded width n).toList = Text.paddedDigits width n := by
  simp only [padded, String.toList_append, String.toList_ofList, Nat.toString_eq_repr,
    Nat.toList_repr, ← String.length_toList, Text.paddedDigits]

def yearSign (year : ℤ) : List Char :=
  if year < 0 then ['-'] else if 9999 < year then ['+'] else []

theorem toList_yearText (year : ℤ) :
    (yearText year).toList = yearSign year ++ Text.paddedDigits 4 year.natAbs := by
  unfold yearText yearSign
  split_ifs <;> first | omega | skip
  · have hnat : year.toNat = year.natAbs := by omega
    rw [toList_padded, hnat, List.nil_append]
  · have hnat : year.toNat = year.natAbs := by omega
    rw [String.toList_append, toList_padded, hnat]
    rfl
  · have hnat : (-year).toNat = year.natAbs := by omega
    rw [String.toList_append, toList_padded, hnat]
    rfl

theorem yearSign_eq_minus {year : ℤ} : yearSign year = ['-'] ↔ year < 0 := by
  unfold yearSign
  split_ifs <;> simp_all

theorem yearSign_not_digit (year : ℤ) : ∀ c ∈ yearSign year, (!c.isDigit) = true := by
  unfold yearSign
  split_ifs <;> simp

theorem sign_append_inj {x y : ℤ} {m n : ℕ} {r s : List Char}
    (h : yearSign x ++ (Text.paddedDigits 4 m ++ r) = yearSign y ++ (Text.paddedDigits 4 n ++ s)) :
    yearSign x = yearSign y ∧ Text.paddedDigits 4 m ++ r = Text.paddedDigits 4 n ++ s := by
  have hdigit (n : ℕ) (r : List Char) :
      (Text.paddedDigits 4 n ++ r).takeWhile (!Char.isDigit ·) = [] := by
    have hlength := Text.le_length_padded 4 n
    cases hpadded : Text.paddedDigits 4 n with
    | nil =>
      rw [hpadded] at hlength
      cases hlength
    | cons c rest =>
      have hc := Text.allDigits_padded 4 n c (hpadded ▸ List.mem_cons_self)
      simp [hc]
  have hsign := congrArg (List.takeWhile (!Char.isDigit ·)) h
  rw [List.takeWhile_append_of_pos (yearSign_not_digit x),
    List.takeWhile_append_of_pos (yearSign_not_digit y), hdigit, hdigit, List.append_nil,
    List.append_nil] at hsign
  rw [hsign] at h
  exact ⟨hsign, List.append_cancel_left h⟩

theorem year_append_inj {x y : ℤ} {r s : List Char}
    (h : (yearText x).toList ++ '-' :: r = (yearText y).toList ++ '-' :: s) : x = y ∧ r = s := by
  have hmark (n : ℕ) : '-' ∉ Text.paddedDigits 4 n := (Text.allDigits_padded 4 n).not_mem rfl
  rw [toList_yearText, toList_yearText, List.append_assoc, List.append_assoc] at h
  obtain ⟨hsign, hrest⟩ := sign_append_inj h
  obtain ⟨hdigits, hrest⟩ := (Text.mark_inj (hmark _) (hmark _)).mp hrest
  have habs := Text.padded_injective hdigits
  have hneg : x < 0 ↔ y < 0 := by rw [← yearSign_eq_minus, hsign, yearSign_eq_minus]
  exact ⟨by omega, hrest⟩

def fractionDigits (nanoseconds : ℕ) : List Char :=
  if nanoseconds % 1000000 = 0 then Text.paddedDigits 3 (nanoseconds / 1000000)
  else if nanoseconds % 1000 = 0 then Text.paddedDigits 6 (nanoseconds / 1000)
  else Text.paddedDigits 9 nanoseconds

theorem toList_fractionText {n : ℕ} (h : n ≠ 0) :
    (fractionText n).toList = '.' :: fractionDigits n := by
  rw [fractionText, if_neg h]
  unfold fractionDigits
  split_ifs <;> simp [toList_padded]

theorem fractionDigits_injective {m n : ℕ} (hm : m < 1000000000) (hn : n < 1000000000)
    (h : fractionDigits m = fractionDigits n) : m = n := by
  -- texts of different widths differ
  have hwidth {v w i j : ℕ} (hv : 0 < v) (hw : 0 < w) (hi : i < 10 ^ v) (hj : j < 10 ^ w)
      (h : Text.paddedDigits v i = Text.paddedDigits w j) : v = w := by
    rw [← Text.length_padded hv hi, h, Text.length_padded hw hj]
  unfold fractionDigits at h
  split_ifs at h
  all_goals first
    | exact absurd (hwidth (by decide) (by decide) (by omega) (by omega) h) (by decide)
    | (have hsame := Text.padded_injective h; omega)

theorem second_append_inj {i j m n : ℕ} (hm : m < 1000000000) (hn : n < 1000000000)
    (h : (padded 2 i).toList ++ (fractionText m).toList ++ ['Z'] =
      (padded 2 j).toList ++ (fractionText n).toList ++ ['Z']) : i = j ∧ m = n := by
  have hmark (i : ℕ) : '.' ∉ Text.paddedDigits 2 i := (Text.allDigits_padded 2 i).not_mem rfl
  rw [List.append_cancel_right_eq, toList_padded, toList_padded] at h
  have hzero : (fractionText 0).toList = [] := rfl
  by_cases hm0 : m = 0 <;> by_cases hn0 : n = 0
  · subst hm0 hn0
    rw [List.append_cancel_right_eq] at h
    exact ⟨Text.padded_injective h, rfl⟩
  · have hpoint := congrArg ('.' ∈ ·) h
    simp [hm0, hzero, toList_fractionText hn0, hmark] at hpoint
  · have hpoint := congrArg ('.' ∈ ·) h
    simp [hn0, hzero, toList_fractionText hm0, hmark] at hpoint
  · rw [toList_fractionText hm0, toList_fractionText hn0] at h
    obtain ⟨hsecond, hfraction⟩ := (Text.mark_inj (hmark i) (hmark j)).mp h
    exact ⟨Text.padded_injective hsecond, fractionDigits_injective hm hn hfraction⟩

/-- The second of its minute as it is shown, 60 for a leap second. -/
def shownSecond (t : Timestamp) : ℕ :=
  (t.seconds % 86400).toNat % 60 + (if 1000000000 ≤ t.nanoseconds then 1 else 0)

def shownFraction (t : Timestamp) : ℕ :=
  if 1000000000 ≤ t.nanoseconds then t.nanoseconds - 1000000000 else t.nanoseconds

theorem toList_text (t : Timestamp) : t.text.toList =
    (yearText (dateFromDays (t.seconds / 86400)).1).toList ++ '-' ::
      (Text.paddedDigits 2 (dateFromDays (t.seconds / 86400)).2.1 ++ '-' ::
        (Text.paddedDigits 2 (dateFromDays (t.seconds / 86400)).2.2 ++ 'T' ::
          (Text.paddedDigits 2 ((t.seconds % 86400).toNat / 3600) ++ ':' ::
            (Text.paddedDigits 2 ((t.seconds % 86400).toNat / 60 % 60) ++ ':' ::
              ((padded 2 t.shownSecond).toList ++ (fractionText t.shownFraction).toList
                ++ ['Z']))))) := by
  simp [text, shownSecond, shownFraction, toList_padded]

theorem text_injective {t u : Timestamp} (ht : t.Valid) (hu : u.Valid) (h : t.text = u.text) :
    t = u := by
  have hmark {c : Char} (hc : c.isDigit = false) (n : ℕ) : c ∉ Text.paddedDigits 2 n :=
    (Text.allDigits_padded 2 n).not_mem hc
  have hfraction {t : Timestamp} (ht : t.Valid) : t.shownFraction < 1000000000 := by
    have hlt := ht.nanoseconds_lt
    unfold shownFraction
    split_ifs <;> omega
  have hchars := congrArg String.toList h
  rw [toList_text, toList_text] at hchars
  obtain ⟨hyear, hchars⟩ := year_append_inj hchars
  obtain ⟨hmonth, hchars⟩ := (Text.mark_inj (hmark rfl _) (hmark rfl _)).mp hchars
  obtain ⟨hday, hchars⟩ := (Text.mark_inj (hmark rfl _) (hmark rfl _)).mp hchars
  obtain ⟨hhour, hchars⟩ := (Text.mark_inj (hmark rfl _) (hmark rfl _)).mp hchars
  obtain ⟨hminute, hchars⟩ := (Text.mark_inj (hmark rfl _) (hmark rfl _)).mp hchars
  obtain ⟨hsecond, hsame⟩ := second_append_inj (hfraction ht) (hfraction hu) hchars
  have hdays : t.seconds / 86400 = u.seconds / 86400 := dateFromDays_injective
    (Prod.ext hyear (Prod.ext (Text.padded_injective hmonth) (Text.padded_injective hday)))
  have hhour := Text.padded_injective hhour
  have hminute := Text.padded_injective hminute
  obtain ⟨hseconds, hnanoseconds⟩ : t.seconds = u.seconds ∧ t.nanoseconds = u.nanoseconds := by
    have htleap := ht.leap
    have huleap := hu.leap
    unfold shownSecond at hsecond
    unfold shownFraction at hsame
    split_ifs at hsecond hsame <;> omega
  cases t
  cases u
  exact (Timestamp.mk.injEq ..).mpr ⟨hseconds, hnanoseconds⟩

/-! ## What is read -/

theorem numberOf_lt {digits : List Char} (h : ∀ c ∈ digits, isDigit c = true) :
    numberOf digits < 10 ^ digits.length := by
  have hfold (n : ℕ) : digits.foldl (fun n c => 10 * n + (c.toNat - '0'.toNat)) n <
      (n + 1) * 10 ^ digits.length := by
    induction digits generalizing n with
    | nil => simp
    | cons c rest ih =>
      have hc : c.toNat - '0'.toNat ≤ 9 := by
        have hdigit := h c List.mem_cons_self
        simp only [isDigit, Bool.and_eq_true, decide_eq_true_eq] at hdigit
        have hnine : c.toNat ≤ '9'.toNat := hdigit.2
        have hvalue : '9'.toNat = 57 ∧ '0'.toNat = 48 := ⟨rfl, rfl⟩
        omega
      refine (ih (fun d hd => h d (List.mem_cons_of_mem c hd)) _).trans_le ?_
      rw [List.length_cons, pow_succ', ← mul_assoc]
      dsimp only
      exact Nat.mul_le_mul_right _ (by omega)
  have hlt := hfold 0
  rwa [Nat.zero_add, Nat.one_mul] at hlt

theorem fraction?_lt {s rest : List Char} {n : ℕ} (h : fraction? s = some (n, rest)) :
    n < 1000000000 := by
  unfold fraction? at h
  split at h
  · next rest =>
    dsimp only at h
    split_ifs at h with hnone
    cases h
    have hdigits : ∀ c ∈ (rest.takeWhile isDigit).take 9, isDigit c = true := fun c hc =>
      List.all_eq_true.mp List.all_takeWhile c (List.mem_of_mem_take hc)
    have hlength : ((rest.takeWhile isDigit).take 9).length ≤ 9 := List.length_take_le ..
    calc numberOf ((rest.takeWhile isDigit).take 9)
          * Nat.pow 10 (9 - ((rest.takeWhile isDigit).take 9).length)
        < 10 ^ ((rest.takeWhile isDigit).take 9).length
          * 10 ^ (9 - ((rest.takeWhile isDigit).take 9).length) :=
          Nat.mul_lt_mul_of_pos_right (numberOf_lt hdigits) (Nat.pow_pos (by decide))
      _ = 1000000000 := by
          rw [← pow_add, Nat.add_sub_cancel' hlength]
          rfl
  · cases h
    decide

/-- An offset is a number of minutes. -/
theorem offset?_mod {s rest : List Char} {offset : ℤ} (h : offset? s = some (offset, rest)) :
    offset % 60 = 0 := by
  unfold offset? at h
  split at h
  · cases h
    rfl
  · cases h
    rfl
  · dsimp only at h
    split at h
    · split_ifs at h
      cases h
      rfl
    · split_ifs at h
      split at h
      · split_ifs at h
        cases h
        exact Int.emod_eq_zero_of_dvd (Dvd.dvd.mul_left (by omega) _)
      · cases h
  · cases h

theorem of_check {α : Type} {c : Prop} [Decidable c] {next : PUnit → Option α} {a : α}
    (h : (if c then none >>= next else next ()) = some a) : ¬ c ∧ next () = some a := by
  split_ifs at h with hc
  · cases h
  · exact ⟨hc, h⟩

theorem valid_of_parse? {s : String} {t : Timestamp} (h : parse? s = some t) : t.Valid := by
  obtain ⟨⟨year, _⟩, -, h⟩ := Option.bind_eq_some_iff.mp h
  obtain ⟨_, -, h⟩ := Option.bind_eq_some_iff.mp h
  obtain ⟨⟨month, _⟩, -, h⟩ := Option.bind_eq_some_iff.mp h
  obtain ⟨_, -, h⟩ := Option.bind_eq_some_iff.mp h
  obtain ⟨⟨day, rest⟩, -, h⟩ := Option.bind_eq_some_iff.mp h
  dsimp only at h
  -- whatever stands between the date and the time
  split at h
  case h_4 => cases h
  all_goals
    obtain ⟨rest, -, h⟩ := Option.bind_eq_some_iff.mp h
    obtain ⟨⟨hour, _⟩, -, h⟩ := Option.bind_eq_some_iff.mp h
    obtain ⟨_, -, h⟩ := Option.bind_eq_some_iff.mp h
    obtain ⟨⟨minute, _⟩, -, h⟩ := Option.bind_eq_some_iff.mp h
    obtain ⟨_, -, h⟩ := Option.bind_eq_some_iff.mp h
    obtain ⟨⟨second, _⟩, -, h⟩ := Option.bind_eq_some_iff.mp h
    obtain ⟨⟨nanoseconds, _⟩, hfraction, h⟩ := Option.bind_eq_some_iff.mp h
    obtain ⟨⟨offset, _⟩, hoffset, h⟩ := Option.bind_eq_some_iff.mp h
    have hlt := fraction?_lt hfraction
    have hminutes := offset?_mod hoffset
    obtain ⟨-, h⟩ := of_check h
    obtain ⟨-, h⟩ := of_check h
    obtain ⟨-, h⟩ := of_check h
    obtain ⟨-, h⟩ := of_check h
    obtain rfl := Option.some.inj h
    constructor <;> dsimp only <;> split_ifs <;> omega

end Agents.Timestamp
