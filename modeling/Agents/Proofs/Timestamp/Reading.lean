import Agents.Proofs.Timestamp

/-! # Points in time are read back from their texts

A point in time whose year the calendar has is read back from its text (`parse?_text`): the digits
of each part end at the mark after it, the date of a day is one of the calendar
(`date_bounds`), and counting its days leads back to the day.
-/

namespace Agents.Timestamp

/-! ## Dates -/

/-- Only in a leap year is there a day 365 days after the first of March. -/
theorem leap_of_dayOfYear {dayOfEra yearOfEra : ℤ} (hnonneg : 0 ≤ dayOfEra)
    (hlt : dayOfEra < 146097)
    (hyear : yearOfEra = (dayOfEra - dayOfEra / 1460 + dayOfEra / 36524 - dayOfEra / 146096) / 365)
    (hday : dayOfEra - (365 * yearOfEra + yearOfEra / 4 - yearOfEra / 100) = 365) :
    (yearOfEra + 1) % 4 = 0 ∧ ((yearOfEra + 1) % 100 ≠ 0 ∨ yearOfEra = 399) := by
  have hcases : (∃ century, dayOfEra / 36524 = century ∧ dayOfEra / 146096 = 0 ∧ 0 ≤ century ∧
      century ≤ 3) ∨ dayOfEra = 146096 := by
    refine or_iff_not_imp_right.mpr fun h => ⟨_, rfl, ?_, ?_, ?_⟩ <;> omega
  rcases hcases with ⟨century, hcentury, hlast, hcentury0, hcentury3⟩ | rfl
  · rw [hcentury, hlast] at hyear
    have hsame : yearOfEra / 100 = century := by omega
    rw [hsame] at hday
    have hfourth : (yearOfEra + 1) % 4 = 0 := by
      by_contra hne
      -- otherwise the next year would begin on that day
      obtain ⟨cycle, year, hsplit, hyear0, hyear2⟩ :
          ∃ cycle year, yearOfEra = 4 * cycle + year ∧ 0 ≤ year ∧ year ≤ 2 :=
        ⟨yearOfEra / 4, yearOfEra % 4, by omega, by omega, by omega⟩
      have hbetween : 0 ≤ cycle - century ∧ cycle - century ≤ 99 := by omega
      have hdays : dayOfEra = 1460 * cycle + (365 * (year + 1) + (cycle - century)) := by omega
      have hcycle : dayOfEra / 1460 = cycle := by
        clear hyear hcentury hlast hsame hday
        omega
      rw [hcycle] at hyear
      clear hcycle hcentury hlast hsame hday
      omega
    refine ⟨hfourth, .inl fun hhundredth => ?_⟩
    have hnext : dayOfEra = 36524 * (century + 1) := by omega
    omega
  · subst hyear
    decide

theorem day_le {fromMarch dayOfYear year : ℤ} (hday0 : 0 ≤ dayOfYear) (hday365 : dayOfYear ≤ 365)
    (hmarch : fromMarch = (5 * dayOfYear + 2) / 153)
    (hleap : dayOfYear = 365 → isLeapYear year = true) :
    dayOfYear - (153 * fromMarch + 2) / 5 + 1 ≤
      daysInMonth year (if fromMarch < 10 then fromMarch + 3 else fromMarch - 9).toNat := by
  have hrange : 0 ≤ fromMarch ∧ fromMarch ≤ 11 := by omega
  obtain ⟨hlow, hhigh⟩ := hrange
  by_cases hfebruary : fromMarch = 11
  · subst fromMarch
    rw [hfebruary]
    show _ ≤ ((if isLeapYear year = true then 29 else 28 : ℕ) : ℤ)
    split_ifs with h
    · omega
    · have hne : dayOfYear ≠ 365 := fun heq => h (hleap heq)
      omega
  · have hother : (if fromMarch < 10 then fromMarch + 3 else fromMarch - 9).toNat ≠ 2 := by
      split_ifs <;> omega
    rw [daysInMonth, if_neg hother]
    interval_cases fromMarch <;> norm_num <;> omega

theorem date_bounds (days : ℤ) :
    1 ≤ (dateFromDays days).2.1 ∧ (dateFromDays days).2.1 ≤ 12 ∧ 1 ≤ (dateFromDays days).2.2 ∧
      (dateFromDays days).2.2 ≤ daysInMonth (dateFromDays days).1 (dateFromDays days).2.1 := by
  unfold dateFromDays
  extract_lets shifted era dayOfEra yearOfEra dayOfYear fromMarch day month year
  have hera0 : 0 ≤ dayOfEra := Int.emod_nonneg _ (by decide)
  have hera1 : dayOfEra < 146097 := Int.emod_lt_of_pos _ (by decide)
  have hbounds : 0 ≤ yearOfEra ∧ yearOfEra < 400 ∧ 0 ≤ dayOfYear ∧ dayOfYear ≤ 365 :=
    yearOfEra_bounds hera0 hera1 rfl rfl
  obtain ⟨hyear0, hyear400, hday0, hday365⟩ := hbounds
  have hmarch : fromMarch = (5 * dayOfYear + 2) / 153 := rfl
  have hday : day = dayOfYear - (153 * fromMarch + 2) / 5 + 1 := rfl
  have hmonth : month = if fromMarch < 10 then fromMarch + 3 else fromMarch - 9 := rfl
  have hyear : year = yearOfEra + era * 400 + (if month ≤ 2 then 1 else 0) := rfl
  have hlast : dayOfYear = 365 →
      (yearOfEra + 1) % 4 = 0 ∧ ((yearOfEra + 1) % 100 ≠ 0 ∨ yearOfEra = 399) :=
    leap_of_dayOfYear hera0 hera1 rfl
  clear_value year month day fromMarch dayOfYear yearOfEra dayOfEra era
  have hleap : dayOfYear = 365 → isLeapYear year = true := by
    intro h
    obtain ⟨hfourth, hhundredth⟩ := hlast h
    have hnext : year = yearOfEra + 1 + era * 400 := by
      split_ifs at hmonth hyear <;> omega
    simp only [isLeapYear, Bool.and_eq_true, Bool.or_eq_true, decide_eq_true_eq]
    omega
  have hle := day_le hday0 hday365 hmarch hleap
  rw [← hmonth, ← hday] at hle
  show 1 ≤ month.toNat ∧ month.toNat ≤ 12 ∧ 1 ≤ day.toNat ∧
    day.toNat ≤ daysInMonth year month.toNat
  split_ifs at hmonth <;> refine ⟨?_, ?_, ?_, ?_⟩ <;> omega

/-! ## Digits -/

theorem trimStart_cons {c : Char} (h : Text.isBlank c = false) (s : List Char) :
    Text.trimStart (c :: s) = c :: s := List.dropWhile_cons_of_neg (by simp [h])

theorem isBlank_of_isDigit {c : Char} (h : isDigit c = true) : Text.isBlank c = false := by
  simp only [isDigit, Bool.and_eq_true, decide_eq_true_eq] at h
  have hzero : '0'.toNat ≤ c.toNat := h.1
  have hnine : c.toNat ≤ '9'.toNat := h.2
  have hvalues : '0'.toNat = 48 ∧ '9'.toNat = 57 := ⟨rfl, rfl⟩
  simp only [Text.isBlank, Bool.or_eq_false_iff, Bool.and_eq_false_iff, decide_eq_false_iff_not]
  omega

theorem numberOf_padded (width n : ℕ) : numberOf (Text.paddedDigits width n) = n :=
  Text.ofDigitChars_padded width n

/-- Digits are read up to the given width, or to something that is none. -/
theorem number?_digits {width : ℕ} {digits rest : List Char} (hne : digits ≠ [])
    (hdigits : Text.AllDigits digits) (hwidth : digits.length ≤ width)
    (hend : digits.length = width ∨ ∀ c ∈ rest.head?, isDigit c = false) :
    number? width (digits ++ rest) = some (numberOf digits, rest) := by
  have hdigit : ∀ c ∈ digits, isDigit c = true := hdigits
  have htrim : Text.trimStart (digits ++ rest) = digits ++ rest := by
    obtain ⟨c, more, rfl⟩ := List.exists_cons_of_ne_nil hne
    exact trimStart_cons (isBlank_of_isDigit (hdigit c List.mem_cons_self)) _
  have htake : ((digits ++ rest).take width).takeWhile isDigit = digits := by
    rw [List.take_append, List.take_of_length_le hwidth,
      List.takeWhile_append_of_pos hdigit]
    rcases hend with rfl | hend
    · rw [Nat.sub_self, List.take_zero, List.takeWhile_nil, List.append_nil]
    · cases rest with
      | nil => simp
      | cons c rest =>
        cases width - digits.length with
        | zero => simp
        | succ n => simp [hend c rfl]
  unfold number?
  simp only [htrim, htake, if_neg hne, List.drop_left]

theorem number?_two {n : ℕ} (h : n < 100) (rest : List Char) :
    number? 2 (Text.paddedDigits 2 n ++ rest) = some (n, rest) := by
  have hlength : (Text.paddedDigits 2 n).length = 2 := Text.length_padded (by decide) h
  have hne : Text.paddedDigits 2 n ≠ [] := List.ne_nil_of_length_pos (by omega)
  rw [number?_digits hne (Text.allDigits_padded 2 n) hlength.le (.inl hlength), numberOf_padded]

theorem mark?_cons {c : Char} (h : Text.isBlank c = false) (rest : List Char) :
    mark? c (c :: rest) = some rest := by
  rw [mark?, trimStart_cons h]
  exact if_pos rfl

/-! ## The parts of a text -/

theorem year?_yearText (year : ℤ) (rest : List Char) :
    year? ((yearText year).toList ++ '-' :: rest) = some (year, '-' :: rest) := by
  have hdigits := Text.allDigits_padded 4 year.natAbs
  have hlength := Text.le_length_padded 4 year.natAbs
  obtain ⟨c, more, hcons⟩ := List.exists_cons_of_ne_nil
    (List.ne_nil_of_length_pos (by omega : 0 < (Text.paddedDigits 4 year.natAbs).length))
  have hc : isDigit c = true := hdigits c (hcons ▸ List.mem_cons_self)
  have hread (width : ℕ) (hwidth : (Text.paddedDigits 4 year.natAbs).length ≤ width) :
      number? width (Text.paddedDigits 4 year.natAbs ++ '-' :: rest) =
        some (year.natAbs, '-' :: rest) := by
    rw [number?_digits (hcons ▸ List.cons_ne_nil c more) hdigits hwidth (.inr ?_), numberOf_padded]
    rintro d ⟨⟩
    rfl
  have hlong := hread (Text.paddedDigits 4 year.natAbs ++ '-' :: rest).length (by simp)
  have hfirst : (Text.paddedDigits 4 year.natAbs ++ '-' :: rest).head?.map isDigit = some true := by
    rw [hcons]
    exact congrArg some hc
  rw [toList_yearText, List.append_assoc]
  unfold yearSign
  split_ifs with hneg hlarge
  · rw [List.singleton_append, year?, trimStart_cons rfl]
    simp only [if_pos hfirst, hlong]
    show some (-(year.natAbs : ℤ), _) = _
    rw [show -(year.natAbs : ℤ) = year by omega]
  · rw [List.singleton_append, year?, trimStart_cons rfl]
    simp only [if_pos hfirst, hlong]
    show some ((year.natAbs : ℤ), _) = _
    rw [show (year.natAbs : ℤ) = year by omega]
  · have hfour : (Text.paddedDigits 4 year.natAbs).length = 4 :=
      Text.length_padded (by decide) (by omega)
    have hshort := hread 4 hfour.le
    rw [List.nil_append, year?]
    rw [hcons] at hshort ⊢
    rw [List.cons_append, trimStart_cons (isBlank_of_isDigit hc)]
    split
    · next heq =>
      cases heq
      cases hc
    · next heq =>
      cases heq
      cases hc
    · rw [← List.cons_append, hshort]
      show some ((year.natAbs : ℤ), _) = _
      rw [show (year.natAbs : ℤ) = year by omega]

theorem fraction?_fractionText {n : ℕ} (h : n < 1000000000) :
    fraction? ((fractionText n).toList ++ ['Z']) = some (n, ['Z']) := by
  rcases Nat.eq_zero_or_pos n with rfl | hpos
  · rfl
  have hread {width k : ℕ} (hwidth : 0 < width) (hnine : width ≤ 9) (hk : k < 10 ^ width) :
      fraction? ('.' :: (Text.paddedDigits width k ++ ['Z'])) =
        some (k * Nat.pow 10 (9 - width), ['Z']) := by
    have hdigits : ∀ c ∈ Text.paddedDigits width k, isDigit c = true :=
      Text.allDigits_padded width k
    have hlength := Text.length_padded hwidth hk
    have htake :
        (Text.paddedDigits width k ++ ['Z']).takeWhile isDigit = Text.paddedDigits width k := by
      rw [List.takeWhile_append_of_pos hdigits]
      exact List.append_nil _
    have hdrop : (Text.paddedDigits width k ++ ['Z']).dropWhile isDigit = ['Z'] :=
      List.dropWhile_append_of_pos hdigits
    have hkept : (Text.paddedDigits width k).take 9 = Text.paddedDigits width k :=
      List.take_of_length_le (by omega)
    unfold fraction?
    simp only [htake, hdrop, hkept, hlength, numberOf_padded]
    exact if_neg (List.ne_nil_of_length_pos (by omega))
  rw [toList_fractionText (by omega), List.cons_append]
  unfold fractionDigits
  split_ifs with hmillis hmicros
  · rw [hread (by decide) (by decide) (by omega)]
    show some (n / 1000000 * 1000000, _) = _
    rw [Nat.div_mul_cancel (Nat.dvd_of_mod_eq_zero hmillis)]
  · rw [hread (by decide) (by decide) (by omega)]
    show some (n / 1000 * 1000, _) = _
    rw [Nat.div_mul_cancel (Nat.dvd_of_mod_eq_zero hmicros)]
  · rw [hread (by decide) (by decide) (by omega)]
    exact congrArg (fun k => some (k, ['Z'])) (Nat.mul_one n)

/-! ## The text -/

/-- A point in time whose year the calendar has. -/
def HasYear (t : Timestamp) : Prop :=
  -262143 ≤ (dateFromDays (t.seconds / 86400)).1 ∧ (dateFromDays (t.seconds / 86400)).1 ≤ 262142

theorem daysInMonth_le (year : ℤ) (month : ℕ) : daysInMonth year month ≤ 31 := by
  unfold daysInMonth
  split_ifs <;> omega

/-- Such a point in time is read back from its text. -/
theorem parse?_text {t : Timestamp} (h : t.Valid) (hyear : t.HasYear) :
    parse? t.text = some t := by
  have hleap := h.leap
  have hlt := h.nanoseconds_lt
  obtain ⟨hyear0, hyear1⟩ := hyear
  obtain ⟨hmonth0, hmonth12, hday0, hdayLast⟩ := date_bounds (t.seconds / 86400)
  have hdays := daysFromDate_dateFromDays (t.seconds / 86400)
  have hmonthDays := daysInMonth_le (dateFromDays (t.seconds / 86400)).1
    (dateFromDays (t.seconds / 86400)).2.1
  have hhour : (t.seconds % 86400).toNat / 3600 < 24 := by omega
  have hminute : (t.seconds % 86400).toNat / 60 % 60 < 60 := by omega
  have hsecond : t.shownSecond ≤ 60 := by
    unfold shownSecond
    split_ifs <;> omega
  have hfraction : t.shownFraction < 1000000000 := by
    unfold shownFraction
    split_ifs <;> omega
  unfold parse?
  rw [toList_text, toList_padded, List.append_assoc]
  -- the parts are read one after the other
  refine Option.bind_eq_some_iff.mpr ⟨_, year?_yearText _ _, ?_⟩
  refine Option.bind_eq_some_iff.mpr ⟨_, mark?_cons rfl _, ?_⟩
  refine Option.bind_eq_some_iff.mpr ⟨_, number?_two (by omega) _, ?_⟩
  refine Option.bind_eq_some_iff.mpr ⟨_, mark?_cons rfl _, ?_⟩
  refine Option.bind_eq_some_iff.mpr ⟨_, number?_two (by omega) _, ?_⟩
  refine Option.bind_eq_some_iff.mpr ⟨_, rfl, ?_⟩
  refine Option.bind_eq_some_iff.mpr ⟨_, number?_two (by omega) _, ?_⟩
  refine Option.bind_eq_some_iff.mpr ⟨_, mark?_cons rfl _, ?_⟩
  refine Option.bind_eq_some_iff.mpr ⟨_, number?_two (by omega) _, ?_⟩
  refine Option.bind_eq_some_iff.mpr ⟨_, mark?_cons rfl _, ?_⟩
  refine Option.bind_eq_some_iff.mpr ⟨_, number?_two (by omega) _, ?_⟩
  refine Option.bind_eq_some_iff.mpr ⟨_, fraction?_fractionText hfraction, ?_⟩
  refine Option.bind_eq_some_iff.mpr ⟨(0, []), rfl, ?_⟩
  -- and pass every check
  refine (if_neg (fun h => h rfl)).trans ?_
  refine (if_neg (by simp [hmonth0, hmonth12, hday0, hdayLast])).trans ?_
  refine (if_neg (by simp [hhour, hminute, hsecond])).trans ?_
  refine (if_neg (by simp [hyear0, hyear1])).trans ?_
  refine congrArg some ?_
  rw [hdays]
  obtain ⟨seconds, nanoseconds⟩ := t
  unfold shownSecond shownFraction
  simp only at hleap hlt ⊢
  refine (Timestamp.mk.injEq ..).mpr ⟨?_, ?_⟩
  · split_ifs <;> omega
  · split_ifs <;> omega

end Agents.Timestamp
