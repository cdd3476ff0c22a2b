import Agents.Json.Printer
import Agents.Proofs.Decimal.Shortest

/-! # The text of a number

The text of a double spells its shortest decimal, whether it is laid out with or without an exponent
(`spelled_text`), so two doubles with one text are the same (`float_text_injective`). The text of an
integer has neither a point nor an exponent, and the text of a double has one of them.
-/

namespace Agents.Json

open Decimal Text

/-! ## Reading -/

def exponentOf : List Char → ℤ
  | '-' :: digits => -(Nat.ofDigitChars 10 digits 0 : ℤ)
  | '+' :: digits => Nat.ofDigitChars 10 digits 0
  | _ => 0

def spelled (s : List Char) : ℚ :=
  let mantissa := s.takeWhile (· ≠ 'e')
  let whole := mantissa.takeWhile (· ≠ '.')
  let fraction := (mantissa.dropWhile (· ≠ '.')).tail
  Nat.ofDigitChars 10 (whole ++ fraction) 0 *
    10 ^ (exponentOf (s.dropWhile (· ≠ 'e')).tail - fraction.length)

section Reading

variable {whole fraction : List Char}

theorem spelled_point (hwhole : AllDigits whole) (hfraction : AllDigits fraction) :
    spelled (whole ++ '.' :: fraction) =
      Nat.ofDigitChars 10 (whole ++ fraction) 0 * 10 ^ (-(fraction.length : ℤ)) := by
  have hno : 'e' ∉ whole ++ '.' :: fraction := by
    simp [hwhole.not_mem, hfraction.not_mem]
  simp only [spelled, takeWhile_no_mark hno, dropWhile_no_mark hno,
    takeWhile_mark (hwhole.not_mem (c := '.') rfl), dropWhile_mark (hwhole.not_mem (c := '.') rfl),
    List.tail_cons, List.tail_nil, exponentOf, Int.zero_sub]

theorem spelled_exponent (hwhole : AllDigits whole) (exponent : List Char) :
    spelled (whole ++ 'e' :: exponent) =
      Nat.ofDigitChars 10 whole 0 * 10 ^ exponentOf exponent := by
  simp only [spelled, takeWhile_mark (hwhole.not_mem (c := 'e') rfl),
    dropWhile_mark (hwhole.not_mem (c := 'e') rfl), takeWhile_no_mark (hwhole.not_mem (c := '.') rfl),
    dropWhile_no_mark (hwhole.not_mem (c := '.') rfl), List.tail_cons, List.tail_nil,
    List.append_nil, List.length_nil, Nat.cast_zero, Int.sub_zero]

theorem spelled_point_exponent (hwhole : AllDigits whole) (hfraction : AllDigits fraction)
    (exponent : List Char) : spelled (whole ++ '.' :: fraction ++ 'e' :: exponent) =
      Nat.ofDigitChars 10 (whole ++ fraction) 0 *
        10 ^ (exponentOf exponent - (fraction.length : ℤ)) := by
  have hno : 'e' ∉ whole ++ '.' :: fraction := by
    simp [hwhole.not_mem, hfraction.not_mem]
  simp only [spelled, takeWhile_mark hno, dropWhile_mark hno,
    takeWhile_mark (hwhole.not_mem (c := '.') rfl), dropWhile_mark (hwhole.not_mem (c := '.') rfl),
    List.tail_cons]

end Reading

/-! ## Layouts -/

theorem spelled_positional (s : Scaled) : spelled (positional floatLayout s) = s.value := by
  unfold positional Scaled.value
  split
  · next e he =>
    have hzero : AllDigits ['0'] := allDigits_toDigits 0
    show spelled (Nat.toDigits 10 (s.digits * Nat.pow 10 e) ++ '.' :: ['0']) = _
    rw [spelled_point (allDigits_toDigits _) hzero, he, Nat.ofDigitChars_append,
      Nat.ofDigitChars_ten_toDigits, Nat.ofDigitChars_cons, Nat.ofDigitChars_nil]
    simp
    ring
  · next e he =>
    have hdigits := allDigits_padded (e + 2) s.digits
    have hlength : e + 2 ≤ (paddedDigits (e + 2) s.digits).length := le_length_padded _ _
    have hpadded : padded (e + 2) s.digits = paddedDigits (e + 2) s.digits := rfl
    dsimp only
    rw [hpadded, spelled_point (fun c hc => hdigits c (List.mem_of_mem_take hc))
      (fun c hc => hdigits c (List.mem_of_mem_drop hc)), List.take_append_drop,
      ofDigitChars_padded, he, List.length_drop,
      show (paddedDigits (e + 2) s.digits).length -
        ((paddedDigits (e + 2) s.digits).length - (e + 1)) = e + 1 by omega]
    rfl

def exponentText : ℤ → List Char
  | .ofNat e => floatLayout.plus.toList ++ Nat.toDigits 10 e
  | .negSucc e => '-' :: Nat.toDigits 10 (e + 1)

theorem exponentOf_exponentText (e : ℤ) : exponentOf (exponentText e) = e := by
  cases e with
  | ofNat e => exact congrArg Nat.cast Nat.ofDigitChars_ten_toDigits
  | negSucc e => exact congrArg (fun n : ℕ => -(n : ℤ)) Nat.ofDigitChars_ten_toDigits

/-- The digits of a mantissa, with a point after the first one if there are more. -/
def mantissaText : List Char → List Char
  | [] => []
  | [d] => [d]
  | d :: e :: rest => d :: '.' :: e :: rest

theorem scientific_eq (s : Scaled) : scientific floatLayout s =
    mantissaText (Nat.toDigits 10 s.digits) ++
      'e' :: exponentText (s.exponent + ((Nat.toDigits 10 s.digits).length - 1 : ℕ)) := by
  unfold scientific
  dsimp only
  congr 1
  · match Nat.toDigits 10 s.digits with
    | [] | [_] | _ :: _ :: _ => rfl
  · generalize s.exponent + ((Nat.toDigits 10 s.digits).length - 1 : ℕ) = e
    cases e <;> rfl

theorem spelled_scientific (s : Scaled) : spelled (scientific floatLayout s) = s.value := by
  have hdigits := allDigits_toDigits s.digits
  have hread : Nat.ofDigitChars 10 (Nat.toDigits 10 s.digits) 0 = s.digits :=
    Nat.ofDigitChars_ten_toDigits
  rw [scientific_eq, Scaled.value]
  obtain ⟨d, tail, hd⟩ := List.exists_cons_of_ne_nil (Nat.toDigits_ne_nil (b := 10) (n := s.digits))
  rw [hd] at hdigits hread ⊢
  cases tail with
  | nil =>
    rw [mantissaText, spelled_exponent hdigits, exponentOf_exponentText, hread]
    simp
  | cons e rest =>
    have hfirst : AllDigits [d] := fun c hc => hdigits c (by simp_all)
    have hrest : AllDigits (e :: rest) := fun c hc => hdigits c (List.mem_cons_of_mem d hc)
    show spelled ([d] ++ '.' :: (e :: rest) ++ 'e' :: _) = _
    rw [spelled_point_exponent hfirst hrest, exponentOf_exponentText, List.singleton_append, hread]
    simp

/-! ## Doubles -/

def unsignedText (x : Float) : List Char :=
  let s := shortest x
  if s.digits = 0 then floatLayout.zero.toList
  else
    let leading := s.exponent + (digitCount s.digits - 1 : ℕ)
    if floatLayout.least ≤ leading ∧ leading < floatLayout.limit then positional floatLayout s
    else scientific floatLayout s

theorem toList_text (x : Float) : (floatLayout.text x).toList =
    if isNegative x then '-' :: unsignedText x else unsignedText x := by
  unfold Layout.text unsignedText
  dsimp only
  split
  · cases h : isNegative x <;> simp [floatLayout]
  · rw [String.toList_ofList]

theorem spelled_unsignedText (x : Float) : spelled (unsignedText x) = (shortest x).value := by
  unfold unsignedText
  dsimp only
  split
  · next hzero =>
    have hdigit : AllDigits ['0'] := allDigits_toDigits 0
    show spelled (['0'] ++ '.' :: ['0']) = _
    rw [spelled_point hdigit hdigit, Scaled.value, hzero]
    simp [Nat.ofDigitChars_cons]
  · split
    · exact spelled_positional _
    · exact spelled_scientific _

theorem head_positional (s : Scaled) :
    ∃ c rest, positional floatLayout s = c :: rest ∧ c.isDigit = true := by
  unfold positional
  split
  · next e _ =>
    obtain ⟨c, rest, hdigits⟩ := List.exists_cons_of_ne_nil
      (Nat.toDigits_ne_nil (n := s.digits * Nat.pow 10 e) (b := 10))
    refine ⟨c, _, by rw [hdigits]; rfl, ?_⟩
    exact allDigits_toDigits _ c (hdigits ▸ List.mem_cons_self)
  · next e _ =>
    have hlength := le_length_padded (e + 2) s.digits
    have hpadded : padded (e + 2) s.digits = paddedDigits (e + 2) s.digits := rfl
    have hdigits := allDigits_padded (e + 2) s.digits
    dsimp only
    rw [hpadded]
    match hd : paddedDigits (e + 2) s.digits with
    | [] =>
      rw [hd] at hlength
      cases hlength
    | c :: rest =>
      rw [hd] at hdigits hlength
      obtain ⟨n, hn⟩ : ∃ n, (c :: rest).length - (e + 1) = n + 1 :=
        Nat.exists_eq_succ_of_ne_zero (by omega)
      rw [hn, List.take_succ_cons]
      exact ⟨c, _, rfl, hdigits c List.mem_cons_self⟩

theorem head_scientific (s : Scaled) :
    ∃ c rest, scientific floatLayout s = c :: rest ∧ c.isDigit = true := by
  have hdigits := allDigits_toDigits s.digits
  rw [scientific_eq]
  match hd : Nat.toDigits 10 s.digits with
  | [] => exact absurd hd Nat.toDigits_ne_nil
  | [c] => exact ⟨c, _, rfl, hdigits c (by simp [hd])⟩
  | c :: _ :: _ => exact ⟨c, _, rfl, hdigits c (by simp [hd])⟩

theorem head_unsignedText (x : Float) :
    ∃ c rest, unsignedText x = c :: rest ∧ c.isDigit = true := by
  unfold unsignedText
  dsimp only
  split
  · exact ⟨'0', _, rfl, rfl⟩
  · split
    · exact head_positional _
    · exact head_scientific _

theorem model_ext {a b : Float.Model} (h : a.toBits = b.toBits) : a = b := by
  cases a
  cases b
  cases h
  rfl

theorem magnitude_injective {x y : Float} (h : magnitude x = magnitude y)
    (hsign : isNegative x = isNegative y) : x = y := by
  have hbits : x.toBits.toNat = y.toBits.toNat := by
    have hx := x.toBits.toNat_lt
    have hy := y.toBits.toNat_lt
    simp only [isNegative, decide_eq_decide, show Word.size 63 = 2 ^ 63 from rfl] at hsign
    simp only [magnitude, show Word.size 63 = 2 ^ 63 from rfl, size_52] at h
    split at h <;> split at h <;> simp only [Binary.mk.injEq] at h <;> omega
  have hmodel : x.toModel = y.toModel := model_ext (UInt64.toNat_inj.mp hbits)
  cases x
  cases y
  exact congrArg Float.ofModel hmodel

theorem exponent_of_mantissa_eq_zero {x : Float} (h : (magnitude x).mantissa = 0) :
    magnitude x = ⟨0, -1074⟩ := by
  have hnormal := (valid_magnitude x).normal
  rw [h] at hnormal
  have hexponent : (magnitude x).exponent = -1074 := by omega
  calc magnitude x = ⟨(magnitude x).mantissa, (magnitude x).exponent⟩ := rfl
    _ = ⟨0, -1074⟩ := by rw [h, hexponent]

theorem value_shortest_of_zero {x : Float} (h : (magnitude x).mantissa = 0) :
    (shortest x).value = 0 := by
  simp [shortest, h, Scaled.value]

theorem magnitude_eq_of_value_eq {x y : Float} (h : (shortest x).value = (shortest y).value) :
    magnitude x = magnitude y := by
  by_cases hx : (magnitude x).mantissa = 0
  · by_cases hy : (magnitude y).mantissa = 0
    · rw [exponent_of_mantissa_eq_zero hx, exponent_of_mantissa_eq_zero hy]
    · have hpos := pos_of_rounds hy (rounds_shortest hy)
      rw [← h, value_shortest_of_zero hx] at hpos
      exact absurd hpos (lt_irrefl 0)
  · by_cases hy : (magnitude y).mantissa = 0
    · have hpos := pos_of_rounds hx (rounds_shortest hx)
      rw [h, value_shortest_of_zero hy] at hpos
      exact absurd hpos (lt_irrefl 0)
    · exact eq_of_rounds (valid_magnitude x) (valid_magnitude y) (rounds_shortest hx)
        (h ▸ rounds_shortest hy)

theorem float_text_injective {x y : Float} (h : floatLayout.text x = floatLayout.text y) :
    x = y := by
  have hchars := congrArg String.toList h
  rw [toList_text, toList_text] at hchars
  obtain ⟨c, rest, hx, hc⟩ := head_unsignedText x
  obtain ⟨d, rest', hy, hd⟩ := head_unsignedText y
  have hsame : isNegative x = isNegative y ∧ unsignedText x = unsignedText y := by
    cases hneg : isNegative x <;> cases hneg' : isNegative y
    · simpa [hneg, hneg'] using hchars
    · simp only [hneg, hneg', hx, Bool.false_eq_true, if_false, if_true, List.cons.injEq] at hchars
      rw [hchars.1] at hc
      cases hc
    · simp only [hneg, hneg', hy, Bool.false_eq_true, if_false, if_true, List.cons.injEq] at hchars
      rw [← hchars.1] at hd
      cases hd
    · simpa [hneg, hneg'] using hchars
  refine magnitude_injective (magnitude_eq_of_value_eq ?_) hsame.1
  rw [← spelled_unsignedText, ← spelled_unsignedText, hsame.2]

/-! ## Characters -/

def isNumberChar (c : Char) : Bool := c.isDigit || c = '-' || c = '+' || c = '.' || c = 'e'

def AllNumber (s : List Char) : Prop := ∀ c ∈ s, isNumberChar c = true

theorem AllNumber.append {s t : List Char} (hs : AllNumber s) (ht : AllNumber t) :
    AllNumber (s ++ t) := fun c hc => (List.mem_append.mp hc).elim (hs c) (ht c)

theorem AllNumber.cons {c : Char} {s : List Char} (hc : isNumberChar c = true) (hs : AllNumber s) :
    AllNumber (c :: s) := fun d hd => (List.mem_cons.mp hd).elim (fun h => h ▸ hc) (hs d)

theorem allNumber_of_digits {s : List Char} (h : AllDigits s) : AllNumber s := by
  intro c hc
  simp [isNumberChar, h c hc]

theorem allNumber_positional (s : Scaled) : AllNumber (positional floatLayout s) := by
  unfold positional
  split
  · have hpoint : AllNumber ['.', '0'] := .cons rfl (.cons rfl nofun)
    exact (allNumber_of_digits (allDigits_toDigits _)).append hpoint
  · next e _ =>
    have hdigits : AllNumber (padded (e + 2) s.digits) := allNumber_of_digits (allDigits_padded _ _)
    exact AllNumber.append (fun c hc => hdigits c (List.mem_of_mem_take hc))
      (.cons rfl fun c hc => hdigits c (List.mem_of_mem_drop hc))

theorem allNumber_mantissaText {digits : List Char} (h : AllNumber digits) :
    AllNumber (mantissaText digits) := by
  match digits with
  | [] | [_] => exact h
  | c :: d :: rest =>
    refine .cons (h c List.mem_cons_self) (.cons rfl fun e he => ?_)
    exact h e (List.mem_cons_of_mem c he)

theorem allNumber_scientific (s : Scaled) : AllNumber (scientific floatLayout s) := by
  rw [scientific_eq]
  refine AllNumber.append ?_ (.cons rfl ?_)
  · exact allNumber_mantissaText (allNumber_of_digits (allDigits_toDigits s.digits))
  · cases s.exponent + ((Nat.toDigits 10 s.digits).length - 1 : ℕ) with
    | ofNat e => exact .cons rfl (allNumber_of_digits (allDigits_toDigits _))
    | negSucc e => exact .cons rfl (allNumber_of_digits (allDigits_toDigits _))

theorem allNumber_float (x : Float) : AllNumber (floatLayout.text x).toList := by
  have hunsigned : AllNumber (unsignedText x) := by
    unfold unsignedText
    dsimp only
    split
    · exact .cons rfl (.cons rfl (.cons rfl nofun))
    · split
      · exact allNumber_positional _
      · exact allNumber_scientific _
  rw [toList_text]
  split
  · exact .cons rfl hunsigned
  · exact hunsigned

theorem mark_mem_float (x : Float) :
    '.' ∈ (floatLayout.text x).toList ∨ 'e' ∈ (floatLayout.text x).toList := by
  have hunsigned : '.' ∈ unsignedText x ∨ 'e' ∈ unsignedText x := by
    unfold unsignedText
    dsimp only
    split
    · exact .inl (by decide)
    · split
      · left
        unfold positional
        split
        · exact List.mem_append_right _ List.mem_cons_self
        · exact List.mem_append_right _ List.mem_cons_self
      · right
        rw [scientific_eq]
        exact List.mem_append_right _ List.mem_cons_self
  rw [toList_text]
  split
  · exact hunsigned.imp (List.mem_cons_of_mem _) (List.mem_cons_of_mem _)
  · exact hunsigned

/-! ## Integers -/

theorem toList_int (n : ℤ) : (toString n).toList =
    if n < 0 then '-' :: Nat.toDigits 10 n.natAbs else Nat.toDigits 10 n.natAbs := by
  rw [Int.toString_eq_repr, Int.repr_eq_if]
  split
  · next hpos =>
    rw [if_neg (by omega), Nat.toList_repr, show n.toNat = n.natAbs by omega]
  · next hneg =>
    rw [if_pos (by omega), String.toList_append, Nat.toList_repr,
      show (-n).toNat = n.natAbs by omega]
    rfl

theorem int_text_injective {m n : ℤ} (h : toString m = toString n) : m = n := by
  have hchars := congrArg String.toList h
  rw [toList_int, toList_int] at hchars
  have hminus (k l : ℕ) : '-' :: Nat.toDigits 10 k ≠ Nat.toDigits 10 l := by
    intro heq
    have hdigit := allDigits_toDigits l '-' (heq ▸ List.mem_cons_self)
    cases hdigit
  split at hchars <;> split at hchars
  · have := toDigits_injective (List.cons.inj hchars).2
    omega
  · exact absurd hchars (hminus _ _)
  · exact absurd hchars.symm (hminus _ _)
  · have := toDigits_injective hchars
    omega

theorem not_mem_int (n : ℤ) : '.' ∉ (toString n).toList ∧ 'e' ∉ (toString n).toList := by
  have hdigits := allDigits_toDigits n.natAbs
  rw [toList_int]
  split
  · simp [hdigits.not_mem]
  · simp [hdigits.not_mem]

/-! ## Numbers -/

theorem allNumber_text (n : Number) : AllNumber n.text.toList := by
  cases n with
  | int n =>
    have hdigits := allNumber_of_digits (allDigits_toDigits n.natAbs)
    show AllNumber (toString n).toList
    rw [toList_int]
    split
    · exact .cons rfl hdigits
    · exact hdigits
  | float x => exact allNumber_float x

theorem head_text (n : Number) :
    ∃ c rest, n.text.toList = c :: rest ∧ (c.isDigit = true ∨ c = '-') := by
  cases n with
  | int n =>
    have hdigits := allDigits_toDigits n.natAbs
    obtain ⟨c, rest, hc⟩ := List.exists_cons_of_ne_nil
      (Nat.toDigits_ne_nil : Nat.toDigits 10 n.natAbs ≠ [])
    show ∃ c rest, (toString n).toList = c :: rest ∧ _
    rw [toList_int]
    split
    · exact ⟨'-', _, rfl, .inr rfl⟩
    · exact ⟨c, rest, hc, .inl (hdigits c (hc ▸ List.mem_cons_self))⟩
  | float x =>
    obtain ⟨c, rest, hc, hdigit⟩ := head_unsignedText x
    show ∃ c rest, (floatLayout.text x).toList = c :: rest ∧ _
    rw [toList_text]
    split
    · exact ⟨'-', _, rfl, .inr rfl⟩
    · exact ⟨c, rest, hc, .inl hdigit⟩

theorem number_text_injective {m n : Number} (h : m.text = n.text) : m = n := by
  have hdiffer (n : ℤ) (x : Float) : toString n ≠ floatLayout.text x := by
    intro heq
    obtain ⟨hpoint, hexponent⟩ := not_mem_int n
    rw [heq] at hpoint hexponent
    exact (mark_mem_float x).elim hpoint hexponent
  match m, n with
  | .int m, .int n => exact congrArg Number.int (int_text_injective h)
  | .int n, .float x => exact absurd h (hdiffer n x)
  | .float x, .int n => exact absurd h.symm (hdiffer n x)
  | .float x, .float y => exact congrArg Number.float (float_text_injective h)

end Agents.Json
