import Agents.Proofs.Json.Tree

/-! # Tokens that break off

A beginning of a number is a number itself when it ends in a digit, unless it is out of range
(`number_begun`). A beginning of a string ends between two characters, after a backslash, or inside
of a `\u` escape (`string_begun`).
-/

namespace Agents.Json

/-! ## How numbers are spelled -/

def Digits (ds : List Char) : Prop := ds ≠ [] ∧ ∀ c ∈ ds, isDigit c = true

inductive IsExponent : List Char → Prop where
  | absent : IsExponent []
  | present {mark : Char} {sign ds : List Char} (hmark : mark = 'e' ∨ mark = 'E')
      (hsign : sign = [] ∨ sign = ['+'] ∨ sign = ['-']) (hds : Digits ds) :
      IsExponent (mark :: (sign ++ ds))

inductive IsFraction : List Char → Prop where
  | absent {t : List Char} (h : IsExponent t) : IsFraction t
  | present {ds t : List Char} (hds : Digits ds) (h : IsExponent t) : IsFraction ('.' :: (ds ++ t))

/-- What JSON calls a number, of whatever size. -/
inductive IsNumeral : List Char → Prop where
  | mk {sign ds t : List Char} (hsign : sign = [] ∨ sign = ['-']) (hds : Digits ds)
      (hzero : ds.head? = some '0' → ds = ['0']) (h : IsFraction t) : IsNumeral (sign ++ (ds ++ t))

/-! ### What is read is spelled so -/

theorem onMark_eq_ok {c : Char} {present missing : List Char → Read Number} {s : List Char}
    {result : Number × List Char} (h : onMark c present missing s = .ok result) :
    (∃ s', s = c :: s' ∧ present s' = .ok result) ∨ missing s = .ok result := by
  cases s with
  | nil => exact .inr h
  | cons d s =>
    rw [onMark] at h
    split_ifs at h with hd
    · exact .inl ⟨s, by rw [hd], h⟩
    · exact .inr h

theorem digits_of_unsignedExponent {negative down : Bool} {significand : Nat} {start : Int}
    {s : List Char} {x : Number}
    (h : unsignedExponent negative significand start down s = .ok (x, [])) : Digits s := by
  cases s with
  | nil => cases h
  | cons c s =>
  cases hc : isDigit c with
  | false =>
    simp only [unsignedExponent, hc, Bool.false_eq_true, if_false] at h
    cases h
  | true =>
  refine ⟨List.cons_ne_nil c s, List.forall_mem_cons.mpr ⟨hc, ?_⟩⟩
  obtain ⟨ds, hds, hs, -⟩ := exponentDigits_spec (digitValue c) s
  simp only [unsignedExponent, if_pos hc] at h
  generalize exponentDigits (digitValue c) s = digits at h hs
  obtain ⟨value, left⟩ := digits
  have hleft : ∀ c ∈ left, isDigit c = true := by
    cases value with
    | some e =>
      obtain ⟨rfl, -⟩ := finishFloat_eq_ok h
      simp
    | none =>
      simp only at h
      split_ifs at h
      · cases h
      · exact List.dropWhile_eq_nil_iff.mp (congrArg Prod.snd (Except.ok.inj h))
  exact hs ▸ List.forall_mem_append.mpr ⟨hds, hleft⟩

theorem isExponent_of_exponentPart {negative : Bool} {significand : Nat} {start : Int}
    {s : List Char} {x : Number} {mark : Char} (hmark : mark = 'e' ∨ mark = 'E')
    (h : exponentPart negative significand start s = .ok (x, [])) : IsExponent (mark :: s) := by
  rw [exponentPart_eq] at h
  rcases onMark_eq_ok h with ⟨s, rfl, h⟩ | h
  · exact @IsExponent.present mark ['+'] s hmark (.inr (.inl rfl)) (digits_of_unsignedExponent h)
  rcases onMark_eq_ok h with ⟨s, rfl, h⟩ | h
  · exact @IsExponent.present mark ['-'] s hmark (.inr (.inr rfl)) (digits_of_unsignedExponent h)
  · exact @IsExponent.present mark [] s hmark (.inl rfl) (digits_of_unsignedExponent h)

theorem isExponent_of_exponentOr {negative : Bool} {significand : Nat} {exponent : Int}
    {missing : List Char → Read Number} {s : List Char} {x : Number}
    (hmissing : missing s = .ok (x, []) → s = [])
    (h : exponentOr negative significand exponent missing s = .ok (x, [])) : IsExponent s := by
  rcases onMark_eq_ok h with ⟨s, rfl, h⟩ | h
  · exact isExponent_of_exponentPart (.inl rfl) h
  rcases onMark_eq_ok h with ⟨s, rfl, h⟩ | h
  · exact isExponent_of_exponentPart (.inr rfl) h
  · exact hmissing h ▸ .absent

theorem eq_nil_of_finishFloat {negative : Bool} {significand : Nat} {exponent : Int}
    {s : List Char} {x : Number} (h : finishFloat negative significand exponent s = .ok (x, [])) :
    s = [] := (finishFloat_eq_ok h).1.symm

theorem isFraction_of_fractionPart {negative : Bool} {significand : Nat} {before : Int}
    {s : List Char} {x : Number} (h : fractionPart negative significand before s = .ok (x, [])) :
    IsFraction ('.' :: s) := by
  simp only [fractionPart_eq] at h
  have hsplit : s = s.takeWhile isDigit ++ s.dropWhile isDigit :=
    List.takeWhile_append_dropWhile.symm
  have hdigits : ∀ c ∈ s.takeWhile isDigit, isDigit c = true := fun c => List.mem_takeWhile_imp
  generalize s.takeWhile isDigit = ds at h hsplit hdigits
  generalize s.dropWhile isDigit = rest at h hsplit
  obtain rfl := hsplit
  generalize htaken : takeDigits significand ds = taken at h
  obtain ⟨significand', count, dropped⟩ := taken
  rw [afterFraction] at h
  split_ifs at h with hnone hrest
  · cases h
  · cases h
  · refine .present ⟨?_, hdigits⟩ (isExponent_of_exponentOr eq_nil_of_finishFloat h)
    rintro rfl
    cases htaken
    exact hnone ⟨rfl, rfl⟩

theorem isFraction_of_afterDigits {negative : Bool} {taken : Nat × Nat × List Char} {s : List Char}
    {x : Number} (h : afterDigits negative taken s = .ok (x, [])) : IsFraction s := by
  obtain ⟨significand, count, dropped⟩ := taken
  rcases onMark_eq_ok h with ⟨s, rfl, h⟩ | h
  · exact isFraction_of_fractionPart h
  refine .absent (isExponent_of_exponentOr (fun h => ?_) h)
  split_ifs at h
  · exact eq_nil_of_finishFloat h
  all_goals exact congrArg Prod.snd (Except.ok.inj h)

theorem isNumeral_of_unsignedNumber {negative : Bool} {s : List Char} {x : Number}
    (sign : List Char) (hsign : sign = [] ∨ sign = ['-'])
    (h : unsignedNumber negative s = .ok (x, [])) : IsNumeral (sign ++ s) := by
  cases s with
  | nil => cases h
  | cons c s =>
  cases hc : isDigit c with
  | false =>
    rw [unsignedNumber, hc, if_pos (by simp)] at h
    cases h
  | true =>
  by_cases hzero : c = '0' ∧ s.head?.any isDigit = true
  · rw [unsignedNumber, hc, if_neg (by simp), if_pos hzero] at h
    cases h
  rw [unsignedNumber_cons negative hc hzero] at h
  have hdigits : ∀ d ∈ s.takeWhile isDigit, isDigit d = true := fun d => List.mem_takeWhile_imp
  have hnumeral : IsNumeral (sign ++ ((c :: s.takeWhile isDigit) ++ s.dropWhile isDigit)) := by
    refine .mk hsign ⟨List.cons_ne_nil _ _, List.forall_mem_cons.mpr ⟨hc, hdigits⟩⟩
      (fun hhead => ?_) (isFraction_of_afterDigits h)
    obtain rfl : c = '0' := Option.some.inj hhead
    cases s with
    | nil => rfl
    | cons d s =>
      have hd : isDigit d = false := by simpa using hzero
      rw [List.takeWhile_cons_of_neg (by simp [hd])]
  rwa [List.cons_append, List.takeWhile_append_dropWhile] at hnumeral

theorem isNumeral_of_number {s : List Char} {x : Number} (h : number s = .ok (x, [])) :
    IsNumeral s := by
  rw [number_eq] at h
  rcases onMark_eq_ok h with ⟨s, rfl, h⟩ | h
  · exact isNumeral_of_unsignedNumber ['-'] (.inr rfl) h
  · exact isNumeral_of_unsignedNumber [] (.inl rfl) h

/-! ### What is spelled so is read -/

/-- A number that is read to its end, or is out of range. -/
def Sized (read : Read Number) : Prop :=
  (∃ x, read = .ok (x, [])) ∨ ∃ unread, read = .error ⟨.numberOutOfRange, unread⟩

theorem sized_finishFloat (negative : Bool) (significand : Nat) (exponent : Int) :
    Sized (finishFloat negative significand exponent []) := by
  rw [finishFloat]
  cases scaleByPowerOfTen significand exponent with
  | none => exact .inr ⟨_, rfl⟩
  | some x => exact .inl ⟨_, rfl⟩

theorem ne_of_isDigit {c d : Char} (hc : isDigit c = true) (hd : isDigit d = false) : c ≠ d := by
  rintro rfl
  rw [hc] at hd
  cases hd

/-- The digits of an exponent are all read, unless it is beyond reach. -/
theorem exponentDigits_digits (value : Nat) {ds : List Char} (hds : ∀ c ∈ ds, isDigit c = true) :
    (∃ e, exponentDigits value ds = (some e, [])) ∨
      ∃ left, exponentDigits value ds = (none, left) ∧ ∀ c ∈ left, isDigit c = true := by
  induction ds generalizing value with
  | nil => exact .inl ⟨value, rfl⟩
  | cons c ds ih =>
    obtain ⟨hc, hds⟩ := List.forall_mem_cons.mp hds
    simp only [exponentDigits, if_pos hc]
    split_ifs
    · exact ih _ hds
    · exact .inr ⟨ds, rfl, hds⟩

theorem sized_unsignedExponent (negative down : Bool) (significand : Nat) (start : Int)
    {ds : List Char} (hds : Digits ds) :
    Sized (unsignedExponent negative significand start down ds) := by
  obtain ⟨hne, hall⟩ := hds
  cases ds with
  | nil => exact absurd rfl hne
  | cons c ds =>
  obtain ⟨hc, hds⟩ := List.forall_mem_cons.mp hall
  simp only [unsignedExponent, if_pos hc]
  rcases exponentDigits_digits (digitValue c) hds with ⟨e, he⟩ | ⟨left, hnone, hleft⟩
  · rw [he]
    exact sized_finishFloat _ _ _
  · simp only [hnone, List.dropWhile_eq_nil_iff.mpr hleft]
    split_ifs
    · exact .inr ⟨_, rfl⟩
    · exact .inl ⟨_, rfl⟩

theorem sized_exponentPart (negative : Bool) (significand : Nat) (start : Int)
    {sign ds : List Char} (hsign : sign = [] ∨ sign = ['+'] ∨ sign = ['-']) (hds : Digits ds) :
    Sized (exponentPart negative significand start (sign ++ ds)) := by
  rw [exponentPart_eq]
  rcases hsign with rfl | rfl | rfl
  · obtain ⟨hne, hall⟩ := hds
    have hplus : ∀ c ∈ ds.head?, c ≠ '+' := fun c hc =>
      ne_of_isDigit (hall c (List.mem_of_mem_head? hc)) rfl
    have hminus : ∀ c ∈ ds.head?, c ≠ '-' := fun c hc =>
      ne_of_isDigit (hall c (List.mem_of_mem_head? hc)) rfl
    rw [List.nil_append, onMark_of_head hplus, onMark_of_head hminus]
    exact sized_unsignedExponent _ _ _ _ ⟨hne, hall⟩
  · exact sized_unsignedExponent _ _ _ _ hds
  · exact sized_unsignedExponent _ _ _ _ hds

theorem sized_exponentOr (negative : Bool) (significand : Nat) (exponent : Int)
    {missing : List Char → Read Number} {t : List Char} (ht : IsExponent t)
    (hmissing : Sized (missing [])) :
    Sized (exponentOr negative significand exponent missing t) := by
  cases ht with
  | absent => exact hmissing
  | present hmark hsign hds =>
    rcases hmark with rfl | rfl
    · exact sized_exponentPart _ _ _ hsign hds
    · exact sized_exponentPart _ _ _ hsign hds

theorem IsExponent.not_digit {t : List Char} (h : IsExponent t) :
    ∀ c ∈ t.head?, isDigit c = false := by
  cases h with
  | absent => exact nofun
  | present hmark =>
    rintro c ⟨rfl⟩
    rcases hmark with rfl | rfl <;> rfl

theorem IsFraction.not_digit {t : List Char} (h : IsFraction t) :
    ∀ c ∈ t.head?, isDigit c = false := by
  cases h with
  | absent h => exact h.not_digit
  | present =>
    rintro c ⟨rfl⟩
    rfl

theorem sized_fractionPart (negative : Bool) (significand : Nat) (before : Int)
    {ds t : List Char} (hds : Digits ds) (ht : IsExponent t) :
    Sized (fractionPart negative significand before (ds ++ t)) := by
  obtain ⟨htake, hdrop⟩ := span_digits hds.2 ht.not_digit
  simp only [fractionPart_eq, htake, hdrop]
  generalize htaken : takeDigits significand ds = taken
  obtain ⟨significand', count, dropped⟩ := taken
  have hsome : ¬ (count = 0 ∧ dropped = []) := by
    rintro ⟨rfl, rfl⟩
    cases ds with
    | nil => exact hds.1 rfl
    | cons c ds =>
      rw [takeDigits] at htaken
      simp only at htaken
      split_ifs at htaken <;> cases htaken
  rw [afterFraction, if_neg hsome]
  exact sized_exponentOr _ _ _ ht (sized_finishFloat _ _ _)

theorem sized_afterDigits (negative : Bool) (taken : Nat × Nat × List Char) {t : List Char}
    (ht : IsFraction t) : Sized (afterDigits negative taken t) := by
  obtain ⟨significand, count, dropped⟩ := taken
  cases ht with
  | present hds ht => exact sized_fractionPart _ _ _ hds ht
  | absent ht =>
    have hpoint : ∀ c ∈ t.head?, c ≠ '.' := by
      cases ht with
      | absent => exact nofun
      | present hmark =>
        rintro c ⟨rfl⟩
        rcases hmark with rfl | rfl <;> decide
    rw [afterDigits, onMark_of_head hpoint]
    refine sized_exponentOr _ _ _ ht ?_
    split_ifs
    · exact sized_finishFloat _ _ _
    all_goals exact .inl ⟨_, rfl⟩

theorem IsNumeral.sized {s : List Char} (h : IsNumeral s) : Sized (number s) := by
  obtain @⟨sign, ds, t, hsign, ⟨hne, hds⟩, hzero, ht⟩ := h
  cases ds with
  | nil => exact absurd rfl hne
  | cons c ds =>
  obtain ⟨hc, hds⟩ := List.forall_mem_cons.mp hds
  have hunsigned (negative : Bool) : Sized (unsignedNumber negative (c :: ds ++ t)) := by
    have hsingle : ¬ (c = '0' ∧ (ds ++ t).head?.any isDigit = true) := by
      rintro ⟨rfl, hdigit⟩
      obtain rfl : ds = [] := by simpa using hzero rfl
      obtain ⟨d, hd, hdigit⟩ := (Option.any_eq_true _ _).mp hdigit
      rw [ht.not_digit d hd] at hdigit
      cases hdigit
    obtain ⟨htake, hdrop⟩ := span_digits hds ht.not_digit
    rw [List.cons_append, unsignedNumber_cons negative hc hsingle, htake, hdrop]
    exact sized_afterDigits negative _ ht
  rw [number_eq]
  rcases hsign with rfl | rfl
  · rw [List.nil_append, onMark_of_head fun d hd => ?_]
    · exact hunsigned false
    · obtain rfl := Option.some.inj hd
      exact ne_of_isDigit hc rfl
  · exact hunsigned true

/-! ### Beginnings -/

/-- Where something of a number can end: it has not begun, or it ends in a digit. -/
def EndsInDigit (s : List Char) : Prop := ∀ c ∈ s.getLast?, isDigit c = true

theorem EndsInDigit.of_append {a b : List Char} (h : EndsInDigit (a ++ b)) : EndsInDigit b := by
  intro c hc
  refine h c ?_
  rw [List.getLast?_append, Option.mem_def.mp hc]
  rfl

theorem EndsInDigit.eq_nil {s : List Char} (h : EndsInDigit s) (hs : ∀ c ∈ s, isDigit c = false) :
    s = [] := by
  rcases s.eq_nil_or_concat with rfl | ⟨s', c, rfl⟩
  · rfl
  · have hc := h c (by simp)
    rw [hs c (by simp)] at hc
    cases hc

theorem Digits.endsInDigit {ds : List Char} (h : Digits ds) (s : List Char) :
    EndsInDigit (s ++ ds) := by
  intro c hc
  rw [List.getLast?_append, List.getLast?_eq_some_getLast h.1] at hc
  exact h.2 c (Option.some.inj hc ▸ List.getLast_mem h.1)

theorem Digits.of_isPrefix {ds y : List Char} (h : Digits ds) (hy : y <+: ds) (hne : y ≠ []) :
    Digits y := ⟨hne, fun c hc => h.2 c (hy.subset hc)⟩

/-- A beginning that ends in a digit ends in the digits after a sign. -/
theorem exists_digits_of_isPrefix (sign : List Char) {ds y : List Char}
    (hsign : ∀ c ∈ sign, isDigit c = false) (hds : Digits ds) (hy : y <+: sign ++ ds)
    (hne : y ≠ []) (hend : EndsInDigit y) :
    ∃ ds', y = sign ++ ds' ∧ ds' <+: ds ∧ Digits ds' := by
  rcases prefix_append_or hy with hy | ⟨z, rfl, hz⟩
  · exact absurd (hend.eq_nil fun c hc => hsign c (hy.subset hc)) hne
  refine ⟨z, rfl, hz, hds.of_isPrefix hz ?_⟩
  rintro rfl
  rw [List.append_nil] at hne hend
  exact hne (hend.eq_nil hsign)

theorem IsExponent.of_isPrefix {t y : List Char} (h : IsExponent t) (hy : y <+: t)
    (hend : EndsInDigit y) : IsExponent y := by
  by_cases hne : y = []
  · exact hne ▸ .absent
  cases h with
  | absent => exact absurd (List.prefix_nil.mp hy) hne
  | @present mark sign ds hmark hsign hds =>
    have hmarks : ∀ c ∈ mark :: sign, isDigit c = false := by
      rcases hmark with rfl | rfl <;> rcases hsign with rfl | rfl | rfl <;> simp [isDigit]
    obtain ⟨ds', rfl, -, hds'⟩ := exists_digits_of_isPrefix (mark :: sign) hmarks hds hy hne hend
    exact .present hmark hsign hds'

theorem IsFraction.of_isPrefix {t y : List Char} (h : IsFraction t) (hy : y <+: t)
    (hend : EndsInDigit y) : IsFraction y := by
  by_cases hne : y = []
  · exact hne ▸ .absent .absent
  cases h with
  | absent h => exact .absent (h.of_isPrefix hy hend)
  | @present ds t hds ht =>
    rw [← List.cons_append] at hy
    rcases prefix_append_or hy with hy | ⟨z, rfl, hz⟩
    · obtain ⟨ds', rfl, -, hds'⟩ :=
        exists_digits_of_isPrefix ['.'] (by simp [isDigit]) hds hy hne hend
      simpa using IsFraction.present hds' .absent
    · exact .present hds (ht.of_isPrefix hz hend.of_append)

theorem IsNumeral.of_isPrefix {s y : List Char} (h : IsNumeral s) (hy : y <+: s) (hne : y ≠ [])
    (hend : EndsInDigit y) : IsNumeral y := by
  obtain @⟨sign, ds, t, hsign, hds, hzero, ht⟩ := h
  have hsigns : ∀ c ∈ sign, isDigit c = false := by
    rcases hsign with rfl | rfl <;> simp [isDigit]
  rw [← List.append_assoc] at hy
  rcases prefix_append_or hy with hy | ⟨z, rfl, hz⟩
  · obtain ⟨ds', rfl, hinit, hds'⟩ := exists_digits_of_isPrefix sign hsigns hds hy hne hend
    have hzero' : ds'.head? = some '0' → ds' = ['0'] := by
      cases ds' with
      | nil => nofun
      | cons c ds' =>
        rintro ⟨rfl⟩
        obtain ⟨r, rfl⟩ := hinit
        simpa using (List.append_eq_nil_iff.mp (List.cons.inj (hzero rfl)).2).1
    simpa using IsNumeral.mk hsign hds' hzero' (.absent .absent)
  · rw [List.append_assoc]
    exact .mk hsign hds hzero (ht.of_isPrefix hz hend.of_append)

theorem IsExponent.endsInDigit {t : List Char} (h : IsExponent t) {s : List Char}
    (hs : EndsInDigit s) : EndsInDigit (s ++ t) := by
  cases h with
  | absent => rwa [List.append_nil]
  | @present mark sign ds _ _ hds =>
    have hend := hds.endsInDigit (s ++ mark :: sign)
    simpa using hend

theorem IsNumeral.endsInDigit {s : List Char} (h : IsNumeral s) : EndsInDigit s := by
  obtain @⟨sign, ds, t, -, hds, -, ht⟩ := h
  rw [← List.append_assoc]
  cases ht with
  | absent h => exact h.endsInDigit (hds.endsInDigit sign)
  | @present ds' t hds' ht =>
    have hend := ht.endsInDigit (hds'.endsInDigit (sign ++ ds ++ ['.']))
    simpa using hend

/-- What has been written of a number is a number, unless it ends in a sign, a point or an `e`, or
is out of range. -/
theorem number_begun {text y : List Char} {n : Number} (h : number text = .ok (n, []))
    (hy : y <+: text) (hne : y ≠ []) : (∃ n', number y = .ok (n', [])) ↔
      EndsInDigit y ∧ ∀ unread, number y ≠ .error ⟨.numberOutOfRange, unread⟩ := by
  constructor
  · rintro ⟨n', hread⟩
    exact ⟨(isNumeral_of_number hread).endsInDigit, fun unread => by rw [hread]; nofun⟩
  · rintro ⟨hend, hrange⟩
    rcases ((isNumeral_of_number h).of_isPrefix hy hne hend).sized with hread | ⟨unread, hread⟩
    · exact hread
    · exact absurd hread (hrange unread)

/-! ## How strings are spelled -/

theorem Spells.append {st : StringState} {raw raw' cs cs' : List Char} (h : Spells st raw cs)
    (h' : Spells .plain raw' cs') : Spells st (raw ++ raw') (cs ++ cs') := by
  induction h with
  | stop => exact h'
  | go hread hquote hescape _ ih =>
    rw [List.append_assoc]
    exact .go hread hquote hescape ih

theorem Spells.string_append {st : StringState} {raw cs : List Char} (h : Spells st raw cs)
    {s cs' rest : List Char} (hread : string st (raw ++ s) = .ok (cs', rest)) :
    ∃ cs'', string .plain s = .ok (cs'', rest) := by
  induction h generalizing cs' with
  | stop => exact ⟨cs', hread⟩
  | go hstep _ _ _ ih =>
    rw [List.cons_append, hstep] at hread
    obtain ⟨cs'', hread, -⟩ := emit_eq_ok hread
    exact ih hread

theorem Spells.of_append {raw raw' cs cs' : List Char} (h : Spells .plain raw cs)
    (h' : Spells .plain (raw ++ raw') cs') : ∃ cs'', Spells .plain raw' cs'' := by
  have hread := h'.read []
  rw [List.append_assoc] at hread
  obtain ⟨cs'', hread⟩ := h.string_append hread
  exact ⟨cs'', spells_of_quoted hread⟩

/-- A text that ends inside of a `\u` escape: no beginning of what follows the `u` completes it. -/
def InEscape (x : List Char) : Prop :=
  ∃ front cs z, x = front ++ '\\' :: 'u' :: z ∧ Spells .plain front cs ∧
    ∀ z' cs', z' <+: z → ¬ Spells .plain ('\\' :: 'u' :: z') cs'

/-- Where the beginning of a string may end. -/
inductive Broken (x : List Char) : Prop where
  | between {cs : List Char} (h : Spells .plain x cs)
  | backslash {front cs : List Char} (hx : x = front ++ ['\\']) (h : Spells .plain front cs)
  | escape (h : InEscape x)

theorem Broken.append {raw cs x : List Char} (h : Spells .plain raw cs) (hx : Broken x) :
    Broken (raw ++ x) := by
  cases hx with
  | between hx => exact .between (h.append hx)
  | @backslash front cs' hx hfront =>
    subst hx
    exact .backslash (List.append_assoc raw front ['\\']).symm (h.append hfront)
  | escape hx =>
    obtain ⟨front, cs', z, rfl, hfront, hopen⟩ := hx
    exact .escape ⟨raw ++ front, cs ++ cs', z, by simp, h.append hfront, hopen⟩

/-- Unless a character of the string is spelled at its beginning, the text ends in an escape. -/
theorem broken_of_unspelled {raw cs x : List Char} (h : Spells .plain raw cs) (hx : x <+: raw)
    (hnone : ∀ unit cs', unit <+: x → unit ≠ [] → ¬ Spells .plain unit cs') : Broken x := by
  cases x with
  | nil => exact .between .stop
  | cons c x =>
  obtain ⟨raw, rfl⟩ := hx
  have hread := h.read []
  have hback : c = '\\' := by
    by_contra hback
    have hquote : c ≠ '"' := by
      rintro rfl
      cases h with
      | go _ hquote => cases hquote rfl
    by_cases hcontrol : c.toNat < 32
    · rw [List.cons_append, List.cons_append, string, if_neg hquote, if_neg hback,
        if_pos hcontrol] at hread
      cases hread
    · exact hnone [c] _ (by simp) (by simp)
        (.go (string_plain hquote hback hcontrol) (absurd · hquote)
          (by simp [hback, StringState.isEscaped]) .stop)
  subst hback
  cases x with
  | nil => exact @Broken.backslash _ [] [] rfl .stop
  | cons d x =>
  by_cases hu : d = 'u'
  · subst hu
    exact .escape ⟨[], [], x, rfl, .stop, fun z cs' hz =>
      hnone _ cs' (by simpa using hz) (List.cons_ne_nil _ _)⟩
  exfalso
  cases hd : unescape? d with
  | some e =>
    have hletter := Spells.go (string_letter hu hd) (fun _ => rfl) rfl .stop
    exact hnone ['\\', d] _ (by simp) (by simp)
      (.go string_backslash (absurd · (by decide)) rfl hletter)
  | none =>
    rw [List.cons_append, List.cons_append, string_backslash, List.cons_append, List.cons_append,
      string, if_neg hu, hd] at hread
    cases hread

/-- A beginning of a string ends between two characters, after a backslash, or inside of a `\u`
escape. -/
theorem string_begun {raw cs x : List Char} (h : Spells .plain raw cs) (hx : x <+: raw) :
    Broken x := by
  induction hlength : x.length using Nat.strong_induction_on generalizing raw cs x with
  | h n ih =>
  by_cases hunit : ∃ unit cs', unit <+: x ∧ unit ≠ [] ∧ Spells .plain unit cs'
  · obtain ⟨unit, cs', ⟨x, rfl⟩, hne, hspells⟩ := hunit
    obtain ⟨raw, rfl⟩ := hx
    rw [List.append_assoc] at h
    obtain ⟨cs'', hrest⟩ := hspells.of_append h
    have hshort : x.length < n := by
      rw [← hlength, List.length_append]
      have hpos := List.length_pos_iff.mpr hne
      omega
    exact (ih x.length hshort hrest (List.prefix_append x raw) rfl).append hspells
  · exact broken_of_unspelled h hx fun unit cs' hunit' hne hspells =>
      hunit ⟨unit, cs', hunit', hne, hspells⟩

/-- Inside of an escape a text is not spelled, nor is it without its last character. -/
theorem InEscape.not_spells {x cs : List Char} (h : InEscape x) :
    ¬ Spells .plain x cs ∧ ¬ Spells .plain x.dropLast cs := by
  obtain ⟨front, cs', z, rfl, hfront, hopen⟩ := h
  refine ⟨fun hx => ?_, fun hx => ?_⟩
  · obtain ⟨cs'', hx⟩ := hfront.of_append hx
    exact hopen z cs'' List.prefix_rfl hx
  · rw [List.dropLast_append_of_ne_nil (by simp)] at hx
    obtain ⟨cs'', hx⟩ := hfront.of_append hx
    cases z with
    | nil => exact absurd (hx.read []) (by rintro ⟨⟩)
    | cons d z => exact hopen (d :: z).dropLast cs'' (List.dropLast_prefix _) hx

end Agents.Json
