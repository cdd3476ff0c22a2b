import Agents.Json.Parser
import Mathlib.Data.List.TakeWhile

/-! # Tokens of JSON text

What the reader takes for a blank, a string, a number or a literal is a piece of text that it takes
again, with the same meaning, in front of anything that cannot continue it: of a string whatever
follows its quote (`Spells.read`), of a number whatever does not begin with a character of numbers
(`takes_number`).
-/

namespace Agents.Json

theorem prefix_append_or {y a b : List Char} (h : y <+: a ++ b) :
    y <+: a ∨ ∃ z, y = a ++ z ∧ z <+: b := by
  rcases List.prefix_or_prefix_of_prefix h (List.prefix_append a b) with h' | ⟨z, rfl⟩
  · exact .inl h'
  · exact .inr ⟨z, rfl, (List.prefix_append_right_inj a).mp h⟩

/-! ## Blanks -/

/-- Nothing but blanks. -/
def Blank (s : List Char) : Prop := ∀ c ∈ s, isBlank c = true

theorem blank_nil : Blank [] := nofun

theorem Blank.mono {s t : List Char} (ht : Blank t) (h : s <+: t) : Blank s :=
  fun c hc => ht c (h.subset hc)

theorem Blank.append {s t : List Char} (hs : Blank s) (ht : Blank t) : Blank (s ++ t) :=
  List.forall_mem_append.mpr ⟨hs, ht⟩

theorem skipBlanks_append {b : List Char} (h : Blank b) (s : List Char) :
    skipBlanks (b ++ s) = skipBlanks s :=
  List.dropWhile_append_of_pos h

theorem skipBlanks_cons {c : Char} (h : isBlank c = false) (s : List Char) :
    skipBlanks (c :: s) = c :: s :=
  List.dropWhile_cons_of_neg (by simp [h])

theorem skipBlanks_blank {b : List Char} (h : Blank b) : skipBlanks b = [] :=
  List.dropWhile_eq_nil_iff.2 h

theorem exists_blank (s : List Char) :
    ∃ b, Blank b ∧ s = b ++ skipBlanks s ∧ ∀ c rest, skipBlanks s = c :: rest → isBlank c = false :=
  ⟨s.takeWhile isBlank, fun _ hc => List.mem_takeWhile_imp hc, List.takeWhile_append_dropWhile.symm,
    fun c rest h => by
      have hhead := List.head?_dropWhile_not isBlank s
      rw [skipBlanks] at h
      rw [h] at hhead
      simpa using hhead⟩

/-! ## Strings -/

/-- Whether the next character is taken whatever it is, as after a backslash. -/
def StringState.isEscaped : StringState → Bool
  | .escape | .pairLetter _ => true
  | _ => false

def emit (front : Option Char) (read : Read (List Char)) : Read (List Char) :=
  read.map fun (cs, rest) => (front.toList ++ cs, rest)

theorem string_plain {c : Char} (hquote : c ≠ '"') (hback : c ≠ '\\') (hcontrol : ¬ c.toNat < 32)
    (rest : List Char) : string .plain (c :: rest) = emit (some c) (string .plain rest) := by
  rw [string, if_neg hquote, if_neg hback, if_neg hcontrol]
  cases string .plain rest <;> rfl

theorem string_backslash (rest : List Char) :
    string .plain ('\\' :: rest) = emit none (string .escape rest) := by
  rw [string, if_neg (by decide), if_pos rfl]
  cases string .escape rest <;> rfl

theorem string_letter {c d : Char} (hu : c ≠ 'u') (h : unescape? c = some d) (rest : List Char) :
    string .escape (c :: rest) = emit (some d) (string .plain rest) := by
  rw [string, if_neg hu, h]
  cases string .plain rest <;> rfl

/-- What the reader of a string does at a character, whatever follows. -/
inductive StringMove (st : StringState) (c : Char) : Prop where
  | stop (hst : st = .plain) (hc : c = '"')
  | go (st' : StringState) (front : Option Char)
      (hread : ∀ rest, string st (c :: rest) = emit front (string st' rest))
      (hquote : c = '"' → st.isEscaped = true)
      (hescape : st'.isEscaped = (!st.isEscaped && c = '\\'))
  | fail (hread : ∀ rest result, string st (c :: rest) ≠ .ok result)

theorem hexValue?_eq_none {c : Char} (h : c = '"' ∨ c = '\\') : hexValue? c = none := by
  rcases h with rfl | rfl <;> decide

theorem stringMove (st : StringState) (c : Char) : StringMove st c := by
  cases st with
  | plain =>
    by_cases hquote : c = '"'
    · exact .stop rfl hquote
    by_cases hback : c = '\\'
    · subst hback
      exact .go .escape none string_backslash (absurd · hquote) rfl
    by_cases hcontrol : c.toNat < 32
    · refine .fail fun rest result h => ?_
      rw [string, if_neg hquote, if_neg hback, if_pos hcontrol] at h
      cases h
    · exact .go .plain (some c) (string_plain hquote hback hcontrol) (absurd · hquote)
        (by simp [hback, StringState.isEscaped])
  | escape =>
    by_cases hu : c = 'u'
    · refine .go (.hex none 0 0) none (fun rest => ?_) (fun _ => rfl) rfl
      rw [string, if_pos hu]
      cases string (.hex none 0 0) rest <;> rfl
    cases hd : unescape? c with
    | some d => exact .go .plain (some d) (string_letter hu hd) (fun _ => rfl) rfl
    | none =>
      refine .fail fun rest result h => ?_
      rw [string, if_neg hu, hd] at h
      cases h
  | hex leading digits value =>
    cases hd : hexValue? c with
    | none =>
      refine .fail fun rest result h => ?_
      simp only [string, hd] at h
      split at h <;> cases h
    | some d =>
    have hquote : c = '"' → (StringState.hex leading digits value).isEscaped = true := fun hc => by
      rw [hexValue?_eq_none (.inl hc)] at hd
      cases hd
    have hback : false = (!(StringState.hex leading digits value).isEscaped && c = '\\') := by
      by_cases hc : c = '\\'
      · rw [hexValue?_eq_none (.inr hc)] at hd
        cases hd
      · simp [hc]
    -- the state after the digit, by the state before it
    by_cases hdigits : digits < 3
    · refine .go (.hex leading (digits + 1) (16 * value + d)) none (fun rest => ?_) hquote hback
      simp only [string, hd, if_pos hdigits]
      cases string (.hex leading (digits + 1) (16 * value + d)) rest <;> rfl
    by_cases htrailing : isTrailingSurrogate (16 * value + d) = true
    · cases leading with
      | some high =>
        refine .go .plain (some (joinSurrogates high (16 * value + d))) (fun rest => ?_) hquote
            hback
        simp only [string, hd, if_neg hdigits, if_pos htrailing]
        cases string .plain rest <;> rfl
      | none =>
        refine .fail fun rest result h => ?_
        simp only [string, hd, if_neg hdigits, if_pos htrailing] at h
        cases h
    · cases leading with
      | some high =>
        refine .fail fun rest result h => ?_
        simp only [string, hd, if_neg hdigits, if_neg htrailing] at h
        cases h
      | none =>
        by_cases hleading : isLeadingSurrogate (16 * value + d) = true
        · refine .go (.pairBackslash (16 * value + d)) none (fun rest => ?_) hquote hback
          simp only [string, hd, if_neg hdigits, if_neg htrailing, if_pos hleading]
          cases string (.pairBackslash (16 * value + d)) rest <;> rfl
        · refine .go .plain (some (Char.ofNat (16 * value + d))) (fun rest => ?_) hquote hback
          simp only [string, hd, if_neg hdigits, if_neg htrailing, if_neg hleading]
          cases string .plain rest <;> rfl
  | pairBackslash high =>
    by_cases hback : c = '\\'
    · refine .go (.pairLetter high) none (fun rest => ?_) (fun h => ?_)
        (by simp [hback, StringState.isEscaped])
      · rw [string, if_pos hback]
        cases string (.pairLetter high) rest <;> rfl
      · rw [hback] at h
        cases h
    · refine .fail fun rest result h => ?_
      rw [string, if_neg hback] at h
      cases h
  | pairLetter high =>
    by_cases hu : c = 'u'
    · refine .go (.hex (some high) 0 0) none (fun rest => ?_) (fun _ => rfl) rfl
      rw [string, if_pos hu]
      cases string (.hex (some high) 0 0) rest <;> rfl
    · refine .fail fun rest result h => ?_
      rw [string, if_neg hu] at h
      cases h

/-- How a string is spelled that ends before a quote: the raw characters, read from a state on, and
the characters they stand for. -/
inductive Spells : StringState → List Char → List Char → Prop where
  | stop : Spells .plain [] []
  | go {st st' : StringState} {c : Char} {front : Option Char} {raw cs : List Char}
      (hread : ∀ rest, string st (c :: rest) = emit front (string st' rest))
      (hquote : c = '"' → st.isEscaped = true)
      (hescape : st'.isEscaped = (!st.isEscaped && c = '\\'))
      (hrest : Spells st' raw cs) : Spells st (c :: raw) (front.toList ++ cs)

/-- The reader takes the spelling and its quote, and leaves what follows. -/
theorem Spells.read {st : StringState} {raw cs : List Char} (h : Spells st raw cs)
    (rest : List Char) : string st (raw ++ '"' :: rest) = .ok (cs, rest) := by
  induction h with
  | stop => rfl
  | go hread _ _ _ ih => rw [List.cons_append, hread, ih]; rfl

theorem emit_eq_ok {front : Option Char} {read : Read (List Char)} {cs rest : List Char}
    (h : emit front read = .ok (cs, rest)) :
    ∃ cs', read = .ok (cs', rest) ∧ cs = front.toList ++ cs' := by
  cases read with
  | error e => cases h
  | ok result =>
    obtain ⟨cs', rest'⟩ := result
    cases h
    exact ⟨cs', rfl, rfl⟩

theorem spells_of_string {st : StringState} {s cs rest : List Char}
    (h : string st s = .ok (cs, rest)) : ∃ raw, s = raw ++ '"' :: rest ∧ Spells st raw cs := by
  induction s generalizing st cs with
  | nil => cases st <;> cases h
  | cons c s ih =>
    cases stringMove st c with
    | stop hst hc =>
      subst hst hc
      cases h
      exact ⟨[], rfl, .stop⟩
    | go st' front hread hquote hescape =>
      rw [hread] at h
      obtain ⟨cs', hs, rfl⟩ := emit_eq_ok h
      obtain ⟨raw, rfl, hraw⟩ := ih hs
      exact ⟨c :: raw, rfl, .go hread hquote hescape hraw⟩
    | fail hread => exact absurd h (hread s _)

/-! ## Numbers -/

def isNumeric (c : Char) : Bool :=
  isDigit c || c = '-' || c = '+' || c = '.' || c = 'e' || c = 'E'

def AllNumeric (s : List Char) : Prop := ∀ c ∈ s, isNumeric c = true

/-- What cannot continue a number. -/
def Halts (r : List Char) : Prop := ∀ c ∈ r.head?, isNumeric c = false

theorem isNumeric_of_isDigit {c : Char} (h : isDigit c = true) : isNumeric c = true := by
  simp [isNumeric, h]

theorem AllNumeric.cons {c : Char} {s : List Char} (hc : isNumeric c = true) (hs : AllNumeric s) :
    AllNumeric (c :: s) := List.forall_mem_cons.mpr ⟨hc, hs⟩

/-- What this reader takes is numeric, and it takes it again in front of anything that cannot
continue a number. -/
def Takes (read : List Char → Read Number) : Prop :=
  ∀ s x rest, read s = .ok (x, rest) → ∃ t, AllNumeric t ∧ s = t ++ rest ∧
    ∀ r, Halts r → read (t ++ r) = .ok (x, r)

/-- Goes on in one way after this character, and in another where it is missing. -/
def onMark (c : Char) (present missing : List Char → Read Number) : List Char → Read Number
  | [] => missing []
  | d :: rest => if d = c then present rest else missing (d :: rest)

theorem onMark_of_head {c : Char} {present missing : List Char → Read Number} {s : List Char}
    (h : ∀ d ∈ s.head?, d ≠ c) : onMark c present missing s = missing s := by
  cases s with
  | nil => rfl
  | cons d rest => exact if_neg (h d rfl)

/-- What stands in front of the rest begins as the whole does, or the rest itself stands there. -/
theorem head?_append_of {p : Char → Prop} {t rest r : List Char}
    (h : ∀ c ∈ (t ++ rest).head?, p c) (hr : ∀ c ∈ r.head?, p c) : ∀ c ∈ (t ++ r).head?, p c := by
  cases t with
  | nil => exact hr
  | cons d t => exact h

theorem takes_onMark {c : Char} (hc : isNumeric c = true)
    {present missing : List Char → Read Number} (hpresent : Takes present)
    (hmissing : Takes missing) : Takes (onMark c present missing) := by
  intro s x rest h
  by_cases hs : ∀ d ∈ s.head?, d ≠ c
  · rw [onMark_of_head hs] at h
    obtain ⟨t, ht, rfl, hread⟩ := hmissing s x rest h
    refine ⟨t, ht, rfl, fun r hr => ?_⟩
    have hmark : ∀ d ∈ r.head?, d ≠ c := by
      rintro d hd rfl
      rw [hr d hd] at hc
      cases hc
    rw [onMark_of_head (head?_append_of hs hmark), hread r hr]
  · cases s with
    | nil => exact absurd nofun hs
    | cons d s =>
    obtain rfl : d = c := by simpa using hs
    rw [onMark, if_pos rfl] at h
    obtain ⟨t, ht, rfl, hread⟩ := hpresent s x rest h
    exact ⟨d :: t, ht.cons hc, rfl, fun r hr => by
      rw [List.cons_append, onMark, if_pos rfl, hread r hr]⟩

theorem Halts.not_digit {r : List Char} (hr : Halts r) : ∀ c ∈ r.head?, isDigit c = false := by
  intro c hc
  have hnumeric := hr c hc
  simp only [isNumeric, Bool.or_eq_false_iff] at hnumeric
  exact hnumeric.1.1.1.1.1

theorem span_digits {ds r : List Char} (hds : ∀ c ∈ ds, isDigit c = true)
    (hr : ∀ c ∈ r.head?, isDigit c = false) :
    (ds ++ r).takeWhile isDigit = ds ∧ (ds ++ r).dropWhile isDigit = r := by
  rw [List.takeWhile_append_of_pos hds, List.dropWhile_append_of_pos hds]
  cases r with
  | nil => simp
  | cons c r => simp [hr c rfl]

theorem head?_dropWhile_digits (s : List Char) :
    ∀ c ∈ (s.dropWhile isDigit).head?, isDigit c = false := by
  intro c hc
  have hhead := List.head?_dropWhile_not isDigit s
  rw [hc] at hhead
  simpa using hhead

/-- Digits, and then what these digits ask for. -/
theorem takes_digits {f : List Char → List Char → Read Number} (hf : ∀ ds, Takes (f ds)) :
    Takes fun s => f (s.takeWhile isDigit) (s.dropWhile isDigit) := by
  intro s x rest h
  obtain ⟨t, ht, hs, hread⟩ := hf _ _ x rest h
  have hdigits : ∀ c ∈ s.takeWhile isDigit, isDigit c = true := fun c => List.mem_takeWhile_imp
  refine ⟨s.takeWhile isDigit ++ t, ?_, ?_, fun r hr => ?_⟩
  · exact List.forall_mem_append.mpr ⟨fun c hc => isNumeric_of_isDigit (hdigits c hc), ht⟩
  · rw [List.append_assoc, ← hs, List.takeWhile_append_dropWhile]
  · have hstart := head?_append_of (hs ▸ head?_dropWhile_digits s) hr.not_digit
    obtain ⟨htake, hdrop⟩ := span_digits hdigits hstart
    simp only [List.append_assoc, htake, hdrop, hread r hr]

theorem finishFloat_eq_ok {negative : Bool} {significand : Nat} {exponent : Int}
    {s rest : List Char}
    {x : Number} (h : finishFloat negative significand exponent s = .ok (x, rest)) :
    rest = s ∧ ∀ r, finishFloat negative significand exponent r = .ok (x, r) := by
  unfold finishFloat at h ⊢
  cases hscale : scaleByPowerOfTen significand exponent with
  | none =>
    rw [hscale] at h
    cases h
  | some y =>
    rw [hscale] at h
    cases h
    exact ⟨rfl, fun r => rfl⟩

theorem takes_finishFloat (negative : Bool) (significand : Nat) (exponent : Int) :
    Takes (finishFloat negative significand exponent) := by
  intro s x rest h
  obtain ⟨rfl, hread⟩ := finishFloat_eq_ok h
  exact ⟨[], nofun, rfl, fun r _ => hread r⟩

/-- The digits of an exponent are read in front of anything that is no digit; of an exponent that
is beyond reach, in front of anything. -/
theorem exponentDigits_spec (value : Nat) (s : List Char) :
    ∃ ds, (∀ c ∈ ds, isDigit c = true) ∧ s = ds ++ (exponentDigits value s).2 ∧
      ∀ r, (∀ c ∈ r.head?, isDigit c = false) ∨ (exponentDigits value s).1 = none →
        exponentDigits value (ds ++ r) = ((exponentDigits value s).1, r) := by
  induction s generalizing value with
  | nil =>
    refine ⟨[], nofun, rfl, fun r hr => ?_⟩
    cases r with
    | nil => rfl
    | cons c r =>
      have hc : isDigit c = false := hr.elim (· c rfl) nofun
      simp [exponentDigits, hc]
  | cons c s ih =>
    by_cases hc : isDigit c = true
    · by_cases hnext : value * 10 + digitValue c ≤ maxExponent
      · obtain ⟨ds, hds, hs, hread⟩ := ih (value * 10 + digitValue c)
        have hstep (s : List Char) : exponentDigits value (c :: s) =
            exponentDigits (value * 10 + digitValue c) s := by
          simp only [exponentDigits, if_pos hc, if_pos hnext]
        rw [hstep]
        exact ⟨c :: ds, List.forall_mem_cons.mpr ⟨hc, hds⟩, congrArg (c :: ·) hs, fun r hr => by
          rw [List.cons_append, hstep, hread r hr]⟩
      · have hstep (s : List Char) : exponentDigits value (c :: s) = (none, s) := by
          simp only [exponentDigits, if_pos hc, if_neg hnext]
        rw [hstep]
        exact ⟨[c], by simpa using hc, rfl, fun r _ => hstep r⟩
    · have hstep : exponentDigits value (c :: s) = (some value, c :: s) := by
        simp only [exponentDigits, if_neg hc]
      rw [hstep]
      refine ⟨[], nofun, rfl, fun r hr => ?_⟩
      cases r with
      | nil => rfl
      | cons d r =>
        have hd : isDigit d = false := hr.elim (· d rfl) nofun
        simp [exponentDigits, hd]

def unsignedExponent (negative : Bool) (significand : Nat) (start : Int) (down : Bool) :
    List Char → Read Number
  | [] => fault .eofInValue []
  | c :: rest =>
    if isDigit c then
      match exponentDigits (digitValue c) rest with
      | (some e, rest) =>
        finishFloat negative significand (if down then start - e else start + e) rest
      | (none, rest) =>
        if significand ≠ 0 ∧ !down then fault .numberOutOfRange rest
        else .ok (.float (signed negative 0), rest.dropWhile isDigit)
    else faultAtNext .invalidNumber (c :: rest)

theorem exponentPart_eq (negative : Bool) (significand : Nat) (start : Int) :
    exponentPart negative significand start =
      onMark '+' (unsignedExponent negative significand start false)
        (onMark '-' (unsignedExponent negative significand start true)
          (unsignedExponent negative significand start false)) := by
  funext s
  cases s with
  | nil => rfl
  | cons d s =>
    by_cases hplus : d = '+'
    · subst hplus
      rfl
    by_cases hminus : d = '-'
    · subst hminus
      rfl
    rw [onMark_of_head (by simpa using hplus), onMark_of_head (by simpa using hminus), exponentPart]
    · rfl
    · exact fun rest heq => hplus (List.cons.inj heq).1
    · exact fun rest heq => hminus (List.cons.inj heq).1

theorem takes_unsignedExponent (negative : Bool) (significand : Nat) (start : Int) (down : Bool) :
    Takes (unsignedExponent negative significand start down) := by
  intro s x rest h
  cases s with
  | nil => cases h
  | cons c s =>
  cases hc : isDigit c with
  | false =>
    simp only [unsignedExponent, hc, Bool.false_eq_true, if_false] at h
    cases h
  | true =>
  have hnumeric {ds : List Char} (hds : ∀ d ∈ ds, isDigit d = true) : AllNumeric (c :: ds) :=
    .cons (isNumeric_of_isDigit hc) fun d hd => isNumeric_of_isDigit (hds d hd)
  obtain ⟨ds, hds, hs, hread⟩ := exponentDigits_spec (digitValue c) s
  simp only [unsignedExponent, if_pos hc] at h
  generalize exponentDigits (digitValue c) s = digits at h hs hread
  obtain ⟨value, left⟩ := digits
  cases value with
  | some e =>
    obtain ⟨rfl, hfinish⟩ := finishFloat_eq_ok h
    refine ⟨c :: ds, hnumeric hds, congrArg (c :: ·) hs, fun r hr => ?_⟩
    simp only [List.cons_append, unsignedExponent, if_pos hc, hread r (.inl hr.not_digit), hfinish]
  | none =>
    simp only at h
    split at h
    · cases h
    next hzero =>
    obtain ⟨rfl, rfl⟩ : _ ∧ left.dropWhile isDigit = rest := by simpa using h
    have hall : ∀ d ∈ ds ++ left.takeWhile isDigit, isDigit d = true :=
      List.forall_mem_append.mpr ⟨hds, fun d hd => List.mem_takeWhile_imp hd⟩
    refine ⟨c :: (ds ++ left.takeWhile isDigit), hnumeric hall, ?_, fun r hr => ?_⟩
    · rw [List.cons_append, List.append_assoc, List.takeWhile_append_dropWhile]
      exact congrArg (c :: ·) hs
    · have htaken : ∀ d ∈ left.takeWhile isDigit, isDigit d = true :=
        fun d => List.mem_takeWhile_imp
      obtain ⟨-, hdrop⟩ := span_digits htaken hr.not_digit
      simp only [List.cons_append, List.append_assoc, unsignedExponent, if_pos hc,
        hread _ (.inr rfl), if_neg hzero, hdrop]

theorem takes_exponentPart (negative : Bool) (significand : Nat) (start : Int) :
    Takes (exponentPart negative significand start) := by
  rw [exponentPart_eq]
  exact takes_onMark rfl (takes_unsignedExponent _ _ _ _)
    (takes_onMark rfl (takes_unsignedExponent _ _ _ _) (takes_unsignedExponent _ _ _ _))

theorem Takes.guarded {p : Prop} [Decidable p] {refuse read : List Char → Read Number}
    (hrefuse : ∀ s result, refuse s ≠ .ok result) (hread : Takes read) :
    Takes fun s => if p then refuse s else read s := by
  intro s x rest h
  split_ifs at h ⊢
  · exact absurd h (hrefuse s _)
  · exact hread s x rest h

def exponentOr (negative : Bool) (significand : Nat) (exponent : Int)
    (missing : List Char → Read Number) : List Char → Read Number :=
  onMark 'e' (exponentPart negative significand exponent)
    (onMark 'E' (exponentPart negative significand exponent) missing)

theorem takes_exponentOr (negative : Bool) (significand : Nat) (exponent : Int)
    {missing : List Char → Read Number} (h : Takes missing) :
    Takes (exponentOr negative significand exponent missing) :=
  takes_onMark rfl (takes_exponentPart _ _ _) (takes_onMark rfl (takes_exponentPart _ _ _) h)

def afterFraction (negative : Bool) (before : Int) : Nat × Nat × List Char → List Char → Read Number
  | (significand, count, dropped), rest =>
    if count = 0 ∧ dropped = [] then
      if rest = [] then fault .eofInValue [] else faultAtNext .invalidNumber rest
    else exponentOr negative significand (before - count)
      (finishFloat negative significand (before - count)) rest

theorem fractionPart_eq (negative : Bool) (significand : Nat) (before : Int) :
    fractionPart negative significand before = fun s =>
      afterFraction negative before (takeDigits significand (s.takeWhile isDigit))
        (s.dropWhile isDigit) := by
  funext s
  unfold fractionPart
  generalize takeDigits significand (s.takeWhile isDigit) = taken
  generalize s.dropWhile isDigit = rest
  obtain ⟨significand, count, dropped⟩ := taken
  simp only [afterFraction, exponentOr]
  refine if_congr Iff.rfl rfl ?_
  split
  · rfl
  · rfl
  next he hE =>
    cases rest with
    | nil => rfl
    | cons c rest =>
      have hc : c ≠ 'e' := fun h => he rest (by rw [h])
      have hC : c ≠ 'E' := fun h => hE rest (by rw [h])
      simp only [onMark, if_neg hc, if_neg hC]

theorem takes_fractionPart (negative : Bool) (significand : Nat) (before : Int) :
    Takes (fractionPart negative significand before) := by
  rw [fractionPart_eq]
  refine takes_digits (f := fun ds => afterFraction negative before (takeDigits significand ds))
    fun ds => ?_
  refine Takes.guarded (fun s result h => ?_) (takes_exponentOr _ _ _ (takes_finishFloat _ _ _))
  split_ifs at h <;> cases h

def afterDigits (negative : Bool) : Nat × Nat × List Char → List Char → Read Number
  | (significand, _, dropped) =>
    onMark '.' (fractionPart negative significand dropped.length)
      (exponentOr negative significand dropped.length fun rest =>
        if dropped ≠ [] then finishFloat negative significand dropped.length rest
        else if !negative then .ok (.int significand, rest)
        else if significand = 0 ∨ Word.size 63 < significand then
          .ok (.float (-(Float.ofNat significand)), rest)
        else .ok (.int (-significand), rest))

theorem takes_afterDigits (negative : Bool) (taken : Nat × Nat × List Char) :
    Takes (afterDigits negative taken) := by
  obtain ⟨significand, count, dropped⟩ := taken
  refine takes_onMark rfl (takes_fractionPart _ _ _) (takes_exponentOr _ _ _ ?_)
  intro s x rest h
  split_ifs at h ⊢
  · exact takes_finishFloat _ _ _ s x rest h
  all_goals
    cases h
    exact ⟨[], nofun, rfl, fun r _ => rfl⟩

theorem unsignedNumber_cons (negative : Bool) {c : Char} {s : List Char} (hc : isDigit c = true)
    (hzero : ¬ (c = '0' ∧ s.head?.any isDigit = true)) :
    unsignedNumber negative (c :: s) = afterDigits negative
      (takeDigits (digitValue c) (s.takeWhile isDigit)) (s.dropWhile isDigit) := by
  rw [unsignedNumber, hc, if_neg (by simp), if_neg hzero]
  generalize takeDigits (digitValue c) (s.takeWhile isDigit) = taken
  generalize s.dropWhile isDigit = rest
  obtain ⟨significand, count, dropped⟩ := taken
  simp only [afterDigits, exponentOr]
  split
  · rfl
  · rfl
  · rfl
  next hpoint he hE =>
    cases rest with
    | nil => rfl
    | cons d rest =>
      have hd : d ≠ '.' := fun h => hpoint rest (by rw [h])
      have he : d ≠ 'e' := fun h => he rest (by rw [h])
      have hE : d ≠ 'E' := fun h => hE rest (by rw [h])
      simp only [onMark, if_neg hd, if_neg he, if_neg hE]

theorem takes_unsignedNumber (negative : Bool) : Takes (unsignedNumber negative) := by
  intro s x rest h
  cases s with
  | nil => cases h
  | cons c s =>
  cases hc : isDigit c with
  | false =>
    rw [unsignedNumber, hc, if_pos (by simp)] at h
    cases h
  | true =>
  by_cases hzero : c = '0' ∧ s.head?.any isDigit = true
  · rw [unsignedNumber, hc, if_neg (by simp), if_pos hzero] at h
    cases h
  rw [unsignedNumber_cons negative hc hzero] at h
  obtain ⟨t, ht, rfl, hread⟩ := takes_digits
    (f := fun ds => afterDigits negative (takeDigits (digitValue c) ds))
    (fun ds => takes_afterDigits negative _) s x rest h
  refine ⟨c :: t, .cons (isNumeric_of_isDigit hc) ht, rfl, fun r hr => ?_⟩
  have hsingle : ¬ (c = '0' ∧ (t ++ r).head?.any isDigit = true) := by
    rintro ⟨rfl, hdigit⟩
    have hstart : ∀ d ∈ (t ++ rest).head?, isDigit d = false := fun d hd => by
      by_contra hd'
      exact hzero ⟨rfl, by simp [Option.mem_def.mp hd, hd']⟩
    obtain ⟨d, hd, hdigit⟩ := (Option.any_eq_true _ _).mp hdigit
    rw [head?_append_of hstart hr.not_digit d hd] at hdigit
    cases hdigit
  rw [List.cons_append, unsignedNumber_cons negative hc hsingle]
  exact hread r hr

theorem number_eq : number = onMark '-' (unsignedNumber true) (unsignedNumber false) := by
  funext s
  unfold number
  split
  · rfl
  next hminus =>
    cases s with
    | nil => rfl
    | cons c s =>
      have hc : c ≠ '-' := fun h => hminus s (by rw [h])
      rw [onMark, if_neg hc]

/-- A number is taken again in front of anything that cannot continue it. -/
theorem takes_number : Takes number := by
  rw [number_eq]
  exact takes_onMark rfl (takes_unsignedNumber true) (takes_unsignedNumber false)

/-- A number consists of characters of numbers, and is one in front of anything else. -/
theorem number_text {s : List Char} {x : Number} (h : number s = .ok (x, [])) :
    AllNumeric s ∧ ∀ r, Halts r → number (s ++ r) = .ok (x, r) := by
  obtain ⟨t, ht, hs, hread⟩ := takes_number s x [] h
  obtain rfl : s = t := by rw [hs, List.append_nil]
  exact ⟨ht, hread⟩

theorem head_of_number {s rest : List Char} {x : Number} (h : number s = .ok (x, rest)) :
    ∃ c t, s = c :: t ∧ (c = '-' ∨ isDigit c = true) := by
  cases s with
  | nil => cases h
  | cons c s =>
    refine ⟨c, s, rfl, ?_⟩
    by_contra hc
    obtain ⟨hminus, hdigit⟩ := not_or.mp hc
    rw [number_eq, onMark, if_neg hminus, unsignedNumber, if_pos (by simp [hdigit])] at h
    cases h

/-! ## Literals -/

theorem literal_eq_ok {json : Json} {expected s rest : List Char} {found : Json}
    (h : literal json expected s = .ok (found, rest)) : found = json ∧ s = expected ++ rest := by
  induction expected generalizing s with
  | nil =>
    cases h
    exact ⟨rfl, rfl⟩
  | cons e expected ih =>
    cases s with
    | nil => cases h
    | cons c s =>
      rw [literal] at h
      split at h
      next hc =>
        obtain ⟨rfl, rfl⟩ := ih h
        exact ⟨rfl, by rw [hc]; rfl⟩
      · cases h

theorem literal_append (json : Json) (expected rest : List Char) :
    literal json expected (expected ++ rest) = .ok (json, rest) := by
  induction expected with
  | nil => cases rest <;> rfl
  | cons e expected ih => rw [List.cons_append, literal, if_pos rfl, ih]

end Agents.Json
