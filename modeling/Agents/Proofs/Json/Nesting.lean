import Agents.Proofs.Json.Printer

/-! # No record ends with another one

A reader that goes over a JSON text from left to right knows at each character how many objects and
arrays are open, and whether it is inside a string. Over the text of an object it counts at least
one open object until the last character. So the end of such a text is not the text of an object
again (`front_eq_nil`): where the reader stands outside of strings, too much would be closed, and
inside of a string the first quote would be followed by a letter, which nothing does that follows a
string.
-/

namespace Agents.Json

/-! ## The reader -/

inductive Place where
  | between
  | text
  | escaped
  /-- Right after a string. -/
  | closed
deriving DecidableEq, Repr

/-- Where the reader stands, and how much is open. -/
abbrev Reading := Place × Nat

def stepBetween (depth : Nat) (c : Char) : Option Reading :=
  if c = '"' then some (.text, depth)
  else if c = '[' ∨ c = '\x7b' then some (.between, depth + 1)
  else if c = ']' ∨ c = '\x7d' then
    match depth with
    | 0 => none
    | depth + 1 => some (.between, depth)
  else some (.between, depth)

/-- One character; none where no JSON text goes on so. -/
def step : Reading → Char → Option Reading
  | (.between, depth), c => stepBetween depth c
  | (.text, depth), c =>
    if c = '"' then some (.closed, depth)
    else if c = '\\' then some (.escaped, depth)
    else some (.text, depth)
  | (.escaped, depth), _ => some (.text, depth)
  | (.closed, depth), c =>
    if c = ',' ∨ c = ':' ∨ c = ']' ∨ c = '\x7d' then stepBetween depth c else none

def scan (r : Reading) (s : List Char) : Option Reading := s.foldlM step r

@[simp] theorem scan_nil (r : Reading) : scan r [] = some r := rfl

@[simp] theorem scan_cons (r : Reading) (c : Char) (s : List Char) :
    scan r (c :: s) = (step r c).bind (scan · s) := rfl

theorem scan_append (r : Reading) (s t : List Char) :
    scan r (s ++ t) = (scan r s).bind (scan · t) := List.foldlM_append

/-! ## Texts of values -/

def IsAfter (place : Place) : Prop := place = .between ∨ place = .closed

theorem step_of_isAfter {place : Place} (h : IsAfter place) {c : Char}
    (hc : c = ',' ∨ c = ':' ∨ c = ']' ∨ c = '\x7d') (depth : Nat) :
    step (place, depth) c = stepBetween depth c := by
  rcases h with rfl | rfl
  · rfl
  · exact if_pos hc

theorem scan_comma {place : Place} (h : IsAfter place) (depth : Nat) (rest : List Char) :
    scan (place, depth) (',' :: rest) = scan (.between, depth) rest := by
  rw [scan_cons, step_of_isAfter h (.inl rfl)]
  rfl

theorem scan_colon {place : Place} (h : IsAfter place) (depth : Nat) (rest : List Char) :
    scan (place, depth) (':' :: rest) = scan (.between, depth) rest := by
  rw [scan_cons, step_of_isAfter h (.inr (.inl rfl))]
  rfl

theorem scan_open {c : Char} (hc : c = '[' ∨ c = '\x7b') (depth : Nat) (rest : List Char) :
    scan (.between, depth) (c :: rest) = scan (.between, depth + 1) rest := by
  have hquote : c ≠ '"' := by rcases hc with rfl | rfl <;> decide
  rw [scan_cons, step]
  unfold stepBetween
  rw [if_neg hquote, if_pos hc, Option.bind_some]

theorem scan_close {place : Place} (h : IsAfter place) {c : Char} (hc : c = ']' ∨ c = '\x7d')
    (depth : Nat) : scan (place, depth + 1) [c] = some (.between, depth) := by
  have hquote : c ≠ '"' := by rcases hc with rfl | rfl <;> decide
  have hopen : ¬ (c = '[' ∨ c = '\x7b') := by rcases hc with rfl | rfl <;> decide
  rw [scan_cons, step_of_isAfter h (.inr (.inr hc))]
  unfold stepBetween
  rw [if_neg hquote, if_neg hopen, if_pos hc]
  rfl

theorem hexDigit_ne : ∀ n < 32, hexDigit n ≠ '"' ∧ hexDigit n ≠ '\\' ∧
    hexDigit (n / 16) ≠ '"' ∧ hexDigit (n / 16) ≠ '\\' := by decide

theorem scan_escapeChar (c : Char) (depth : Nat) :
    scan (.text, depth) (escapeChar c) = some (.text, depth) := by
  unfold escapeChar
  split_ifs with hquote hbackslash _ _ _ _ _ hcontrol
  all_goals try rfl
  · obtain ⟨h₁, h₂, h₃, h₄⟩ := hexDigit_ne c.toNat hcontrol
    simp [step, h₁, h₂, h₃, h₄]
  · simp [step, hquote, hbackslash]

theorem scan_escape (s : List Char) (depth : Nat) :
    scan (.text, depth) (escape s) = some (.text, depth) := by
  induction s with
  | nil => rfl
  | cons c s ih =>
    rw [escape, List.flatMap_cons, scan_append, scan_escapeChar]
    exact ih

theorem scan_quote (s : String) (depth : Nat) :
    scan (.between, depth) (quote s).toList = some (.closed, depth) := by
  rw [toList_quote, scan_cons]
  show scan (.text, depth) (escape s.toList ++ ['"']) = _
  rw [scan_append, scan_escape]
  rfl

theorem stepBetween_number {c : Char} (h : isNumberChar c = true) (depth : Nat) :
    stepBetween depth c = some (.between, depth) := by
  unfold stepBetween
  split_ifs with hquote hopen hclose
  · rw [hquote] at h
    cases h
  · rcases hopen with rfl | rfl <;> cases h
  · rcases hclose with rfl | rfl <;> cases h
  · rfl

theorem scan_number {s : List Char} (h : AllNumber s) (depth : Nat) :
    scan (.between, depth) s = some (.between, depth) := by
  induction s with
  | nil => rfl
  | cons c s ih =>
    rw [scan_cons]
    show (stepBetween depth c).bind _ = _
    rw [stepBetween_number (h c List.mem_cons_self)]
    exact ih fun d hd => h d (List.mem_cons_of_mem c hd)

/-- Over the text of a value as much is closed as is opened. -/
def Balanced (a : Json) : Prop := ∀ depth, ∃ place, IsAfter place ∧
  scan (.between, depth) (compact a).toList = some (place, depth)

theorem scan_items {items : List Json} (h : ∀ a ∈ items, a.Balanced) {place : Place}
    (hplace : IsAfter place) (depth : Nat) : ∃ place', IsAfter place' ∧
      scan (place, depth) (compactItems items).toList = some (place', depth) := by
  induction items generalizing place with
  | nil => exact ⟨place, hplace, rfl⟩
  | cons a rest ih =>
    obtain ⟨place₁, hplace₁, hvalue⟩ := h a List.mem_cons_self depth
    obtain ⟨place₂, hplace₂, hrest⟩ := ih (fun b hb => h b (List.mem_cons_of_mem a hb)) hplace₁
    refine ⟨place₂, hplace₂, ?_⟩
    rw [toList_items, scan_comma hplace, scan_append, hvalue, Option.bind_some, hrest]

theorem scan_member {k : String} {v : Json} (h : v.Balanced) (depth : Nat) :
    ∃ place, IsAfter place ∧ ∀ rest, scan (.between, depth)
      ((quote k).toList ++ ':' :: ((compact v).toList ++ rest)) = scan (place, depth) rest := by
  obtain ⟨place, hplace, hvalue⟩ := h depth
  refine ⟨place, hplace, fun rest => ?_⟩
  rw [scan_append, scan_quote, Option.bind_some, scan_colon (.inr rfl), scan_append, hvalue,
    Option.bind_some]

theorem scan_fields {fields : Fields} (h : ∀ member ∈ fields, member.2.Balanced) {place : Place}
    (hplace : IsAfter place) (depth : Nat) : ∃ place', IsAfter place' ∧
      scan (place, depth) (compactFields fields).toList = some (place', depth) := by
  induction fields generalizing place with
  | nil => exact ⟨place, hplace, rfl⟩
  | cons head rest ih =>
    obtain ⟨k, v⟩ := head
    obtain ⟨place₁, hplace₁, hmember⟩ := scan_member (k := k) (h (k, v) List.mem_cons_self) depth
    obtain ⟨place₂, hplace₂, hrest⟩ :=
      ih (fun member hmember => h member (List.mem_cons_of_mem _ hmember)) hplace₁
    refine ⟨place₂, hplace₂, ?_⟩
    rw [toList_fields, scan_comma hplace, hmember, hrest]

/-- The members of an object, before its last brace. -/
def openText (k : String) (v : Json) (rest : Fields) : List Char :=
  (quote k).toList ++ ':' :: ((compact v).toList ++ (compactFields rest).toList)

theorem toList_obj_openText (k : String) (v : Json) (rest : Fields) :
    (compact (.obj ((k, v) :: rest))).toList = '\x7b' :: (openText k v rest ++ ['\x7d']) := by
  simp [toList_obj, openText]

theorem scan_openText {k : String} {v : Json} {rest : Fields} (hv : v.Balanced)
    (hrest : ∀ member ∈ rest, member.2.Balanced) (depth : Nat) : ∃ place, IsAfter place ∧
      scan (.between, depth) (openText k v rest) = some (place, depth) := by
  obtain ⟨place, hplace, hmember⟩ := scan_member (k := k) hv depth
  obtain ⟨place', hplace', hfields⟩ := scan_fields hrest hplace depth
  exact ⟨place', hplace', by rw [openText, hmember, hfields]⟩

theorem balanced (a : Json) : a.Balanced := by
  intro depth
  induction a using induct generalizing depth with
  | null => exact ⟨.between, .inl rfl, rfl⟩
  | bool b => cases b <;> exact ⟨.between, .inl rfl, rfl⟩
  | num n => exact ⟨.between, .inl rfl, scan_number (allNumber_text n) depth⟩
  | str s => exact ⟨.closed, .inr rfl, scan_quote s depth⟩
  | arr items ih =>
    refine ⟨.between, .inl rfl, ?_⟩
    cases items with
    | nil => rfl
    | cons a rest =>
      obtain ⟨place, hplace, hvalue⟩ := ih a List.mem_cons_self (depth + 1)
      obtain ⟨place', hplace', hrest⟩ :=
        scan_items (fun b hb => ih b (List.mem_cons_of_mem a hb)) hplace (depth + 1)
      rw [toList_arr, scan_open (.inl rfl), scan_append, hvalue, Option.bind_some, scan_append,
        hrest, Option.bind_some, scan_close hplace' (.inl rfl)]
  | obj fields ih =>
    refine ⟨.between, .inl rfl, ?_⟩
    cases fields with
    | nil => rfl
    | cons head rest =>
      obtain ⟨k, v⟩ := head
      obtain ⟨place, hplace, hopen⟩ := scan_openText (k := k) (ih (k, v) List.mem_cons_self)
        (fun member hmember => ih member (List.mem_cons_of_mem _ hmember)) (depth + 1)
      rw [toList_obj_openText, scan_open (.inr rfl), scan_append, hopen, Option.bind_some,
        scan_close hplace (.inr rfl)]

/-! ## Ends of objects -/

theorem isAlpha_of_lt : ∀ n < 32, (Char.ofNat n).isAlpha = false := by decide

theorem escapeChar_of_isAlpha {c : Char} (h : c.isAlpha = true) : escapeChar c = [c] := by
  have hspace : 32 ≤ c.toNat := by
    by_contra hcontrol
    have hnot := isAlpha_of_lt c.toNat (not_le.mp hcontrol)
    rw [Char.ofNat_toNat, h] at hnot
    cases hnot
  unfold escapeChar
  split_ifs with h₁ h₂ h₃ h₄ h₅ h₆ h₇ h₈
  all_goals first | (subst_vars; cases h) | omega | rfl

/-- Inside of a string the first name would end it, and its first letter would follow. -/
theorem scan_text_openText {l : String} {w : Json} {bs : Fields} {c : Char} {name : List Char}
    (hl : l.toList = c :: name) (hc : c.isAlpha = true) (depth : Nat) :
    scan (.text, depth) (openText l w bs) = none := by
  have hmark : ¬ (c = ',' ∨ c = ':' ∨ c = ']' ∨ c = '\x7d') := by
    rintro (rfl | rfl | rfl | rfl) <;> cases hc
  have hstep : step (.closed, depth) c = none := if_neg hmark
  have hquote : step (.text, depth) '"' = some (.closed, depth) := rfl
  simp [openText, toList_quote, hl, escape, escapeChar_of_isAlpha hc, hstep, hquote]

/-- The text of an object whose first name begins with a letter does not end that of another. -/
theorem front_eq_nil {k l : String} {v w : Json} {as bs : Fields} {front : List Char}
    {c : Char} {name : List Char} (hl : l.toList = c :: name) (hc : c.isAlpha = true)
    (h : (compact (.obj ((k, v) :: as))).toList =
      front ++ (compact (.obj ((l, w) :: bs))).toList) : front = [] := by
  cases front with
  | nil => rfl
  | cons d p =>
  exfalso
  -- What follows the first brace is a beginning of the members, over which nothing is left open.
  rw [toList_obj_openText, List.cons_append, List.cons.injEq] at h
  obtain ⟨rfl, h⟩ := h
  obtain ⟨place, -, hopen⟩ : ∃ place, IsAfter place ∧
      scan (.between, 0) (openText k v as) = some (place, 0) :=
    scan_openText (balanced v) (fun member _ => balanced member.2) 0
  have hback : (compact (.obj ((l, w) :: bs))).toList =
      '\x7b' :: (openText l w bs ++ ['\x7d']) := toList_obj_openText l w bs
  rw [hback, ← List.cons_append, ← List.append_assoc] at h
  have hmembers : openText k v as = p ++ '\x7b' :: openText l w bs :=
    (List.append_inj' h rfl).1
  rw [hmembers, scan_append] at hopen
  obtain ⟨⟨place₁, depth⟩, hp, hrest⟩ := Option.bind_eq_some_iff.mp hopen
  cases place₁ with
  | between =>
    -- The inner object is left open.
    obtain ⟨place₂, -, hinner⟩ : ∃ place₂, IsAfter place₂ ∧
        scan (.between, depth + 1) (openText l w bs) = some (place₂, depth + 1) :=
      scan_openText (balanced w) (fun member _ => balanced member.2) (depth + 1)
    rw [scan_open (.inr rfl), hinner] at hrest
    cases hrest
  | closed => cases hrest
  | text =>
    have hbrace : step (.text, depth) '\x7b' = some (.text, depth) := rfl
    rw [scan_cons, hbrace, Option.bind_some, scan_text_openText hl hc] at hrest
    cases hrest
  | escaped =>
    have hbrace : step (.escaped, depth) '\x7b' = some (.text, depth) := rfl
    rw [scan_cons, hbrace, Option.bind_some, scan_text_openText hl hc] at hrest
    cases hrest

end Agents.Json
