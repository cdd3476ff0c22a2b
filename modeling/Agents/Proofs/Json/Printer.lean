import Agents.Proofs.Json.Number

/-! # A JSON text is read in one way only

The text of a value shows where it ends, as long as no character of a number follows it. So when
the texts of two values, each followed by something, are the same, then the values are the same and
so is what follows (`compact_append_inj`). In particular different values have different texts.
-/

namespace Agents.Json

/-! ## Values and their parts -/

/-- Induction over a value: what holds of the parts of a value holds of the value. -/
@[elab_as_elim]
theorem induct {P : Json → Prop} (null : P .null) (bool : ∀ b, P (.bool b)) (num : ∀ n, P (.num n))
    (str : ∀ s, P (.str s)) (arr : ∀ items, (∀ a ∈ items, P a) → P (.arr items))
    (obj : ∀ fields, (∀ member ∈ fields, P member.2) → P (.obj fields)) (a : Json) : P a := by
  match a with
  | .null => exact null
  | .bool b => exact bool b
  | .num n => exact num n
  | .str s => exact str s
  | .arr items => exact arr items fun a _ => induct null bool num str arr obj a
  | .obj fields => exact obj fields fun member _ => induct null bool num str arr obj member.2
termination_by sizeOf a
decreasing_by
  · next hmem =>
    have hlt := List.sizeOf_lt_of_mem hmem
    simp only [Json.arr.sizeOf_spec]
    omega
  · next hmem =>
    have hlt := List.sizeOf_lt_of_mem hmem
    obtain ⟨k, v⟩ := member
    simp only [Json.obj.sizeOf_spec, Prod.mk.sizeOf_spec] at hlt ⊢
    omega

/-! ## Strings -/

def hexValue (c : Char) : Nat := if c.isDigit then c.toNat - 48 else c.toNat - 87

def shortEscape? : Char → Option Char
  | '"' => some '"'
  | '\\' => some '\\'
  | 'b' => some '\x08'
  | 't' => some '\t'
  | 'n' => some '\n'
  | 'f' => some '\x0c'
  | 'r' => some '\r'
  | _ => none

/-- The first character of an escaped text, and what follows it; a quote ends the text. -/
def readChar : List Char → Option (Char × List Char)
  | '\\' :: 'u' :: _ :: _ :: a :: b :: rest =>
    some (Char.ofNat (16 * hexValue a + hexValue b), rest)
  | '\\' :: c :: rest => (shortEscape? c).map (·, rest)
  | '"' :: _ => none
  | c :: rest => some (c, rest)
  | [] => none

theorem hexValue_hexDigits :
    ∀ n < 32, 16 * hexValue (hexDigit (n / 16)) + hexValue (hexDigit n) = n := by
  decide

theorem readChar_escapeChar (c : Char) (rest : List Char) :
    readChar (escapeChar c ++ rest) = some (c, rest) := by
  unfold escapeChar
  split
  · next h => rw [h]; rfl
  split
  · next h => rw [h]; rfl
  split
  · next h => rw [h]; rfl
  split
  · next h => rw [h]; rfl
  split
  · next h => rw [h]; rfl
  split
  · next h => rw [h]; rfl
  split
  · next h => rw [h]; rfl
  split
  · next h =>
    simp only [List.cons_append, List.nil_append, readChar, hexValue_hexDigits _ h, Char.ofNat_toNat]
  · next hquote hbackslash _ _ _ _ _ _ =>
    simp only [List.cons_append, List.nil_append]
    unfold readChar
    split <;> simp_all

theorem escape_append_inj {s t r r' : List Char}
    (h : escape s ++ '"' :: r = escape t ++ '"' :: r') : s = t ∧ r = r' := by
  have hcons (c : Char) (cs rest : List Char) : readChar (escape (c :: cs) ++ '"' :: rest) =
      some (c, escape cs ++ '"' :: rest) := by
    rw [escape, List.flatMap_cons, List.append_assoc]
    exact readChar_escapeChar c _
  have hnil (rest : List Char) : readChar (escape [] ++ '"' :: rest) = none := rfl
  induction s generalizing t with
  | nil =>
    cases t with
    | nil => exact ⟨rfl, (List.cons.inj h).2⟩
    | cons d t =>
      have hread := congrArg readChar h
      rw [hnil, hcons] at hread
      cases hread
  | cons c s ih =>
    cases t with
    | nil =>
      have hread := congrArg readChar h
      rw [hnil, hcons] at hread
      cases hread
    | cons d t =>
      have hread := congrArg readChar h
      rw [hcons, hcons] at hread
      simp only [Option.some.injEq, Prod.mk.injEq] at hread
      obtain ⟨rfl, hrest⟩ := hread
      obtain ⟨rfl, rfl⟩ := ih hrest
      exact ⟨rfl, rfl⟩

theorem toList_quote (s : String) : (quote s).toList = '"' :: (escape s.toList ++ ['"']) := by
  simp [quote]

theorem quote_append_inj {s t : String} {r r' : List Char}
    (h : (quote s).toList ++ r = (quote t).toList ++ r') : s = t ∧ r = r' := by
  simp only [toList_quote, List.cons_append, List.append_assoc, List.nil_append, List.cons.injEq,
    true_and] at h
  obtain ⟨hst, hr⟩ := escape_append_inj h
  exact ⟨String.toList_inj.mp hst, hr⟩

/-! ## First characters -/

/-- What kind of value a text begins. -/
inductive Shape where
  | null
  | bool (value : Bool)
  | num
  | str
  | arr
  | obj
deriving DecidableEq, Repr

def shape : Json → Shape
  | .null => .null
  | .bool b => .bool b
  | .num _ => .num
  | .str _ => .str
  | .arr _ => .arr
  | .obj _ => .obj

def shapeOf? (c : Char) : Option Shape :=
  if c = 'n' then some .null
  else if c = 't' then some (.bool true)
  else if c = 'f' then some (.bool false)
  else if c = '"' then some .str
  else if c = '[' then some .arr
  else if c = '\x7b' then some .obj
  else if c.isDigit ∨ c = '-' then some .num
  else none

theorem shapeOf?_number {c : Char} (h : c.isDigit = true ∨ c = '-') : shapeOf? c = some .num := by
  unfold shapeOf?
  rcases h with h | rfl
  · repeat rw [if_neg (by rintro rfl; exact Bool.false_ne_true h)]
    rw [if_pos (.inl h)]
  · rfl

theorem toList_arr (item : Json) (rest : List Json) : (compact (.arr (item :: rest))).toList =
    '[' :: ((compact item).toList ++ ((compactItems rest).toList ++ [']'])) := by
  simp [compact]

theorem toList_obj (k : String) (v : Json) (rest : Fields) :
    (compact (.obj ((k, v) :: rest))).toList = '\x7b' ::
      ((quote k).toList ++
        ':' :: ((compact v).toList ++ ((compactFields rest).toList ++ ['\x7d']))) := by
  simp [compact]

theorem toList_items (item : Json) (rest : List Json) : (compactItems (item :: rest)).toList =
    ',' :: ((compact item).toList ++ (compactItems rest).toList) := by
  simp [compactItems]

@[simp] theorem toList_items_nil : (compactItems []).toList = [] := rfl

@[simp] theorem toList_fields_nil : (compactFields []).toList = [] := rfl

theorem toList_fields (k : String) (v : Json) (rest : Fields) :
    (compactFields ((k, v) :: rest)).toList = ',' ::
      ((quote k).toList ++ ':' :: ((compact v).toList ++ (compactFields rest).toList)) := by
  simp [compactFields]

/-- The first character of a text tells the kind of value. -/
theorem head_compact (a : Json) :
    ∃ c rest, (compact a).toList = c :: rest ∧ shapeOf? c = some a.shape := by
  match a with
  | .null => exact ⟨'n', _, rfl, rfl⟩
  | .bool true => exact ⟨'t', _, rfl, rfl⟩
  | .bool false => exact ⟨'f', _, rfl, rfl⟩
  | .num n =>
    obtain ⟨c, rest, hc, hdigit⟩ := head_text n
    exact ⟨c, rest, hc, shapeOf?_number hdigit⟩
  | .str s => exact ⟨'"', _, toList_quote s, rfl⟩
  | .arr [] => exact ⟨'[', _, rfl, rfl⟩
  | .arr (item :: rest) => exact ⟨'[', _, toList_arr item rest, rfl⟩
  | .obj [] => exact ⟨'\x7b', _, rfl, rfl⟩
  | .obj ((k, v) :: rest) => exact ⟨'\x7b', _, toList_obj k v rest, rfl⟩

theorem shape_eq {a b : Json} {r s : List Char}
    (h : (compact a).toList ++ r = (compact b).toList ++ s) : a.shape = b.shape := by
  obtain ⟨c, rest, ha, hc⟩ := head_compact a
  obtain ⟨d, rest', hb, hd⟩ := head_compact b
  rw [ha, hb] at h
  rw [(List.cons.inj h).1, hd] at hc
  exact (Option.some.inj hc).symm

/-! ## Values -/

/-- What follows a value: nothing, or no character of a number. -/
def Ends (r : List Char) : Prop := ∀ c ∈ r.head?, isNumberChar c = false

theorem ends_cons {c : Char} (h : isNumberChar c = false) (r : List Char) : Ends (c :: r) := by
  intro d hd
  cases hd
  exact h

theorem ends_items (rest : List Json) {r : List Char} :
    Ends ((compactItems rest).toList ++ ']' :: r) := by
  cases rest with
  | nil => exact ends_cons rfl r
  | cons item rest =>
    rw [toList_items]
    exact ends_cons rfl _

theorem ends_fields (rest : Fields) {r : List Char} :
    Ends ((compactFields rest).toList ++ '\x7d' :: r) := by
  cases rest with
  | nil => exact ends_cons rfl r
  | cons head rest =>
    obtain ⟨k, v⟩ := head
    rw [toList_fields]
    exact ends_cons rfl _

theorem number_append_inj {s t r r' : List Char} (hs : AllNumber s) (ht : AllNumber t)
    (hr : Ends r) (hr' : Ends r') (h : s ++ r = t ++ r') : s = t ∧ r = r' := by
  have htake {s r : List Char} (hs : AllNumber s) (hr : Ends r) :
      (s ++ r).takeWhile isNumberChar = s := by
    rw [List.takeWhile_append_of_pos hs]
    cases r with
    | nil => exact List.append_nil s
    | cons c r => rw [List.takeWhile_cons_of_neg (by simp [hr c rfl]), List.append_nil]
  have hst : s = t := by rw [← htake hs hr, h, htake ht hr']
  subst hst
  exact ⟨rfl, List.append_cancel_left h⟩

/-- The text of this value shows where it ends. -/
def Readable (a : Json) : Prop := ∀ (b : Json) (r s : List Char), Ends r → Ends s →
  (compact a).toList ++ r = (compact b).toList ++ s → a = b ∧ r = s

theorem items_append_inj {as bs : List Json} (has : ∀ a ∈ as, a.Readable) {r s : List Char}
    (h : (compactItems as).toList ++ ']' :: r = (compactItems bs).toList ++ ']' :: s) :
    as = bs ∧ r = s := by
  induction as generalizing bs with
  | nil =>
    cases bs with
    | nil => exact ⟨rfl, by simpa using h⟩
    | cons b bs => simp [toList_items] at h
  | cons a as ih =>
    cases bs with
    | nil => simp [toList_items] at h
    | cons b bs =>
      rw [toList_items, toList_items] at h
      simp only [List.cons_append, List.append_assoc, List.cons.injEq, true_and] at h
      obtain ⟨rfl, hrest⟩ :=
        has a List.mem_cons_self b _ _ (ends_items as) (ends_items bs) h
      obtain ⟨rfl, rfl⟩ := ih (fun c hc => has c (List.mem_cons_of_mem a hc)) hrest
      exact ⟨rfl, rfl⟩

theorem fields_append_inj {as bs : Fields} (has : ∀ member ∈ as, member.2.Readable)
    {r s : List Char}
    (h : (compactFields as).toList ++ '\x7d' :: r = (compactFields bs).toList ++ '\x7d' :: s) :
    as = bs ∧ r = s := by
  induction as generalizing bs with
  | nil =>
    cases bs with
    | nil => exact ⟨rfl, by simpa using h⟩
    | cons b bs =>
      obtain ⟨l, b⟩ := b
      simp [toList_fields] at h
  | cons a as ih =>
    obtain ⟨k, a⟩ := a
    cases bs with
    | nil => simp [toList_fields] at h
    | cons b bs =>
      obtain ⟨l, b⟩ := b
      rw [toList_fields, toList_fields] at h
      simp only [List.cons_append, List.append_assoc, List.cons.injEq, true_and] at h
      obtain ⟨rfl, hvalue⟩ := quote_append_inj h
      obtain ⟨rfl, hrest⟩ := has (k, a) List.mem_cons_self b _ _ (ends_fields as) (ends_fields bs)
        (List.cons.inj hvalue).2
      obtain ⟨rfl, rfl⟩ :=
        ih (fun member hmember => has member (List.mem_cons_of_mem _ hmember)) hrest
      exact ⟨rfl, rfl⟩

theorem arr_append_inj {as bs : List Json} (has : ∀ a ∈ as, a.Readable) {r s : List Char}
    (h : (compact (.arr as)).toList ++ r = (compact (.arr bs)).toList ++ s) : as = bs ∧ r = s := by
  -- no value begins with the bracket that ends an empty array
  have hempty (b : Json) (t : List Char) : (compact b).toList ++ t ≠ ']' :: r ∧
      (compact b).toList ++ t ≠ ']' :: s := by
    obtain ⟨c, rest, hb, hc⟩ := head_compact b
    rw [hb]
    constructor
    · intro heq
      rw [(List.cons.inj heq).1] at hc
      cases hc
    · intro heq
      rw [(List.cons.inj heq).1] at hc
      cases hc
  cases as with
  | nil =>
    cases bs with
    | nil => exact ⟨rfl, List.append_cancel_left h⟩
    | cons b bs =>
      rw [toList_arr] at h
      simp only [List.cons_append, List.append_assoc] at h
      exact absurd (List.cons.inj h).2.symm (hempty b _).1
  | cons a as =>
    cases bs with
    | nil =>
      rw [toList_arr] at h
      simp only [List.cons_append, List.append_assoc] at h
      exact absurd (List.cons.inj h).2 (hempty a _).2
    | cons b bs =>
      rw [toList_arr, toList_arr] at h
      simp only [List.cons_append, List.append_assoc, List.nil_append] at h
      refine items_append_inj has ?_
      rw [toList_items, toList_items]
      simpa using (List.cons.inj h).2

theorem obj_append_inj {as bs : Fields} (has : ∀ member ∈ as, member.2.Readable)
    {r s : List Char} (h : (compact (.obj as)).toList ++ r = (compact (.obj bs)).toList ++ s) :
    as = bs ∧ r = s := by
  cases as with
  | nil =>
    cases bs with
    | nil => exact ⟨rfl, List.append_cancel_left h⟩
    | cons b bs =>
      obtain ⟨l, b⟩ := b
      rw [toList_obj, toList_quote] at h
      cases (List.cons.inj (List.cons.inj h).2).1
  | cons a as =>
    obtain ⟨k, a⟩ := a
    cases bs with
    | nil =>
      rw [toList_obj, toList_quote] at h
      cases (List.cons.inj (List.cons.inj h).2).1
    | cons b bs =>
      obtain ⟨l, b⟩ := b
      rw [toList_obj, toList_obj] at h
      simp only [List.cons_append, List.append_assoc, List.nil_append] at h
      refine fields_append_inj has ?_
      rw [toList_fields, toList_fields]
      simpa using (List.cons.inj h).2

/-- The text of a value shows where it ends. -/
theorem readable (a : Json) : a.Readable := by
  induction a using induct with
  | null =>
    intro b r s _ _ h
    cases b with
    | null => exact ⟨rfl, List.append_cancel_left h⟩
    | _ => cases shape_eq h
  | bool x =>
    intro b r s _ _ h
    cases b with
    | bool y =>
      cases shape_eq h
      exact ⟨rfl, List.append_cancel_left h⟩
    | _ => cases shape_eq h
  | num m =>
    intro b r s hr hs h
    cases b with
    | num n =>
      obtain ⟨htext, hrest⟩ := number_append_inj (allNumber_text m) (allNumber_text n) hr hs h
      exact ⟨congrArg Json.num (number_text_injective (String.toList_inj.mp htext)), hrest⟩
    | _ => cases shape_eq h
  | str x =>
    intro b r s _ _ h
    cases b with
    | str y =>
      obtain ⟨rfl, hrest⟩ := quote_append_inj h
      exact ⟨rfl, hrest⟩
    | _ => cases shape_eq h
  | arr as ih =>
    intro b r s _ _ h
    cases b with
    | arr bs =>
      obtain ⟨rfl, hrest⟩ := arr_append_inj ih h
      exact ⟨rfl, hrest⟩
    | _ => cases shape_eq h
  | obj as ih =>
    intro b r s _ _ h
    cases b with
    | obj bs =>
      obtain ⟨rfl, hrest⟩ := obj_append_inj ih h
      exact ⟨rfl, hrest⟩
    | _ => cases shape_eq h

theorem compact_injective {a b : Json} (h : compact a = compact b) : a = b := by
  have hchars : (compact a).toList ++ [] = (compact b).toList ++ [] := by rw [h]
  exact (readable a b [] [] nofun nofun hchars).1

end Agents.Json
