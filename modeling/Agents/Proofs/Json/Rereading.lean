import Agents.Proofs.Json.Pointer
import Agents.Proofs.Json.Printer
import Agents.Proofs.Json.Reading

/-! # Reading what was written

The text of a value is read as the same value, but with the members of its objects in ascending
order (`parse?_compact`). What is asked of the value: its numbers are read back from their texts, as
all integers of 64 bits are (`number_int`), and its containers are not nested too deeply. A value
that is in order already is read back as it is (`Proper.reread`), and a record's member is found
in what is read wherever it was written (`Fields.get?_reread`).
-/

namespace Agents.Json

/-! ## Strings -/

section Strings

variable {c : Char} (rest : List Char)

theorem string_short {letter : Char} (hu : letter ≠ 'u') (h : unescape? letter = some c) :
    string .plain ('\\' :: letter :: rest) = emit (some c) (string .plain rest) := by
  have hescape : string .plain ('\\' :: letter :: rest) = string .escape (letter :: rest) := rfl
  rw [hescape, string_letter hu h]

theorem hexValue?_hexDigits : ∀ n < 32,
    hexValue? (hexDigit (n / 16)) = some (n / 16) ∧ hexValue? (hexDigit n) = some (n % 16) := by
  decide

theorem string_control (h : c.toNat < 32) :
    string .plain ('\\' :: 'u' :: '0' :: '0' :: hexDigit (c.toNat / 16) :: hexDigit c.toNat :: rest) =
      emit (some c) (string .plain rest) := by
  obtain ⟨hhigh, hlow⟩ := hexValue?_hexDigits c.toNat h
  have hvalue : 16 * (16 * (16 * (16 * 0 + 0) + 0) + c.toNat / 16) + c.toNat % 16 = c.toNat := by
    omega
  have hleading : isLeadingSurrogate c.toNat = false :=
    Bool.and_eq_false_imp.mpr fun hle => absurd (of_decide_eq_true hle) (by omega)
  have htrailing : isTrailingSurrogate c.toNat = false :=
    Bool.and_eq_false_imp.mpr fun hle => absurd (of_decide_eq_true hle) (by omega)
  have hzero : hexValue? '0' = some 0 := rfl
  simp only [string, hzero, hhigh, hlow, hvalue, hleading, htrailing, Char.ofNat_toNat]
  cases string .plain rest <;> rfl

theorem string_escapeChar (c : Char) :
    string .plain (escapeChar c ++ rest) = emit (some c) (string .plain rest) := by
  unfold escapeChar
  split_ifs with hquote hback hb ht hn hf hr hcontrol
  -- the seven characters that have a letter of their own
  iterate 7
    · subst c
      exact string_short rest (by decide) rfl
  · exact string_control rest hcontrol
  · exact string_plain hquote hback hcontrol rest

end Strings

theorem string_escape (s rest : List Char) :
    string .plain (escape s ++ '"' :: rest) = .ok (s, rest) := by
  induction s with
  | nil => rfl
  | cons c s ih =>
    have hcons : escape (c :: s) = escapeChar c ++ escape s := List.flatMap_cons
    rw [hcons, List.append_assoc, string_escapeChar, ih]
    rfl

/-! ## Integers -/

/-- Digits are taken one after the other as long as the number fits. -/
theorem takeDigits_eq {s : List Char} {n : ℕ} (h : Nat.ofDigitChars 10 s n ≤ maxSignificand) :
    takeDigits n s = (Nat.ofDigitChars 10 s n, s.length, []) := by
  have hle (s : List Char) (n : ℕ) : n ≤ Nat.ofDigitChars 10 s n := by
    induction s generalizing n with
    | nil => exact le_refl n
    | cons c s ih =>
      rw [Nat.ofDigitChars_cons]
      exact le_trans (by omega) (ih _)
  induction s generalizing n with
  | nil => rfl
  | cons c s ih =>
    rw [Nat.ofDigitChars_cons] at h
    have hnext : n * 10 + digitValue c = 10 * n + (c.toNat - '0'.toNat) := by
      rw [Nat.mul_comm]
      rfl
    rw [Nat.ofDigitChars_cons, takeDigits, hnext, if_pos (le_trans (hle s _) h), ih h]
    rfl

theorem unsignedNumber_toDigits (negative : Bool) {n : ℕ} (h : n ≤ maxSignificand) :
    ∃ count,
      unsignedNumber negative (Nat.toDigits 10 n) = afterDigits negative (n, count, []) [] := by
  have hdigits : ∀ c ∈ Nat.toDigits 10 n, isDigit c = true := Text.allDigits_toDigits n
  obtain ⟨c, s, hcs⟩ := List.exists_cons_of_ne_nil
    (Nat.toDigits_ne_nil : Nat.toDigits 10 n ≠ [])
  have hread : Nat.ofDigitChars 10 s (digitValue c) = n := by
    have hall : Nat.ofDigitChars 10 (c :: s) 0 = n := hcs ▸ Nat.ofDigitChars_ten_toDigits
    rwa [Nat.ofDigitChars_cons, Nat.mul_zero, Nat.zero_add] at hall
  have hzero : ¬ (c = '0' ∧ s.head?.any isDigit = true) := by
    rintro ⟨rfl, hs⟩
    rcases Nat.eq_zero_or_pos n with rfl | hpos
    · cases hcs
      cases hs
    · exact Pointer.head?_toDigits hpos (by rw [hcs, List.head?_cons])
  rw [hcs] at hdigits ⊢
  have hs : ∀ d ∈ s, isDigit d = true := fun d hd => hdigits d (List.mem_cons_of_mem c hd)
  rw [unsignedNumber_cons negative (hdigits c List.mem_cons_self) hzero,
    List.takeWhile_eq_self_iff.mpr hs, List.dropWhile_eq_nil_iff.mpr hs,
    takeDigits_eq (hread.trans_le h), hread]
  exact ⟨_, rfl⟩

/-- An integer of 64 bits, with or without a sign, is read back from its text. -/
theorem number_int {n : ℤ} (hlow : -2 ^ 63 ≤ n) (hhigh : n < 2 ^ 64) :
    number (toString n).toList = .ok (.int n, []) := by
  have hsize : Word.size 63 = 2 ^ 63 := rfl
  have hmax : maxSignificand = 2 ^ 64 - 1 := rfl
  obtain ⟨count, hread⟩ := unsignedNumber_toDigits (decide (n < 0)) (n := n.natAbs) (by omega)
  rw [number_eq, toList_int]
  split_ifs with hneg
  · rw [decide_eq_true hneg] at hread
    rw [onMark, if_pos rfl, hread]
    show (if n.natAbs = 0 ∨ Word.size 63 < n.natAbs then _ else _) = _
    rw [if_neg (by omega)]
    show Except.ok (Number.int (-(n.natAbs : ℤ)), []) = _
    rw [show -(n.natAbs : ℤ) = n by omega]
  · obtain ⟨c, s, hcs⟩ := List.exists_cons_of_ne_nil
      (Nat.toDigits_ne_nil : Nat.toDigits 10 n.natAbs ≠ [])
    have hminus : c ≠ '-' := by
      rintro rfl
      exact absurd (Text.allDigits_toDigits n.natAbs '-' (hcs ▸ List.mem_cons_self)) (by decide)
    rw [decide_eq_false hneg] at hread
    rw [hcs] at hread ⊢
    rw [onMark, if_neg hminus, hread]
    show Except.ok (Number.int (n.natAbs : ℤ), []) = _
    rw [show (n.natAbs : ℤ) = n by omega]

/-! ## Values -/

mutual

/-- How many containers stand inside one another. -/
def nesting : Json → ℕ
  | .arr items => itemsNesting items + 1
  | .obj fields => fieldsNesting fields + 1
  | .null | .bool _ | .num _ | .str _ => 0

def itemsNesting : List Json → ℕ
  | [] => 0
  | item :: rest => max (nesting item) (itemsNesting rest)

def fieldsNesting : List (String × Json) → ℕ
  | [] => 0
  | (_, v) :: rest => max (nesting v) (fieldsNesting rest)

end

theorem itemsNesting_le_iff {items : List Json} {d : ℕ} :
    itemsNesting items ≤ d ↔ ∀ a ∈ items, a.nesting ≤ d := by
  induction items with
  | nil => simp [itemsNesting]
  | cons item rest ih => rw [itemsNesting, max_le_iff, ih, List.forall_mem_cons]

theorem fieldsNesting_le_iff {fields : Fields} {d : ℕ} :
    fieldsNesting fields ≤ d ↔ ∀ member ∈ fields, member.2.nesting ≤ d := by
  induction fields with
  | nil => simp [fieldsNesting]
  | cons member rest ih => rw [fieldsNesting, max_le_iff, ih, List.forall_mem_cons]

mutual

def toTree : Json → ParseTree
  | .null => .scalar "null".toList .null
  | .bool true => .scalar "true".toList (.bool true)
  | .bool false => .scalar "false".toList (.bool false)
  | .num n => .scalar n.text.toList (.num n)
  | .str s => .scalar (quote s).toList (.str s)
  | .arr items => .node .list [] (itemEntries items)
  | .obj fields => .node .object [] (fieldEntries fields)

def itemEntries : List Json → List (Entry ParseTree)
  | [] => []
  | item :: rest => ⟨"", [], toTree item, []⟩ :: itemEntries rest

def fieldEntries : List (String × Json) → List (Entry ParseTree)
  | [] => []
  | (k, v) :: rest => ⟨k, (quote k).toList ++ [':'], toTree v, []⟩ :: fieldEntries rest

end

theorem itemEntries_eq (items : List Json) :
    itemEntries items = items.map fun item => ⟨"", [], toTree item, []⟩ := by
  induction items with
  | nil => rfl
  | cons item rest ih => rw [itemEntries, ih, List.map_cons]

theorem fieldEntries_eq (fields : Fields) : fieldEntries fields =
    fields.map fun member => ⟨member.1, (quote member.1).toList ++ [':'], toTree member.2, []⟩ := by
  induction fields with
  | nil => rfl
  | cons member rest ih => rw [fieldEntries, ih, List.map_cons]

theorem trail_itemEntries {items : List Json}
    (h : ∀ a ∈ items, (toTree a).text = a.compact.toList) :
    trail (itemEntries items) = (compactItems items).toList := by
  induction items with
  | nil => rfl
  | cons item rest ih =>
    obtain ⟨hitem, hrest⟩ := List.forall_mem_cons.mp h
    rw [toList_items, ← ih hrest, ← hitem]
    simp [itemEntries, trail, Entry.text]

theorem trail_fieldEntries {fields : Fields}
    (h : ∀ member ∈ fields, (toTree member.2).text = member.2.compact.toList) :
    trail (fieldEntries fields) = (compactFields fields).toList := by
  induction fields with
  | nil => rfl
  | cons member rest ih =>
    obtain ⟨k, v⟩ := member
    obtain ⟨hvalue, hrest⟩ := List.forall_mem_cons.mp h
    rw [toList_fields, ← ih hrest, ← hvalue]
    simp [fieldEntries, trail, Entry.text]

theorem text_toTree (a : Json) : (toTree a).text = a.compact.toList := by
  induction a using Json.induct with
  | null => rfl
  | bool b => cases b <;> rfl
  | num n => rfl
  | str s => rfl
  | arr items ih =>
    cases items with
    | nil => rfl
    | cons item rest =>
      obtain ⟨hitem, hrest⟩ := List.forall_mem_cons.mp ih
      rw [toTree, itemEntries, ParseTree.text_node, ParseTree.joined_cons,
        trail_itemEntries hrest, toList_arr, ← hitem]
      simp [Entry.text, Container.opener, Container.closer]
  | obj fields ih =>
    cases fields with
    | nil => rfl
    | cons member rest =>
      obtain ⟨k, v⟩ := member
      obtain ⟨hvalue, hrest⟩ := List.forall_mem_cons.mp ih
      rw [toTree, fieldEntries, ParseTree.text_node, ParseTree.joined_cons,
        trail_fieldEntries hrest, toList_obj, ← hvalue]
      simp [Entry.text, Container.opener, Container.closer]

/-- Every number in the value is read back from its text. -/
inductive Legible : Json → Prop where
  | null : Legible .null
  | bool (b : Bool) : Legible (.bool b)
  | num {n : Number} (h : number n.text.toList = .ok (n, [])) : Legible (.num n)
  | str (s : String) : Legible (.str s)
  | arr {items : List Json} (h : ∀ a ∈ items, Legible a) : Legible (.arr items)
  | obj {fields : Fields} (h : ∀ member ∈ fields, Legible member.2) : Legible (.obj fields)

theorem isScalar_quote (s : String) : IsScalar (quote s).toList (.str s) := by
  have hscalar : IsScalar ('"' :: (escape s.toList ++ ['"'])) (.str (String.ofList s.toList)) :=
    .string (string_escape s.toList [])
  rwa [toList_quote, ← String.ofList_toList (s := s), String.toList_ofList]

theorem isHead_quote (k : String) : IsHead .object ((quote k).toList ++ [':']) k := by
  have hhead : IsHead .object ([] ++ '"' :: (escape k.toList ++ '"' :: ([] ++ ':' :: [])))
      (String.ofList k.toList) :=
    .object blank_nil (string_escape k.toList []) blank_nil blank_nil
  rw [String.ofList_toList] at hhead
  simpa [toList_quote] using hhead

theorem valid_toTree {a : Json} (h : a.Legible) {d : ℕ} (hd : a.nesting ≤ d) :
    (toTree a).Valid d := by
  induction h generalizing d with
  | null => exact .scalar .nullWord
  | bool b =>
    cases b with
    | true => exact .scalar .trueWord
    | false => exact .scalar .falseWord
  | num h => exact .scalar (.number h)
  | str s => exact .scalar (isScalar_quote s)
  | @arr items h ih =>
    obtain ⟨d, rfl⟩ : ∃ e, d = e + 1 := ⟨d - 1, by rw [nesting] at hd; omega⟩
    have hitems : ∀ a ∈ items, a.nesting ≤ d :=
      itemsNesting_le_iff.mp (Nat.le_of_succ_le_succ hd)
    rw [toTree, itemEntries_eq]
    refine .node blank_nil ?_ ?_
    · intro e he
      obtain ⟨item, -, rfl⟩ := List.mem_map.mp he
      exact ⟨.list blank_nil, blank_nil⟩
    · intro e he
      obtain ⟨item, hitem, rfl⟩ := List.mem_map.mp he
      exact ih item hitem (hitems item hitem)
  | @obj fields h ih =>
    obtain ⟨d, rfl⟩ : ∃ e, d = e + 1 := ⟨d - 1, by rw [nesting] at hd; omega⟩
    have hfields : ∀ member ∈ fields, member.2.nesting ≤ d :=
      fieldsNesting_le_iff.mp (Nat.le_of_succ_le_succ hd)
    rw [toTree, fieldEntries_eq]
    refine .node blank_nil ?_ ?_
    · intro e he
      obtain ⟨member, -, rfl⟩ := List.mem_map.mp he
      exact ⟨isHead_quote member.1, blank_nil⟩
    · intro e he
      obtain ⟨member, hmember, rfl⟩ := List.mem_map.mp he
      exact ih member hmember (hfields member hmember)

def reread (a : Json) : Json := (toTree a).value

def rereadFields (fields : Fields) : Fields :=
  Fields.ofList (fields.map fun member => (member.1, reread member.2))

theorem parse?_compact {a : Json} (h : a.Legible) (hnesting : a.nesting ≤ maxDepth) :
    parse? a.compact = some a.reread := by
  let spelling : Spelling a.compact.toList :=
    ⟨[], toTree a, [], blank_nil, valid_toTree h hnesting, blank_nil, by simp [text_toTree]⟩
  have hparse : parse a.compact = .ok a.reread := parse_eq_ok_iff.mpr spelling.document_eq
  rw [parse?, hparse]
  rfl

theorem reread_arr (items : List Json) : reread (.arr items) = .arr (items.map reread) := by
  rw [reread, toTree, ParseTree.value_node, itemEntries_eq]
  simp [Container.build, Entry.member, Function.comp_def, reread]

theorem reread_obj (fields : Fields) : reread (.obj fields) = .obj (rereadFields fields) := by
  rw [reread, toTree, ParseTree.value_node, fieldEntries_eq]
  simp [Container.build, Entry.member, Function.comp_def, reread, ofMembers, rereadFields]

/-! ## Values in order -/

namespace Fields

theorem insert_last {fields : Fields} {key : String} (h : ∀ member ∈ fields, member.1 < key)
    (value : Json) : insert key value fields = fields ++ [(key, value)] := by
  induction fields with
  | nil => rfl
  | cons head rest ih =>
    obtain ⟨k, v⟩ := head
    obtain ⟨hhead, hrest⟩ := List.forall_mem_cons.mp h
    rw [insert, if_neg (String.lt_asymm hhead), if_neg (String.ne_of_lt hhead), ih hrest,
      List.cons_append]

theorem ofList_of_ascending {fields : Fields} (h : (fields.map (·.1)).Pairwise (· < ·)) :
    ofList fields = fields := by
  induction fields using List.reverseRecOn with
  | nil => rfl
  | append_singleton fields last ih =>
    obtain ⟨key, value⟩ := last
    rw [List.map_append, List.pairwise_append] at h
    obtain ⟨hfields, -, hlast⟩ := h
    have hstep : ofList (fields ++ [(key, value)]) = insert key value (ofList fields) := by
      rw [ofList, List.foldl_append]
      rfl
    rw [hstep, ih hfields, insert_last]
    intro member hmember
    exact hlast _ (List.mem_map_of_mem hmember) _ List.mem_cons_self

end Fields

/-- A value as programs hold it: integers have 64 bits, members are in ascending order of their
keys. Of doubles it is asked that printing and reading them loses nothing. -/
inductive Proper : Json → Prop where
  | null : Proper .null
  | bool (b : Bool) : Proper (.bool b)
  | int {n : ℤ} (hlow : -2 ^ 63 ≤ n) (hhigh : n < 2 ^ 64) : Proper (.num (.int n))
  | float {x : Float} (h : number (floatLayout.text x).toList = .ok (.float x, [])) :
      Proper (.num (.float x))
  | str (s : String) : Proper (.str s)
  | arr {items : List Json} (h : ∀ a ∈ items, Proper a) : Proper (.arr items)
  | obj {fields : Fields} (hkeys : (fields.map (·.1)).Pairwise (· < ·))
      (h : ∀ member ∈ fields, Proper member.2) : Proper (.obj fields)

theorem Proper.legible {a : Json} (h : a.Proper) : a.Legible := by
  induction h with
  | null => exact .null
  | bool b => exact .bool b
  | int hlow hhigh => exact .num (number_int hlow hhigh)
  | float h => exact .num h
  | str s => exact .str s
  | arr _ ih => exact .arr ih
  | obj _ _ ih => exact .obj ih

theorem Proper.reread {a : Json} (h : a.Proper) : a.reread = a := by
  induction h with
  | null => rfl
  | bool b => cases b <;> rfl
  | int hlow hhigh => rfl
  | float h => rfl
  | str s => rfl
  | arr _ ih => rw [reread_arr, List.map_congr_left ih, List.map_id']
  | @obj fields hkeys _ ih =>
    have hmembers : fields.map (fun member => (member.1, Json.reread member.2)) = fields := by
      refine (List.map_congr_left fun member hmember => ?_).trans (List.map_id fields)
      exact Prod.ext rfl (ih member hmember)
    rw [reread_obj, rereadFields, hmembers, Fields.ofList_of_ascending hkeys]

/-! ## Members of records -/

namespace Fields

theorem get?_map (key : String) (f : Json → Json) (fields : Fields) :
    get? key (fields.map fun member => (member.1, f member.2)) = (get? key fields).map f := by
  induction fields with
  | nil => rfl
  | cons member rest ih =>
    rw [List.map_cons, get?_cons, get?_cons, ih]
    split_ifs <;> rfl

theorem get?_ne_none {fields : Fields} {member : String × Json} (h : member ∈ fields) :
    get? member.1 fields ≠ none := by
  induction fields with
  | nil => cases h
  | cons head rest ih =>
    rw [get?_cons]
    split_ifs with hkey
    · exact nofun
    · refine ih ((List.mem_cons.mp h).resolve_left ?_)
      rintro rfl
      exact hkey rfl

/-- Members with different names are found wherever they are put. -/
theorem get?_ofList_eq {fields : Fields} (hnames : (fields.map (·.1)).Nodup) (key : String) :
    get? key (ofList fields) = get? key fields := by
  cases h : get? key fields with
  | some v => exact get?_ofList hnames (mem_of_get? h)
  | none =>
    by_contra hsome
    obtain ⟨v, hv⟩ := Option.ne_none_iff_exists'.mp hsome
    exact get?_ne_none (mem_of_mem_ofList (mem_of_get? hv)) h

/-- A member that was written is read. -/
theorem get?_reread {fields : Fields} (hnames : (fields.map (·.1)).Nodup) (key : String) :
    get? key (rereadFields fields) = (get? key fields).map reread := by
  rw [rereadFields, get?_ofList_eq, get?_map]
  rwa [List.map_map]

end Fields

end Agents.Json
