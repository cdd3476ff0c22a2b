import Agents.Json.Pointer
import Agents.Proofs.Text.Digits
import Mathlib.Logic.Function.Basic

/-! # A written pointer leads where its tokens lead

Reading a pointer gives back the tokens it was written from (`tokens?_ofTokens`), so different paths
have different pointers. The position of an item is found again by its decimal digits
(`index?_toString`), and that of a member by its key (`Fields.get?_zip`, `Fields.insert_zip`).

Something can be written exactly where something is found, and no place apart from it changes
(`replaceAt?_eq_none_iff`, `pointer?_replaceAt?`).
-/

namespace Agents.Json

namespace Pointer

/-! ## Tokens -/

theorem slash_notMem_escape (token : List Char) : '/' ∉ escape token := by
  induction token with
  | nil => simp [escape]
  | cons c rest ih =>
    unfold escape
    split
    · simp [ih]
    · split
      · simp [ih]
      · next h => simp [ih, Ne.symm h]

def Plain (token : List Char) : Prop := '/' ∉ token ∧ '~' ∉ token

/-- A plain token is written as it is; any other one gets longer, and is not plain either. -/
theorem escape_cases (token : List Char) :
    Plain token ∧ escape token = token ∨
      ¬ Plain token ∧ '~' ∈ escape token ∧ token.length < (escape token).length := by
  induction token with
  | nil => exact .inl ⟨⟨List.not_mem_nil, List.not_mem_nil⟩, rfl⟩
  | cons c rest ih =>
    have hlength : rest.length ≤ (escape rest).length := by
      rcases ih with ⟨-, heq⟩ | ⟨-, -, hlt⟩
      · exact Nat.le_of_eq (congrArg List.length heq).symm
      · exact Nat.le_of_lt hlt
    unfold escape
    by_cases htilde : c = '~'
    · subst htilde
      refine .inr ⟨fun h => h.2 List.mem_cons_self, List.mem_cons_self, ?_⟩
      simp only [if_pos, List.length_cons]
      omega
    by_cases hslash : c = '/'
    · subst hslash
      refine .inr ⟨fun h => h.1 List.mem_cons_self, ?_, ?_⟩
      · rw [if_neg htilde, if_pos rfl]
        exact List.mem_cons_self
      · simp only [if_neg htilde, if_pos, List.length_cons]
        omega
    rw [if_neg htilde, if_neg hslash]
    have hplain : Plain (c :: rest) ↔ Plain rest := by
      simp [Plain, Ne.symm htilde, Ne.symm hslash]
    rw [hplain]
    rcases ih with ⟨hrest, heq⟩ | ⟨hrest, hmem, hlt⟩
    · exact .inl ⟨hrest, congrArg (c :: ·) heq⟩
    · exact .inr ⟨hrest, List.mem_cons_of_mem c hmem, Nat.succ_lt_succ hlt⟩

theorem splitSlashes_of_notMem {piece : List Char} (h : '/' ∉ piece) :
    splitSlashes piece = [piece] := by
  induction piece with
  | nil => rfl
  | cons c rest ih =>
    obtain ⟨hc, hrest⟩ := not_or.mp (List.mem_cons.not.mp h)
    rw [splitSlashes, if_neg (Ne.symm hc), ih hrest]

theorem splitSlashes_append {piece : List Char} (h : '/' ∉ piece) (rest : List Char) :
    splitSlashes (piece ++ '/' :: rest) = piece :: splitSlashes rest := by
  induction piece with
  | nil => rw [List.nil_append, splitSlashes, if_pos rfl]
  | cons c more ih =>
    obtain ⟨hc, hmore⟩ := not_or.mp (List.mem_cons.not.mp h)
    rw [List.cons_append, splitSlashes, if_neg (Ne.symm hc), ih hmore]

theorem toList_ofTokens_cons (token : String) (rest : List String) :
    (ofTokens (token :: rest)).toList =
      '/' :: (escape token.toList ++ (ofTokens rest).toList) := by
  simp [ofTokens, escapeToken]

theorem splitSlashes_ofTokens (token : String) (rest : List String) :
    splitSlashes (escape token.toList ++ (ofTokens rest).toList) =
      (token :: rest).map fun token => escape token.toList := by
  induction rest generalizing token with
  | nil =>
    rw [show (ofTokens []).toList = [] from rfl, List.append_nil]
    exact splitSlashes_of_notMem (slash_notMem_escape _)
  | cons next rest ih =>
    rw [toList_ofTokens_cons, splitSlashes_append (slash_notMem_escape _), ih next]
    rfl

theorem tokens?_ofTokens (tokens : List String) : tokens? (ofTokens tokens) = some tokens := by
  cases tokens with
  | nil => rfl
  | cons token rest =>
    have hread : (fun piece => String.ofList (unescape piece)) ∘ (fun t : String => escape t.toList)
        = id := by
      funext t
      simp [unescape_escape]
    rw [tokens?, toList_ofTokens_cons]
    show some ((splitSlashes (escape token.toList ++ (ofTokens rest).toList)).map _) = _
    rw [splitSlashes_ofTokens, List.map_map, hread, List.map_id]

theorem ofTokens_injective : Function.Injective ofTokens := by
  intro ts us h
  have hread := congrArg tokens? h
  rw [tokens?_ofTokens, tokens?_ofTokens] at hread
  exact Option.some.inj hread

/-! ## Positions -/

theorem head?_toDigits {n : Nat} (h : 0 < n) : (Nat.toDigits 10 n).head? ≠ some '0' := by
  induction n using Nat.strongRecOn with
  | _ n ih =>
    by_cases hsmall : n < 10
    · have hdigit : ∀ d < 10, 0 < d → Nat.digitChar d ≠ '0' := by decide
      rw [Nat.toDigits_of_lt_base hsmall, List.head?_cons]
      exact fun heq => hdigit n hsmall h (Option.some.inj heq)
    · have hpos : 0 < n / 10 := by omega
      rw [Nat.toDigits_of_base_le (by decide) (by omega), List.head?_append]
      have hdigits : Nat.toDigits 10 (n / 10) ≠ [] := Nat.toDigits_ne_nil
      obtain ⟨c, cs, hcs⟩ := List.exists_cons_of_ne_nil hdigits
      have hhead := ih (n / 10) (by omega) hpos
      rw [hcs] at hhead ⊢
      exact hhead

theorem index?_toString {n : Nat} (h : n < Word.size 64) : index? (toString n) = some n := by
  have htext : (toString n).toList = Nat.toDigits 10 n := Nat.toList_repr
  have hfirst : (Nat.toDigits 10 n).head? ≠ some '0' ∨ (Nat.toDigits 10 n).length = 1 := by
    rcases Nat.eq_zero_or_pos n with rfl | hpos
    · exact .inr rfl
    · exact .inl (head?_toDigits hpos)
  have hall : (Nat.toDigits 10 n).all Char.isDigit = true :=
    List.all_eq_true.mpr (Text.allDigits_toDigits n)
  have hvalue : (Nat.toDigits 10 n).foldl (fun n c => 10 * n + (c.toNat - '0'.toNat)) 0 = n :=
    Nat.ofDigitChars_toDigits (by decide) (by decide)
  unfold index?
  rw [htext]
  simp only
  rw [if_pos ⟨Nat.toDigits_ne_nil, hall, hfirst⟩, hvalue, if_pos h]

theorem eq_toString_of_index? {token : String} {n : Nat} (h : index? token = some n) :
    token = toString n := by
  unfold index? at h
  obtain ⟨⟨hne, hdigits, hfirst⟩, h⟩ := Option.ite_none_right_eq_some.mp h
  obtain ⟨-, hn⟩ := Option.ite_none_right_eq_some.mp h
  have hread : Nat.ofDigitChars 10 token.toList 0 = n := Option.some.inj hn
  have hcanonical := Text.toDigits_ofDigitChars (List.all_eq_true.mp hdigits) hne hfirst
  rw [hread] at hcanonical
  rw [← String.toList_inj, ← hcanonical]
  exact Nat.toList_repr.symm

/-! ## Places -/

/-- Neither of two places holds the other. -/
def Apart (tokens others : List String) : Prop := ¬ tokens <+: others ∧ ¬ others <+: tokens

theorem Apart.of_cons {token : String} {tokens others : List String}
    (h : Apart (token :: tokens) (token :: others)) : Apart tokens others :=
  ⟨fun hle => h.1 (List.cons_prefix_cons.mpr ⟨rfl, hle⟩),
    fun hle => h.2 (List.cons_prefix_cons.mpr ⟨rfl, hle⟩)⟩

theorem replace?_cons_obj (new : Json) (token : String) (rest : List String) (fields : Fields) :
    replace? new (token :: rest) (.obj fields) = (Fields.get? token fields).bind fun found =>
      (replace? new rest found).map fun json => .obj (Fields.insert token json fields) := by
  rw [replace?]
  simp only [Option.map_eq_bind]
  rfl

theorem replace?_cons_arr (new : Json) (token : String) (rest : List String) (items : List Json) :
    replace? new (token :: rest) (.arr items) = (index? token).bind fun i => items[i]?.bind
      fun found => (replace? new rest found).map fun json => .arr (items.set i json) := by
  rw [replace?]
  simp only [Option.map_eq_bind]
  rfl

/-- Something is written exactly where something is found. -/
theorem replace?_eq_none_iff {new : Json} {tokens : List String} {value : Json} :
    replace? new tokens value = none ↔ tokens.foldlM step? value = none := by
  induction tokens generalizing value with
  | nil => exact iff_of_false nofun nofun
  | cons token rest ih =>
    rw [List.foldlM_cons]
    cases value with
    | obj fields =>
      rw [replace?_cons_obj, step?]
      cases Fields.get? token fields with
      | none => exact iff_of_true rfl rfl
      | some found => exact Option.map_eq_none_iff.trans ih
    | arr items =>
      rw [replace?_cons_arr, step?]
      cases index? token with
      | none => exact iff_of_true rfl rfl
      | some i =>
        simp only [Option.bind_some]
        cases items[i]? with
        | none => exact iff_of_true rfl rfl
        | some found => exact Option.map_eq_none_iff.trans ih
    | _ => exact iff_of_true rfl rfl

theorem foldlM_step?_replace?_self {new : Json} {tokens : List String} {value out : Json}
    (h : replace? new tokens value = some out) : tokens.foldlM step? out = some new := by
  induction tokens generalizing value out with
  | nil => exact h.symm
  | cons token rest ih =>
    rw [List.foldlM_cons]
    cases value with
    | obj fields =>
      rw [replace?_cons_obj] at h
      obtain ⟨found, -, h⟩ := Option.bind_eq_some_iff.mp h
      obtain ⟨json, hjson, rfl⟩ := Option.map_eq_some_iff.mp h
      rw [step?, Fields.get?_insert_self]
      exact ih hjson
    | arr items =>
      rw [replace?_cons_arr] at h
      obtain ⟨i, hi, h⟩ := Option.bind_eq_some_iff.mp h
      obtain ⟨found, hfound, h⟩ := Option.bind_eq_some_iff.mp h
      obtain ⟨json, hjson, rfl⟩ := Option.map_eq_some_iff.mp h
      rw [step?, hi, Option.bind_some,
        List.getElem?_set_self (List.getElem?_eq_some_iff.mp hfound).1]
      exact ih hjson
    | _ => cases h

/-- What is written at a place leaves every place apart from it as it was. -/
theorem foldlM_step?_replace? {new : Json} {tokens others : List String} {value out : Json}
    (h : replace? new tokens value = some out) (hapart : Apart tokens others) :
    others.foldlM step? out = others.foldlM step? value := by
  induction tokens generalizing value out others with
  | nil => exact (hapart.1 List.nil_prefix).elim
  | cons token rest ih =>
    cases others with
    | nil => exact (hapart.2 List.nil_prefix).elim
    | cons other more =>
      rw [List.foldlM_cons, List.foldlM_cons]
      cases value with
      | obj fields =>
        rw [replace?_cons_obj] at h
        obtain ⟨found, hfound, h⟩ := Option.bind_eq_some_iff.mp h
        obtain ⟨json, hjson, rfl⟩ := Option.map_eq_some_iff.mp h
        by_cases hother : other = token
        · subst hother
          rw [step?, step?, Fields.get?_insert_self, hfound]
          exact ih hjson hapart.of_cons
        · rw [step?, step?, Fields.get?_insert_ne hother]
      | arr items =>
        rw [replace?_cons_arr] at h
        obtain ⟨i, hi, h⟩ := Option.bind_eq_some_iff.mp h
        obtain ⟨found, hfound, h⟩ := Option.bind_eq_some_iff.mp h
        obtain ⟨json, hjson, rfl⟩ := Option.map_eq_some_iff.mp h
        rw [step?, step?]
        cases hindex : index? other with
        | none => rfl
        | some j =>
          simp only [Option.bind_some]
          by_cases hj : i = j
          · subst hj
            obtain rfl : other = token :=
              (eq_toString_of_index? hindex).trans (eq_toString_of_index? hi).symm
            rw [List.getElem?_set_self (List.getElem?_eq_some_iff.mp hfound).1, hfound]
            exact ih hjson hapart.of_cons
          · rw [List.getElem?_set_ne hj]
      | _ => cases h

end Pointer

theorem replaceAt?_eq_none_iff {pointer : String} {new value : Json} :
    replaceAt? pointer new value = none ↔ pointer? pointer value = none := by
  unfold replaceAt? pointer?
  cases Pointer.tokens? pointer with
  | none => exact iff_of_true rfl rfl
  | some tokens => exact Pointer.replace?_eq_none_iff

theorem pointer?_replaceAt? {pointer : String} {new value out : Json}
    (h : replaceAt? pointer new value = some out) {place : List String}
    (hapart : ∀ tokens ∈ Pointer.tokens? pointer, Pointer.Apart tokens place) :
    pointer? (Pointer.ofTokens place) out = pointer? (Pointer.ofTokens place) value := by
  obtain ⟨tokens, htokens, hreplace⟩ := Option.bind_eq_some_iff.mp h
  rw [pointer?, pointer?, Pointer.tokens?_ofTokens]
  exact Pointer.foldlM_step?_replace? hreplace (hapart tokens htokens)

/-! ## Members -/

namespace Fields

theorem get?_zip {keys : List String} (h : keys.Pairwise (· < ·)) {values : List Json} {i : Nat}
    {key : String} {value : Json} (hkey : keys[i]? = some key) (hvalue : values[i]? = some value) :
    get? key (keys.zip values) = some value := by
  induction keys generalizing values i with
  | nil => cases hkey
  | cons k rest ih =>
    obtain ⟨hfirst, hrest⟩ := List.pairwise_cons.mp h
    cases values with
    | nil => cases hvalue
    | cons v values =>
      cases i with
      | zero =>
        cases hkey
        cases hvalue
        exact if_pos rfl
      | succ i =>
        have hne : k ≠ key := String.ne_of_lt (hfirst key (List.mem_of_getElem? hkey))
        rw [List.zip_cons_cons, get?_cons, if_neg hne]
        exact ih hrest hkey hvalue

/-- Among members whose keys are in order, a key that is there keeps its position. -/
theorem insert_zip {keys : List String} (h : keys.Pairwise (· < ·)) {values : List Json} {i : Nat}
    {key : String} (hkey : keys[i]? = some key) (hi : i < values.length) (new : Json) :
    insert key new (keys.zip values) = keys.zip (values.set i new) := by
  induction keys generalizing values i with
  | nil => cases hkey
  | cons k rest ih =>
    obtain ⟨hfirst, hrest⟩ := List.pairwise_cons.mp h
    cases values with
    | nil => cases hi
    | cons v values =>
      cases i with
      | zero =>
        cases hkey
        rw [List.zip_cons_cons, insert, if_neg (String.lt_irrefl _), if_pos rfl]
        rfl
      | succ i =>
        have hlt : k < key := hfirst key (List.mem_of_getElem? hkey)
        rw [List.zip_cons_cons, insert, if_neg (String.lt_asymm hlt), if_neg (String.ne_of_lt hlt),
          ih hrest hkey (Nat.lt_of_succ_lt_succ hi)]
        rfl

end Fields

end Agents.Json
