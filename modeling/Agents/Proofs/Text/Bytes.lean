/-! # The bytes of a text

A text is turned into bytes character by character, so its bytes are a concatenation. Different
texts have different bytes, bytes that are read as a text are the bytes of that text, and a
character of ASCII is one byte.

Only the first byte of a character can be below 128. So a text that ends with the bytes of an ASCII
character and some more characters ends with these characters (`exists_prefix_of_bytes`).
-/

namespace Agents.Text

/-! ## Lists of bytes -/

theorem toList_loop (bs : ByteArray) (i : Nat) (acc : List UInt8) :
    ByteArray.toList.loop bs i acc = acc.reverse ++ bs.data.toList.drop i := by
  fun_induction ByteArray.toList.loop bs i acc with
  | case1 i acc h ih =>
    have hi : i < bs.data.toList.length := h
    have hget : bs.get! i = bs.data.toList[i] := getElem!_pos bs.data i h
    rw [ih, List.drop_eq_getElem_cons hi, hget, List.reverse_cons, List.append_assoc]
    rfl
  | case2 i acc h =>
    rw [List.drop_eq_nil_of_le (Nat.le_of_not_lt h), List.append_nil]

theorem toList_eq (bs : ByteArray) : bs.toList = bs.data.toList := toList_loop bs 0 []

@[simp] theorem toList_toByteArray (bs : List UInt8) : bs.toByteArray.toList = bs := by
  rw [toList_eq, List.toList_data_toByteArray]

@[simp] theorem toByteArray_toList (bs : ByteArray) : bs.toList.toByteArray = bs := by
  apply ByteArray.ext
  rw [← Array.toList_inj, List.toList_data_toByteArray, toList_eq]

/-! ## Texts and their bytes -/

theorem bytes_eq (s : String) : s.toUTF8.toList = s.toList.flatMap String.utf8EncodeChar := by
  rw [String.toUTF8_eq_toByteArray, ← String.utf8Encode_toList]
  exact toList_toByteArray _

@[simp] theorem bytes_append (s t : String) :
    (s ++ t).toUTF8.toList = s.toUTF8.toList ++ t.toUTF8.toList := by
  simp only [bytes_eq, String.toList_append, List.flatMap_append]

theorem bytes_injective {s t : String} (h : s.toUTF8.toList = t.toUTF8.toList) : s = t := by
  have hbytes := congrArg List.toByteArray h
  rw [toByteArray_toList, toByteArray_toList] at hbytes
  exact String.toByteArray_inj.mp hbytes

theorem encodeChar_injective {s t : List Char}
    (h : s.flatMap String.utf8EncodeChar = t.flatMap String.utf8EncodeChar) : s = t := by
  have hsame : String.ofList s = String.ofList t := bytes_injective (by
    rw [bytes_eq, bytes_eq, String.toList_ofList, String.toList_ofList]
    exact h)
  exact String.ofList_injective hsame

theorem fromUTF8?_eq_some_iff {bs : List UInt8} {s : String} :
    String.fromUTF8? bs.toByteArray = some s ↔ bs = s.toUTF8.toList := by
  unfold String.fromUTF8?
  constructor
  · intro h
    split at h
    · next hvalid =>
      cases h
      exact (toList_toByteArray bs).symm
    · cases h
  · rintro rfl
    rw [toByteArray_toList]
    exact dif_pos s.isValidUTF8

/-! ## Characters of ASCII -/

def byteOf (c : Char) : UInt8 := UInt8.ofNat c.toNat

theorem encodeChar_of_ascii {c : Char} (h : c.toNat < 128) : String.utf8EncodeChar c = [byteOf c] := by
  have hle : c.val.toNat ≤ 127 := Nat.le_of_lt_succ h
  simp only [String.utf8EncodeChar, if_pos hle]
  rfl

theorem bytes_ofList_ascii {cs : List Char} (h : ∀ c ∈ cs, c.toNat < 128) :
    (String.ofList cs).toUTF8.toList = cs.map byteOf := by
  rw [bytes_eq, String.toList_ofList]
  induction cs with
  | nil => rfl
  | cons c rest ih =>
    have hrest := ih fun d hd => h d (List.mem_cons_of_mem c hd)
    rw [List.flatMap_cons, encodeChar_of_ascii (h c List.mem_cons_self), hrest]
    rfl

/-- Only the first byte of a character can be that of a character of ASCII. -/
theorem le_of_mem_tail_encodeChar {c : Char} {b : UInt8}
    (h : b ∈ (String.utf8EncodeChar c).tail) : 128 ≤ b.toNat := by
  have hcontinues (n : Nat) : 128 ≤ (UInt8.ofNat (n % 64 + 128)).toNat := by
    rw [UInt8.toNat_ofNat']
    omega
  unfold String.utf8EncodeChar at h
  dsimp only at h
  split at h
  · cases h
  split at h
  · rw [List.mem_singleton.mp h]
    exact hcontinues _
  split at h
  all_goals
    simp only [List.tail_cons, List.mem_cons, List.not_mem_nil, or_false] at h
    rcases h with rfl | rfl | rfl <;> exact hcontinues _

/-- A text whose bytes end with those of another text, which begins with a character of ASCII, ends
with that text. -/
theorem exists_prefix_of_bytes {s : List Char} {c : Char} (hc : c.toNat < 128) {t : List Char}
    {front : List UInt8}
    (h : s.flatMap String.utf8EncodeChar = front ++ (c :: t).flatMap String.utf8EncodeChar) :
    ∃ q, s = q ++ c :: t := by
  induction s generalizing front with
  | nil => simp [encodeChar_of_ascii hc] at h
  | cons d rest ih =>
    rw [List.flatMap_cons] at h
    rcases List.append_eq_append_iff.mp h with ⟨front', rfl, hrest⟩ | ⟨shared, hd, hrest⟩
    -- the first character lies before the end that is looked for
    · obtain ⟨q, rfl⟩ := ih hrest
      exact ⟨d :: q, rfl⟩
    cases front with
    | nil => exact ⟨[], encodeChar_injective h⟩
    | cons b front =>
      -- the end would have to begin within the bytes of one character
      cases shared with
      | nil =>
        obtain ⟨q, rfl⟩ := @ih [] hrest.symm
        exact ⟨d :: q, rfl⟩
      | cons b' shared =>
        rw [List.flatMap_cons, encodeChar_of_ascii hc] at hrest
        obtain ⟨rfl, -⟩ := List.cons.inj hrest
        have hle : 128 ≤ (byteOf c).toNat :=
          le_of_mem_tail_encodeChar (c := d) (by simp [hd])
        have hlt : (byteOf c).toNat < 128 := by
          unfold byteOf
          rw [UInt8.toNat_ofNat']
          omega
        omega

end Agents.Text
