import Agents.Proofs.Text.Bytes
import Agents.Url.Percent
import Mathlib.Data.List.Basic

/-! # Percent-encoded texts

An encoded text holds no character of its set, unless that is one that bytes are written with
(`Percent.mem_encode`), and a text without characters of the set stays as it is. If the percent sign
is in the set, what was encoded can be decoded (`Percent.decode_encode`).
-/

namespace Agents.Url.Percent

/-! ## Bytes -/

def escapes : List Char := "%0123456789ABCDEF".toList

theorem hexDigit_mem {n : Nat} (h : n < 16) : hexDigit n ∈ escapes := by
  have hall : ∀ n < 16, hexDigit n ∈ escapes := by decide +kernel
  exact hall n h

theorem hexValue?_hexDigit {n : Nat} (h : n < 16) : hexValue? (hexDigit n) = some n := by
  have hall : ∀ n < 16, hexValue? (hexDigit n) = some n := by decide +kernel
  exact hall n h

theorem high_lt (b : UInt8) : b.toNat / 16 < 16 :=
  Nat.div_lt_of_lt_mul b.toNat_lt

theorem low_lt (b : UInt8) : b.toNat % 16 < 16 := Nat.mod_lt _ (by decide)

theorem mem_escapes {b : UInt8} {c : Char} (h : c ∈ encodeByte b) : c ∈ escapes := by
  simp only [encodeByte, List.mem_cons, List.not_mem_nil, or_false] at h
  rcases h with rfl | rfl | rfl
  · decide
  · exact hexDigit_mem (high_lt b)
  · exact hexDigit_mem (low_lt b)

/-! ## Encoding -/

variable {set set' : Char → Bool} {s : List Char} {c : Char}

theorem encode_cons (set : Char → Bool) (c : Char) (s : List Char) : encode set (c :: s) =
    (if set c then (String.utf8EncodeChar c).flatMap encodeByte else [c]) ++ encode set s := rfl

/-- What an encoded text holds was there before, or is part of an encoded byte. -/
theorem mem_encode (h : c ∈ encode set s) : (c ∈ s ∧ set c = false) ∨ c ∈ escapes := by
  obtain ⟨d, hd, hc⟩ := List.mem_flatMap.mp h
  split at hc
  · obtain ⟨b, -, hb⟩ := List.mem_flatMap.mp hc
    exact .inr (mem_escapes hb)
  · next hset =>
    obtain rfl := List.mem_singleton.mp hc
    exact .inl ⟨hd, by simpa using hset⟩

/-- An encoded text holds nothing of a smaller set without percent signs and digits. -/
theorem not_set_of_mem_encode (hsubset : ∀ c, set c = false → set' c = false)
    (hescapes : ∀ c ∈ escapes, set' c = false) (h : c ∈ encode set s) : set' c = false := by
  rcases mem_encode h with ⟨_, hc⟩ | hc
  · exact hsubset c hc
  · exact hescapes c hc

theorem encode_of_plain (h : ∀ c ∈ s, set c = false) : encode set s = s := by
  induction s with
  | nil => rfl
  | cons c rest ih =>
    rw [encode_cons, h c List.mem_cons_self, ih fun d hd => h d (List.mem_cons_of_mem c hd)]
    rfl

theorem encode_eq_nil : encode set s = [] ↔ s = [] := by
  constructor
  · intro h
    cases s with
    | nil => rfl
    | cons c rest =>
      rw [encode_cons] at h
      have hfirst := (List.append_eq_nil_iff.mp h).1
      split at hfirst
      · have hbytes : String.utf8EncodeChar c ≠ [] := by
          unfold String.utf8EncodeChar
          dsimp only
          split
          · simp
          split
          · simp
          split <;> simp
        cases hc : String.utf8EncodeChar c with
        | nil => exact absurd hc hbytes
        | cons b bs =>
          rw [hc, List.flatMap_cons] at hfirst
          cases (List.append_eq_nil_iff.mp hfirst).1
      · cases hfirst
  · rintro rfl
    rfl

/-! ## Decoding -/

theorem decode_cons (h : c ≠ '%') (s : List Char) :
    decode (c :: s) = String.utf8EncodeChar c ++ decode s := by
  rw [decode]
  rintro _ _ _ rfl
  exact absurd rfl h

theorem decode_encodeByte (b : UInt8) (s : List Char) :
    decode (encodeByte b ++ s) = b :: decode s := by
  have hbyte : UInt8.ofNat (16 * (b.toNat / 16) + b.toNat % 16) = b := by
    rw [Nat.div_add_mod]
    exact UInt8.ofNat_toNat
  show decode ('%' :: hexDigit (b.toNat / 16) :: hexDigit (b.toNat % 16) :: s) = _
  rw [decode, hexValue?_hexDigit (high_lt b), hexValue?_hexDigit (low_lt b)]
  simp only [hbyte]

theorem decode_encodeBytes (bs : List UInt8) (s : List Char) :
    decode (bs.flatMap encodeByte ++ s) = bs ++ decode s := by
  induction bs with
  | nil => rfl
  | cons b rest ih => rw [List.flatMap_cons, List.append_assoc, decode_encodeByte, ih]; rfl

theorem decode_of_plain (h : '%' ∉ s) : decode s = s.flatMap String.utf8EncodeChar := by
  induction s with
  | nil => rw [decode]; rfl
  | cons c rest ih =>
    have hc : c ≠ '%' := fun hc => h (hc ▸ List.mem_cons_self)
    rw [decode_cons hc, ih fun hrest => h (List.mem_cons_of_mem c hrest)]
    rfl

/-- What is encoded together with the percent signs is decoded again. -/
theorem decode_encode (hpercent : set '%' = true) (s : List Char) :
    decode (encode set s) = s.flatMap String.utf8EncodeChar := by
  induction s with
  | nil => rw [encode, List.flatMap_nil, decode]; rfl
  | cons c rest ih =>
    rw [encode_cons, List.flatMap_cons, ← ih]
    split
    · exact decode_encodeBytes _ _
    · next hset =>
      have hc : c ≠ '%' := fun hc => hset (hc ▸ hpercent)
      exact decode_cons hc _

end Agents.Url.Percent
