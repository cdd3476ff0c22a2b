import Agents.Proofs.Text.Bytes
import Agents.Text.Utf8

/-! # The bytes of a text are read as that text

The first byte of a character says how many follow and which the next one may be. The bytes that a
character is encoded with keep to that, so that they are read as this character and nothing is kept
for the byte after them (`decodeFrom_encodeChar`).
-/

namespace Agents.Text.Utf8

theorem step_continued {p : Pending} {n : Nat} (hn : n < 64) (hleast : p.least ≤ n + 128)
    (hgreatest : n + 128 ≤ p.greatest) : step (some p) (UInt8.ofNat (n + 128)) =
      if p.owed ≤ 1 then ([Char.ofNat (p.value * 64 + n)], none)
      else ([], some { value := p.value * 64 + n, owed := p.owed - 1 }) := by
  have hbyte : (UInt8.ofNat (n + 128)).toNat = n + 128 := by
    rw [UInt8.toNat_ofNat']
    omega
  have hbits : (n + 128) % 64 = n := by omega
  simp only [step, hbyte, hbits, if_pos (And.intro hleast hgreatest)]

theorem first_of_two {k : Nat} (hlow : 2 ≤ k) (hhigh : k < 32) :
    first (UInt8.ofNat (k + 192)) = ([], some { value := k, owed := 1 }) := by
  have hall : ∀ k < 32, 2 ≤ k →
      first (UInt8.ofNat (k + 192)) = ([], some { value := k, owed := 1 }) := by decide
  exact hall k hhigh hlow

theorem first_of_three {k : Nat} (h : k < 16) : first (UInt8.ofNat (k + 224)) =
    ([], some { value := k, owed := 2, least := if k = 0 then 0xA0 else 0x80,
                greatest := if k = 13 then 0x9F else 0xBF }) := by
  have hall : ∀ k < 16, first (UInt8.ofNat (k + 224)) =
      ([], some { value := k, owed := 2, least := if k = 0 then 0xA0 else 0x80,
                  greatest := if k = 13 then 0x9F else 0xBF }) := by decide
  exact hall k h

theorem first_of_four {k : Nat} (h : k < 5) : first (UInt8.ofNat (k + 240)) =
    ([], some { value := k, owed := 3, least := if k = 0 then 0x90 else 0x80,
                greatest := if k = 4 then 0x8F else 0xBF }) := by
  have hall : ∀ k < 5, first (UInt8.ofNat (k + 240)) =
      ([], some { value := k, owed := 3, least := if k = 0 then 0x90 else 0x80,
                  greatest := if k = 4 then 0x8F else 0xBF }) := by decide
  exact hall k h

theorem decodeFrom_encodeChar (c : Char) (rest : List UInt8) :
    decodeFrom none (String.utf8EncodeChar c ++ rest) = c :: decodeFrom none rest := by
  have hvalid : c.val.toNat < 0xD800 ∨ 0xDFFF < c.val.toNat ∧ c.val.toNat < 0x110000 := c.valid
  have hchar : Char.ofNat c.val.toNat = c := Char.ofNat_toNat c
  unfold String.utf8EncodeChar
  generalize c.val.toNat = v at hvalid hchar
  dsimp only
  split
  · next hone =>
    have hbyte : (UInt8.ofNat v).toNat = v := by
      rw [UInt8.toNat_ofNat']
      omega
    have hfirst : first (UInt8.ofNat v) = ([c], none) := by
      simp only [first, hbyte, if_pos (Nat.lt_succ_of_le hone), hchar]
    simp only [List.cons_append, List.nil_append, decodeFrom, step, hfirst]
  split
  · have hvalue : v / 64 % 32 * 64 + v % 64 = v := by omega
    simp only [List.cons_append, List.nil_append, decodeFrom]
    rw [step, first_of_two (by omega) (by omega)]
    dsimp only
    rw [step_continued (by omega) (by dsimp only; omega) (by dsimp only; omega)]
    simp only [Nat.le_refl, if_true, hvalue, hchar, List.nil_append, List.cons_append]
  split
  · have hvalue : (v / 4096 % 16 * 64 + v / 64 % 64) * 64 + v % 64 = v := by omega
    simp only [List.cons_append, List.nil_append, decodeFrom]
    rw [step, first_of_three (by omega)]
    dsimp only
    rw [step_continued (by omega) (by dsimp only; split <;> omega) (by dsimp only; split <;> omega)]
    dsimp only
    rw [if_neg (by decide), step_continued (by omega) (by dsimp only; omega) (by dsimp only; omega)]
    simp [hvalue, hchar]
  · have hvalue : ((v / 262144 % 8 * 64 + v / 4096 % 64) * 64 + v / 64 % 64) * 64 + v % 64 = v := by
      omega
    simp only [List.cons_append, List.nil_append, decodeFrom]
    rw [step, first_of_four (by omega)]
    dsimp only
    rw [step_continued (by omega) (by dsimp only; split <;> omega) (by dsimp only; split <;> omega)]
    dsimp only
    rw [if_neg (by decide), step_continued (by omega) (by dsimp only; omega) (by dsimp only; omega)]
    dsimp only
    rw [if_neg (by decide), step_continued (by omega) (by dsimp only; omega) (by dsimp only; omega)]
    simp [hvalue, hchar]

/-- Bytes of a text are read as that text. -/
theorem decode_bytes (s : List Char) :
    decode (s.flatMap String.utf8EncodeChar) = String.ofList s := by
  unfold decode
  refine congrArg String.ofList ?_
  induction s with
  | nil => rfl
  | cons c rest ih => rw [List.flatMap_cons, decodeFrom_encodeChar, ih]

end Agents.Text.Utf8
