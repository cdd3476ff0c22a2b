import Agents.Proofs.Text.Bytes
import Agents.Text.Base64
import Agents.Text.Blank
import Mathlib.Algebra.Group.Nat.Defs
import Mathlib.Data.List.Basic
import Mathlib.Data.List.Induction

/-! # Base64 is canonical

Read as a number of base 64, the symbols of a written text are the bytes read as a number of base
256, followed by two zero bits for each padding symbol (`encode_spells`).

A text is read exactly if it is the text that is written for the bytes that come out
(`decode_eq_ok_iff`): padding completes the last group, the bits that the last group leaves unused
are zero, and no other symbol is let through. So each list of bytes has one text, and it is the
only one that spells them (`spelled_iff`).
-/

namespace Agents.Text.Base64

/-! ## Symbols -/

def alphabet : List Char :=
  "ABCDEFGHIJKLMNOPQRSTUVWXYZabcdefghijklmnopqrstuvwxyz0123456789+/".toList

theorem getElem?_alphabet : ∀ n < 64, alphabet[n]? = some (symbol n) := by decide

def symbolByte (n : Nat) : UInt8 := byteOf (symbol n)

theorem symbolValue?_symbolByte : ∀ n < 64, symbolValue? (symbolByte n) = some n := by decide

theorem eq_symbolByte_of_value : ∀ k < 256, ∀ n ∈ symbolValue? (UInt8.ofNat k),
    n < 64 ∧ UInt8.ofNat k = symbolByte n := by decide +kernel

theorem symbolValue?_eq_some_iff {b : UInt8} {n : Nat} :
    symbolValue? b = some n ↔ n < 64 ∧ b = symbolByte n := by
  constructor
  · intro h
    have hb := eq_symbolByte_of_value b.toNat b.toNat_lt n
    rw [UInt8.ofNat_toNat] at hb
    exact hb h
  · rintro ⟨hn, rfl⟩
    exact symbolValue?_symbolByte n hn

theorem symbolByte_ne_pad {n : Nat} (h : n < 64) : symbolByte n ≠ pad := by
  intro hpad
  have hvalue := symbolValue?_symbolByte n h
  rw [hpad] at hvalue
  cases hvalue

theorem readSymbol_eq_ok_iff {offset : Nat} {b : UInt8} {n : Nat} :
    readSymbol offset b = .ok n ↔ n < 64 ∧ b = symbolByte n := by
  rw [← symbolValue?_eq_some_iff]
  unfold readSymbol
  split <;> simp_all

/-! ## The written number -/

/-- The symbols of some numbers below 64 and padding spell some bytes: they fill the same number of
bits, and they are the same number when the bits left over are zero. -/
structure Spells (ns : List Nat) (pads : Nat) (bs : List UInt8) : Prop where
  lt : ∀ n ∈ ns, n < 64
  pads_le : pads ≤ 2
  length_eq : 6 * ns.length = 8 * bs.length + 2 * pads
  number_eq : ns.foldl (· * 64 + ·) 0 = bs.foldl (· * 256 + ·.toNat) 0 * 4 ^ pads

theorem encodeBytes_spells (bs : List UInt8) (acc : Nat) : ∃ (ns : List Nat) (pads : Nat),
    encodeBytes bs = ns.map symbol ++ List.replicate pads '=' ∧
    (∀ n ∈ ns, n < 64) ∧ pads ≤ 2 ∧ 6 * ns.length = 8 * bs.length + 2 * pads ∧
    ns.foldl (· * 64 + ·) acc = bs.foldl (· * 256 + ·.toNat) acc * 4 ^ pads := by
  match bs with
  | [] => exact ⟨[], 0, rfl, nofun, by omega, rfl, by simp⟩
  | [x] =>
    have hx := x.toNat_lt
    refine ⟨[x.toNat / 4, x.toNat % 4 * 16], 2, rfl, ?_, by omega, rfl, ?_⟩
    · simp only [List.mem_cons, List.not_mem_nil, or_false]
      rintro n (rfl | rfl) <;> omega
    · simp only [List.foldl_cons, List.foldl_nil]
      omega
  | [x, y] =>
    have hx := x.toNat_lt
    have hy := y.toNat_lt
    refine ⟨[x.toNat / 4, x.toNat % 4 * 16 + y.toNat / 16, y.toNat % 16 * 4], 1, rfl, ?_,
      by omega, rfl, ?_⟩
    · simp only [List.mem_cons, List.not_mem_nil, or_false]
      rintro n (rfl | rfl | rfl) <;> omega
    · simp only [List.foldl_cons, List.foldl_nil]
      omega
  | x :: y :: z :: rest =>
    have hx := x.toNat_lt
    have hy := y.toNat_lt
    have hz := z.toNat_lt
    obtain ⟨ns, pads, hchars, hns, hpads, hlength, hnumber⟩ :=
      encodeBytes_spells rest (((acc * 256 + x.toNat) * 256 + y.toNat) * 256 + z.toNat)
    refine ⟨x.toNat / 4 :: (x.toNat % 4 * 16 + y.toNat / 16) :: (y.toNat % 16 * 4 + z.toNat / 64)
      :: z.toNat % 64 :: ns, pads, ?_, ?_, hpads, ?_, ?_⟩
    · simp only [encodeBytes, hchars, List.map_cons, List.cons_append]
    · simp only [List.mem_cons]
      rintro n (rfl | rfl | rfl | rfl | hn)
      · omega
      · omega
      · omega
      · omega
      · exact hns n hn
    · simp only [List.length_cons]
      omega
    · simp only [List.foldl_cons]
      rw [← hnumber]
      congr 1
      omega

theorem encode_spells (bs : List UInt8) : ∃ ns pads, Spells ns pads bs ∧
    encode bs = String.ofList (ns.map symbol ++ List.replicate pads '=') := by
  obtain ⟨ns, pads, hchars, hlt, hpads, hlength, hnumber⟩ := encodeBytes_spells bs 0
  exact ⟨ns, pads, ⟨hlt, hpads, hlength, hnumber⟩, congrArg String.ofList hchars⟩

/-! ## The last group -/

theorem lastGroup_pads (start : Nat) (first : Option Nat) {index : Nat} (h : 2 ≤ index)
    (pads : Nat) : lastGroup start index first (List.replicate pads pad) = .ok ([], pads) := by
  induction pads generalizing index first with
  | zero => rfl
  | succ pads ih =>
    have hindex : ¬ index < 2 := Nat.not_lt.mpr h
    simp only [List.replicate_succ, lastGroup, if_pos, if_neg hindex]
    rw [ih _ (Nat.le_succ_of_le h)]

theorem lastGroup_symbols (start index : Nat) (ns : List Nat) (pads : Nat)
    (hns : ∀ n ∈ ns, n < 64) (h : pads ≠ 0 → 2 ≤ index + ns.length) :
    lastGroup start index none (ns.map symbolByte ++ List.replicate pads pad) =
      .ok (ns.map fun n => (symbolByte n, n), pads) := by
  induction ns generalizing index with
  | nil =>
    cases pads with
    | zero => rfl
    | succ pads => exact lastGroup_pads start none (h (Nat.succ_ne_zero pads)) _
  | cons n rest ih =>
    have hn : n < 64 := hns n List.mem_cons_self
    have hread : readSymbol (start + index) (symbolByte n) = .ok n :=
      readSymbol_eq_ok_iff.mpr ⟨hn, rfl⟩
    have hrest := ih (index + 1) (fun m hm => hns m (List.mem_cons_of_mem n hm))
      (by
        intro hpads
        have htwo := h hpads
        rw [List.length_cons] at htwo
        omega)
    simp only [List.map_cons, List.cons_append, lastGroup, if_neg (symbolByte_ne_pad hn), hread,
      hrest]

/-- After a padding symbol there is only padding. -/
theorem eq_pads_of_lastGroup {start index first pads : Nat} {input : List UInt8}
    {symbols : List (UInt8 × Nat)}
    (h : lastGroup start index (some first) input = .ok (symbols, pads)) :
    symbols = [] ∧ input = List.replicate pads pad := by
  induction input generalizing index first symbols pads with
  | nil =>
    cases h
    exact ⟨rfl, rfl⟩
  | cons b rest ih =>
    unfold lastGroup at h
    split at h
    · next hb =>
      split at h
      · cases h
      split at h
      · next symbols' pads' hrest =>
        cases h
        obtain ⟨rfl, rfl⟩ := ih hrest
        exact ⟨rfl, by rw [hb, List.replicate_succ]⟩
      · cases h
    · cases h

theorem eq_symbols_of_lastGroup {start index pads : Nat} {input : List UInt8}
    {symbols : List (UInt8 × Nat)} (h : lastGroup start index none input = .ok (symbols, pads)) :
    ∃ ns : List Nat, (∀ n ∈ ns, n < 64) ∧ symbols = ns.map (fun n => (symbolByte n, n)) ∧
      input = ns.map symbolByte ++ List.replicate pads pad := by
  induction input generalizing index symbols pads with
  | nil =>
    cases h
    exact ⟨[], nofun, rfl, rfl⟩
  | cons b rest ih =>
    unfold lastGroup at h
    split at h
    · next hb =>
      split at h
      · cases h
      split at h
      · next symbols' pads' hrest =>
        cases h
        obtain ⟨rfl, rfl⟩ := eq_pads_of_lastGroup hrest
        exact ⟨[], nofun, rfl, by rw [hb, List.replicate_succ]; rfl⟩
      · cases h
    · dsimp only at h
      split at h
      · cases h
      · next n hread =>
        obtain ⟨hn, rfl⟩ := readSymbol_eq_ok_iff.mp hread
        split at h
        · next symbols' pads' hrest =>
          cases h
          obtain ⟨ns, hns, rfl, rfl⟩ := ih hrest
          refine ⟨n :: ns, ?_, rfl, rfl⟩
          intro m hm
          rcases List.mem_cons.mp hm with rfl | hm
          · exact hn
          · exact hns m hm
        · cases h

/-! ## Groups -/

def written (bs : List UInt8) : List UInt8 := (encodeBytes bs).map byteOf

@[simp] theorem written_nil : written [] = [] := rfl

/-- Three bytes and four symbols that stand for the same bits. -/
theorem written_cons {a b c d : Nat} (ha : a < 64) (hb : b < 64) (hc : c < 64) (hd : d < 64)
    (rest : List UInt8) :
    written (UInt8.ofNat (a * 4 + b / 16) :: UInt8.ofNat (b % 16 * 16 + c / 4) ::
        UInt8.ofNat (c % 4 * 64 + d) :: rest) =
      symbolByte a :: symbolByte b :: symbolByte c :: symbolByte d :: written rest := by
  have h₁ : (UInt8.ofNat (a * 4 + b / 16)).toNat = a * 4 + b / 16 := by
    rw [UInt8.toNat_ofNat']
    omega
  have h₂ : (UInt8.ofNat (b % 16 * 16 + c / 4)).toNat = b % 16 * 16 + c / 4 := by
    rw [UInt8.toNat_ofNat']
    omega
  have h₃ : (UInt8.ofNat (c % 4 * 64 + d)).toNat = c % 4 * 64 + d := by
    rw [UInt8.toNat_ofNat']
    omega
  have e₁ : (a * 4 + b / 16) / 4 = a := by omega
  have e₂ : (a * 4 + b / 16) % 4 * 16 + (b % 16 * 16 + c / 4) / 16 = b := by omega
  have e₃ : (b % 16 * 16 + c / 4) % 16 * 4 + (c % 4 * 64 + d) / 64 = c := by omega
  have e₄ : (c % 4 * 64 + d) % 64 = d := by omega
  simp only [written, encodeBytes, h₁, h₂, h₃, e₁, e₂, e₃, e₄, List.map_cons, symbolByte]

theorem exists_symbols (x y z : UInt8) : ∃ a b c d : Nat, a < 64 ∧ b < 64 ∧ c < 64 ∧ d < 64 ∧
    x = UInt8.ofNat (a * 4 + b / 16) ∧ y = UInt8.ofNat (b % 16 * 16 + c / 4) ∧
    z = UInt8.ofNat (c % 4 * 64 + d) := by
  have hx := x.toNat_lt
  have hy := y.toNat_lt
  have hz := z.toNat_lt
  refine ⟨x.toNat / 4, x.toNat % 4 * 16 + y.toNat / 16, y.toNat % 16 * 4 + z.toNat / 64,
    z.toNat % 64, by omega, by omega, by omega, by omega, ?_, ?_, ?_⟩
  · rw [show x.toNat / 4 * 4 + (x.toNat % 4 * 16 + y.toNat / 16) / 16 = x.toNat by omega,
      UInt8.ofNat_toNat]
  · rw [show (x.toNat % 4 * 16 + y.toNat / 16) % 16 * 16 + (y.toNat % 16 * 4 + z.toNat / 64) / 4 =
      y.toNat by omega, UInt8.ofNat_toNat]
  · rw [show (y.toNat % 16 * 4 + z.toNat / 64) % 4 * 64 + z.toNat % 64 = z.toNat by omega,
      UInt8.ofNat_toNat]

theorem written_one (x : UInt8) : written [x] =
    [x.toNat / 4, x.toNat % 4 * 16].map symbolByte ++ List.replicate 2 pad := rfl

theorem written_two (x y : UInt8) : written [x, y] =
    [x.toNat / 4, x.toNat % 4 * 16 + y.toNat / 16, y.toNat % 16 * 4].map symbolByte
      ++ List.replicate 1 pad := rfl

theorem decodeLast_two (start : Nat) {a b : Nat} (ha : a < 64) (hb : b < 64) :
    decodeLast start ([a, b].map symbolByte ++ List.replicate 2 pad) =
      if b % 16 ≠ 0 then .error (.invalidLastSymbol (symbolByte b) (start + 1))
      else .ok [UInt8.ofNat (a * 4 + b / 16)] := by
  have hgroup := lastGroup_symbols start 0 [a, b] 2
    (by simp [ha, hb]) (fun _ => Nat.le_refl 2)
  simp only [decodeLast, hgroup]
  simp

theorem decodeLast_three (start : Nat) {a b c : Nat} (ha : a < 64) (hb : b < 64) (hc : c < 64) :
    decodeLast start ([a, b, c].map symbolByte ++ List.replicate 1 pad) =
      if c % 4 ≠ 0 then .error (.invalidLastSymbol (symbolByte c) (start + 2))
      else .ok [UInt8.ofNat (a * 4 + b / 16), UInt8.ofNat (b % 16 * 16 + c / 4)] := by
  have hgroup := lastGroup_symbols start 0 [a, b, c] 1
    (by simp [ha, hb, hc]) (fun _ => Nat.le_add_left 2 1)
  simp only [decodeLast, hgroup]
  simp

theorem decodeLast_four (start : Nat) {a b c d : Nat} (ha : a < 64) (hb : b < 64) (hc : c < 64)
    (hd : d < 64) :
    decodeLast start ([a, b, c, d].map symbolByte ++ List.replicate 0 pad) =
      .ok [UInt8.ofNat (a * 4 + b / 16), UInt8.ofNat (b % 16 * 16 + c / 4),
        UInt8.ofNat (c % 4 * 64 + d)] := by
  have hgroup := lastGroup_symbols start 0 [a, b, c, d] 0
    (by simp [ha, hb, hc, hd]) (fun h => absurd rfl h)
  simp only [decodeLast, hgroup]
  simp

/-- The symbols and the padding of a group that is read complete it. -/
theorem symbols_of_decodeLast {start : Nat} {input bs : List UInt8} (hinput : input.length ≤ 4)
    (h : decodeLast start input = .ok bs) : input = [] ∨ ∃ (ns : List Nat) (pads : Nat),
      (∀ n ∈ ns, n < 64) ∧ 2 ≤ ns.length ∧ ns.length + pads = 4 ∧
      input = ns.map symbolByte ++ List.replicate pads pad := by
  unfold decodeLast at h
  split at h
  · cases h
  next symbols pads hgroup =>
  obtain ⟨ns, hns, rfl, rfl⟩ := eq_symbols_of_lastGroup hgroup
  split at h
  · cases h
  next hlength =>
  split at h
  · cases h
  next hmod =>
  simp only [List.length_map] at hlength hmod
  simp only [List.length_append, List.length_map, List.length_replicate] at hinput
  by_cases hempty : ns.map symbolByte ++ List.replicate pads pad = []
  · exact .inl hempty
  have htwo : 2 ≤ ns.length := Nat.le_of_not_lt fun hlt => hlength ⟨hempty, hlt⟩
  exact .inr ⟨ns, pads, hns, htwo, by omega, rfl⟩

/-- The last group is read exactly if it is what is written for the bytes that come out. -/
theorem decodeLast_eq_ok_iff {start : Nat} {input bs : List UInt8} (hinput : input.length ≤ 4) :
    decodeLast start input = .ok bs ↔ input = written bs := by
  constructor
  · intro h
    rcases symbols_of_decodeLast hinput h with rfl | ⟨ns, pads, hns, htwo, htotal, rfl⟩
    · cases h
      rfl
    -- two, three or four symbols, with as much padding as completes the group
    match ns with
    | [] | [_] => simp at htwo
    | [a, b] =>
      obtain ⟨ha, hb⟩ : a < 64 ∧ b < 64 := by simpa using hns
      obtain rfl : pads = 2 := by simp only [List.length_cons, List.length_nil] at htotal; omega
      rw [decodeLast_two start ha hb] at h
      split at h
      · cases h
      next hzero =>
      cases h
      have hx : (UInt8.ofNat (a * 4 + b / 16)).toNat = a * 4 + b / 16 := by
        rw [UInt8.toNat_ofNat']
        omega
      rw [written_one, hx, show (a * 4 + b / 16) / 4 = a by omega,
        show (a * 4 + b / 16) % 4 * 16 = b by omega]
    | [a, b, c] =>
      obtain ⟨ha, hb, hc⟩ : a < 64 ∧ b < 64 ∧ c < 64 := by simpa using hns
      obtain rfl : pads = 1 := by simp only [List.length_cons, List.length_nil] at htotal; omega
      rw [decodeLast_three start ha hb hc] at h
      split at h
      · cases h
      next hzero =>
      cases h
      have hx : (UInt8.ofNat (a * 4 + b / 16)).toNat = a * 4 + b / 16 := by
        rw [UInt8.toNat_ofNat']
        omega
      have hy : (UInt8.ofNat (b % 16 * 16 + c / 4)).toNat = b % 16 * 16 + c / 4 := by
        rw [UInt8.toNat_ofNat']
        omega
      rw [written_two, hx, hy, show (a * 4 + b / 16) / 4 = a by omega,
        show (a * 4 + b / 16) % 4 * 16 + (b % 16 * 16 + c / 4) / 16 = b by omega,
        show (b % 16 * 16 + c / 4) % 16 * 4 = c by omega]
    | [a, b, c, d] =>
      obtain ⟨ha, hb, hc, hd⟩ : a < 64 ∧ b < 64 ∧ c < 64 ∧ d < 64 := by simpa using hns
      obtain rfl : pads = 0 := by simp only [List.length_cons, List.length_nil] at htotal; omega
      rw [decodeLast_four start ha hb hc hd] at h
      cases h
      exact (written_cons ha hb hc hd []).symm
    | _ :: _ :: _ :: _ :: _ :: _ => simp only [List.length_cons] at htotal; omega
  · rintro rfl
    match bs with
    | [] => rfl
    | [x] =>
      have hx := x.toNat_lt
      rw [written_one, decodeLast_two start (by omega) (by omega),
        if_neg (by omega), show x.toNat / 4 * 4 + x.toNat % 4 * 16 / 16 = x.toNat by omega,
        UInt8.ofNat_toNat]
    | [x, y] =>
      have hx := x.toNat_lt
      have hy := y.toNat_lt
      rw [written_two, decodeLast_three start (by omega) (by omega) (by omega),
        if_neg (by omega),
        show x.toNat / 4 * 4 + (x.toNat % 4 * 16 + y.toNat / 16) / 16 = x.toNat by omega,
        show (x.toNat % 4 * 16 + y.toNat / 16) % 16 * 16 + y.toNat % 16 * 4 / 4 = y.toNat by omega,
        UInt8.ofNat_toNat, UInt8.ofNat_toNat]
    | [x, y, z] =>
      obtain ⟨a, b, c, d, ha, hb, hc, hd, rfl, rfl, rfl⟩ := exists_symbols x y z
      rw [written_cons ha hb hc hd]
      exact decodeLast_four start ha hb hc hd
    | x :: y :: z :: w :: rest =>
      obtain ⟨a, b, c, d, ha, hb, hc, hd, rfl, rfl, rfl⟩ := exists_symbols x y z
      rw [written_cons ha hb hc hd] at hinput
      have hmore : 0 < (written (w :: rest)).length := by
        unfold written
        match rest with
        | [] | [_] | _ :: _ :: _ => simp [encodeBytes]
      simp only [List.length_cons] at hinput
      omega

/-! ## Texts -/

theorem bind_eq_ok {α β : Type} {x : Except DecodeError α} {f : α → Except DecodeError β} {y : β} :
    x >>= f = .ok y ↔ ∃ a, x = .ok a ∧ f a = .ok y := by
  cases x with
  | error e => exact ⟨nofun, fun ⟨_, h, _⟩ => nomatch h⟩
  | ok a => exact ⟨fun h => ⟨a, rfl, h⟩, fun ⟨_, h, hf⟩ => Except.ok.inj h ▸ hf⟩

theorem written_ne_nil {bs : List UInt8} (h : bs ≠ []) : written bs ≠ [] := by
  unfold written
  match bs, h with
  | [_], _ | [_, _], _ | _ :: _ :: _ :: _, _ => simp [encodeBytes]

theorem decodeGroups_eq_ok_iff {start : Nat} {input bs : List UInt8} :
    decodeGroups start input = .ok bs ↔ input = written bs := by
  fun_induction decodeGroups start input generalizing bs with
  | case1 start a b c d e rest ih =>
    simp only [bind_eq_ok, ih, readSymbol_eq_ok_iff]
    constructor
    · rintro ⟨na, ⟨ha, rfl⟩, nb, ⟨hb, rfl⟩, nc, ⟨hc, rfl⟩, nd, ⟨hd, rfl⟩, more, hmore, h⟩
      cases h
      rw [written_cons ha hb hc hd, hmore]
    · intro h
      match bs with
      | [] | [_] | [_, _] => cases h
      | x :: y :: z :: more =>
        obtain ⟨na, nb, nc, nd, ha, hb, hc, hd, rfl, rfl, rfl⟩ := exists_symbols x y z
        rw [written_cons ha hb hc hd] at h
        simp only [List.cons.injEq] at h
        obtain ⟨rfl, rfl, rfl, rfl, hmore⟩ := h
        exact ⟨na, ⟨ha, rfl⟩, nb, ⟨hb, rfl⟩, nc, ⟨hc, rfl⟩, nd, ⟨hd, rfl⟩, more, hmore, rfl⟩
  | case2 start input h =>
    refine decodeLast_eq_ok_iff ?_
    match input with
    | [] | [_] | [_, _] | [_, _, _] | [_, _, _, _] => simp
    | a :: b :: c :: d :: e :: rest => exact (h a b c d e rest rfl).elim

theorem length_written_mod (bs : List UInt8) : (written bs).length % 4 = 0 := by
  unfold written
  fun_induction encodeBytes bs with
  | case1 | case2 | case3 => simp
  | case4 a b c rest x y z _ ih =>
    simp only [List.map_cons, List.length_cons]
    omega

theorem decodeBytes_eq_ok_iff {input bs : List UInt8} :
    decodeBytes input = .ok bs ↔ input = written bs := by
  unfold decodeBytes
  split
  · split
    · next hodd =>
      refine ⟨nofun, ?_⟩
      rintro rfl
      rw [length_written_mod] at hodd
      cases hodd.1
    · exact decodeGroups_eq_ok_iff
  · next hempty =>
    rw [List.getLast?_eq_none_iff.mp hempty]
    constructor
    · intro h
      cases h
      rfl
    · intro h
      by_cases hbs : bs = []
      · rw [hbs]
      · exact absurd h.symm (written_ne_nil hbs)

/-! ## Characters -/

theorem symbol_ascii : ∀ n < 64, (symbol n).toNat < 128 ∧ isBlank (symbol n) = false := by decide

/-- A written text has no white space and only characters of ASCII. -/
theorem ascii_of_mem_encodeBytes {bs : List UInt8} {c : Char} (h : c ∈ encodeBytes bs) :
    c.toNat < 128 ∧ isBlank c = false := by
  obtain ⟨ns, pads, hchars, hlt, -⟩ := encodeBytes_spells bs 0
  rw [hchars] at h
  rcases List.mem_append.mp h with h | h
  · obtain ⟨n, hn, rfl⟩ := List.mem_map.mp h
    exact symbol_ascii n (hlt n hn)
  · rw [List.eq_of_mem_replicate h]
    decide

theorem bytes_encode (bs : List UInt8) : (encode bs).toUTF8.toList = written bs :=
  bytes_ofList_ascii fun _ hc => (ascii_of_mem_encodeBytes hc).1

/-- The canonical text of some bytes is the only one that is read as them. -/
theorem decode_eq_ok_iff {text : String} {bs : List UInt8} :
    decode text = .ok bs ↔ text = encode bs := by
  unfold decode
  rw [decodeBytes_eq_ok_iff, ← bytes_encode]
  exact ⟨bytes_injective, fun h => h ▸ rfl⟩

@[simp] theorem decode_encode (bs : List UInt8) : decode (encode bs) = .ok bs :=
  decode_eq_ok_iff.mpr rfl

@[simp] theorem trim_encode (bs : List UInt8) : trim (encode bs) = encode bs := by
  have hblank : ∀ c ∈ encodeBytes bs, isBlank c = false :=
    fun c hc => (ascii_of_mem_encodeBytes hc).2
  have hkeep (cs : List Char) (h : ∀ c ∈ cs, isBlank c = false) : cs.dropWhile isBlank = cs := by
    cases cs with
    | nil => rfl
    | cons c rest => exact List.dropWhile_cons_of_neg (by simp [h c List.mem_cons_self])
  simp only [trim, encode, trimChars, trimStart, trimEnd, String.toList_ofList]
  rw [hkeep _ hblank, hkeep _ fun c hc => hblank c (List.mem_reverse.mp hc), List.reverse_reverse]

/-! ## Canonical texts -/

/-- The text is the canonical one for some bytes: their bits in symbols of the standard alphabet,
with zero bits and padding that complete the last group. -/
def Spelled (text : String) (bs : List UInt8) : Prop := ∃ ns pads, Spells ns pads bs ∧
  text = String.ofList (ns.map (alphabet.getD · '=') ++ List.replicate pads '=')

theorem Spelled.length_mod {text : String} {bs : List UInt8} (h : Spelled text bs) :
    text.toList.length % 4 = 0 := by
  obtain ⟨ns, pads, hspells, rfl⟩ := h
  have hlength := hspells.length_eq
  rw [String.toList_ofList, List.length_append, List.length_map, List.length_replicate]
  omega

/-- Of as many digits as another one, a number of base 64 has only its own. -/
theorem eq_of_number_eq {ns ms : List Nat} (hlength : ns.length = ms.length)
    (hns : ∀ n ∈ ns, n < 64) (hms : ∀ m ∈ ms, m < 64)
    (h : ns.foldl (· * 64 + ·) 0 = ms.foldl (· * 64 + ·) 0) : ns = ms := by
  induction ns using List.reverseRecOn generalizing ms with
  | nil => exact (List.eq_nil_of_length_eq_zero hlength.symm).symm
  | append_singleton ns n ih =>
    rcases List.eq_nil_or_concat' ms with rfl | ⟨ms, m, rfl⟩
    · simp at hlength
    · have hn : n < 64 := hns n (by simp)
      have hm : m < 64 := hms m (by simp)
      simp only [List.foldl_append, List.foldl_cons, List.foldl_nil] at h
      have hrest : ns = ms := by
        refine ih (by simpa using hlength) (fun k hk => hns k (List.mem_append_left _ hk))
          (fun k hk => hms k (List.mem_append_left _ hk)) ?_
        omega
      have hlast : n = m := by omega
      rw [hrest, hlast]

theorem Spells.unique {ns ms : List Nat} {pads pads' : Nat} {bs : List UInt8}
    (h : Spells ns pads bs) (h' : Spells ms pads' bs) : ns = ms ∧ pads = pads' := by
  have hle := h.pads_le
  have hle' := h'.pads_le
  have hlength := h.length_eq
  have hlength' := h'.length_eq
  obtain rfl : pads = pads' := by omega
  refine ⟨eq_of_number_eq (by omega) h.lt h'.lt ?_, rfl⟩
  rw [h.number_eq, h'.number_eq]

/-- What is written is canonical, and nothing else is. -/
theorem spelled_iff {text : String} {bs : List UInt8} : Spelled text bs ↔ text = encode bs := by
  obtain ⟨ns, pads, hspells, hencode⟩ := encode_spells bs
  have hsymbols : ns.map (alphabet.getD · '=') = ns.map symbol := by
    refine List.map_congr_left fun n hn => ?_
    rw [List.getD_eq_getElem?_getD, getElem?_alphabet n (hspells.lt n hn)]
    rfl
  rw [hencode, ← hsymbols]
  constructor
  · rintro ⟨ms, pads', hspells', rfl⟩
    obtain ⟨rfl, rfl⟩ := hspells.unique hspells'
    rfl
  · rintro rfl
    exact ⟨ns, pads, hspells, rfl⟩

end Agents.Text.Base64
