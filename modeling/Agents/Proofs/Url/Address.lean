import Agents.Proofs.Text.Digits
import Agents.Url.Host
import Mathlib.Data.List.Basic

/-! # Addresses are read back

The text of an IPv4 address is four numbers between dots, and that of an IPv6 address is eight
pieces between colons, where the longest run of zeros is left out. Either is read back as the
address that was written (`Host.ofIpv4_text`, `Host.ofIpv6_text`); whatever is read is an address of
32 bits, or eight pieces of 16 bits.
-/

namespace Agents.Url

/-! ## Pieces between marks -/

theorem splitOn_eq (c : Char) (s : List Char) : splitOn c s = s.splitOn c := by
  induction s with
  | nil => rfl
  | cons d rest ih =>
    rw [splitOn, List.splitOn_cons_eq_if_modifyHead, ih]
    simp only [beq_iff_eq]
    split
    · rfl
    · cases hpieces : rest.splitOn c with
      | nil => exact absurd hpieces (List.splitOn_ne_nil c rest)
      | cons piece pieces => rfl

theorem splitOn_intercalate {c : Char} {pieces : List (List Char)} (h : ∀ p ∈ pieces, c ∉ p)
    (hne : pieces ≠ []) : splitOn c ([c].intercalate pieces) = pieces := by
  rw [splitOn_eq]
  exact List.splitOn_intercalate c h hne

theorem intercalate_splitOn (c : Char) (s : List Char) : [c].intercalate (splitOn c s) = s := by
  rw [splitOn_eq]
  exact List.intercalate_splitOn c

theorem mem_of_mem_splitOn {c d : Char} {s piece : List Char} (hpiece : piece ∈ splitOn c s)
    (hd : d ∈ piece) : d ∈ s ∧ d ≠ c := by
  induction s generalizing piece with
  | nil =>
    obtain rfl := List.mem_singleton.mp hpiece
    cases hd
  | cons e rest ih =>
    rw [splitOn] at hpiece
    split at hpiece
    · rcases List.mem_cons.mp hpiece with rfl | hrest
      · cases hd
      · exact ⟨List.mem_cons_of_mem e (ih hrest hd).1, (ih hrest hd).2⟩
    · next hne =>
      split at hpiece
      · next first pieces hsplit =>
        rcases List.mem_cons.mp hpiece with rfl | hrest
        · rcases List.mem_cons.mp hd with rfl | hd
          · exact ⟨List.mem_cons_self, hne⟩
          · have hin := ih (hsplit ▸ List.mem_cons_self) hd
            exact ⟨List.mem_cons_of_mem e hin.1, hin.2⟩
        · have hin := ih (hsplit ▸ List.mem_cons_of_mem first hrest) hd
          exact ⟨List.mem_cons_of_mem e hin.1, hin.2⟩
      · obtain rfl := List.mem_singleton.mp hpiece
        obtain rfl := List.mem_singleton.mp hd
        exact ⟨List.mem_cons_self, hne⟩

theorem mapM_written {m : Type → Type} [Monad m] [LawfulMonad m] {α β : Type} {read : β → m α}
    {write : α → β} {as : List α} (h : ∀ a ∈ as, read (write a) = pure a) :
    (as.map write).mapM read = pure as := by
  induction as with
  | nil => rfl
  | cons a rest ih =>
    rw [List.map_cons, List.mapM_cons, h a List.mem_cons_self,
      ih fun b hb => h b (List.mem_cons_of_mem a hb)]
    simp

/-- What holds of all that can be read holds of what is read piece by piece. -/
theorem forall_of_mapM {α β : Type} {read : α → Option β} {P : β → Prop}
    (h : ∀ a b, read a = some b → P b) {as : List α} {bs : List β} (hbs : as.mapM read = some bs) :
    ∀ b ∈ bs, P b := by
  induction as generalizing bs with
  | nil =>
    cases hbs
    exact List.forall_mem_nil P
  | cons a rest ih =>
    rw [List.mapM_cons] at hbs
    simp only [Option.bind_eq_bind, Option.bind_eq_some_iff] at hbs
    obtain ⟨b, hb, more, hmore, hcons⟩ := hbs
    cases hcons
    exact List.forall_mem_cons.mpr ⟨h a b hb, ih hmore⟩

namespace Host

/-! ## IPv4 -/

def octets (address : Nat) : List Nat := [24, 16, 8, 0].map fun shift => address >>> shift % 256

theorem octet_lt {address n : Nat} (h : n ∈ octets address) : n < 256 := by
  obtain ⟨shift, -, rfl⟩ := List.mem_map.mp h
  exact Nat.mod_lt _ (by decide)

theorem number?_octet {n : Nat} (h : n < 256) : number? (toString n).toList = some n := by
  have hall : ∀ n < 256, number? (toString n).toList = some n := by decide +kernel
  exact hall n h

theorem digits_of_toString (n : Nat) :
    (toString n).toList ≠ [] ∧ ∀ c ∈ (toString n).toList, c.isDigit = true := by
  rw [Nat.toString_eq_ofList_toDigits, String.toList_ofList]
  exact ⟨Nat.toDigits_ne_nil, Text.allDigits_toDigits n⟩

theorem text_ipv4 (address : Nat) : (text (.ipv4 address)).toList =
    ['.'].intercalate ((octets address).map fun n => (toString n).toList) := by
  show (".".intercalate _).toList = _
  rw [String.toList_intercalate, octets, List.map_map, List.map_map]
  rfl

theorem splitOn_octets (address : Nat) :
    splitOn '.' (['.'].intercalate ((octets address).map fun n => (toString n).toList)) =
      (octets address).map fun n => (toString n).toList := by
  refine splitOn_intercalate (fun p hp hdot => ?_) (by simp [octets])
  obtain ⟨n, -, rfl⟩ := List.mem_map.mp hp
  exact absurd ((digits_of_toString n).2 _ hdot) (by decide)

/-- The number of an octet, as it is read for an address. -/
def numberIn32? (label : List Char) : Except UrlError Nat :=
  match number? label with
  | some n => if n < Word.size 32 then pure n else throw .invalidIpv4
  | none => throw .invalidIpv4

/-- The address of numbers, if they are one. -/
def ofNumbers (numbers : List Nat) : Except UrlError Host :=
  if (numbers.dropLast.any (255 < ·) ||
      Word.size 32 / Nat.pow 256 numbers.dropLast.length ≤ numbers.getLast?.getD 0) = true then
    throw .invalidIpv4
  else
    pure (.ipv4 ((List.zipWith (· * ·) numbers.dropLast
      [Word.size 24, Word.size 16, Word.size 8]).foldl (· + ·) (numbers.getLast?.getD 0)))

/-- The labels of a domain without an empty one at the end. -/
def labels (domain : List Char) : List (List Char) :=
  if (splitOn '.' domain).getLast? = some [] then (splitOn '.' domain).dropLast
  else splitOn '.' domain

theorem ofIpv4_eq (domain : List Char) : ofIpv4 domain =
    if 4 < (labels domain).length then throw .invalidIpv4
    else (labels domain).mapM numberIn32? >>= ofNumbers := by
  unfold ofIpv4
  show (if 4 < (labels domain).length then _ else _) = _
  split
  · rfl
  · refine congrArg _ (funext fun numbers => ?_)
    unfold ofNumbers
    dsimp only
    split <;> rfl

theorem sum_octets {address : Nat} (h : address < Word.size 32) :
    ofNumbers (octets address) = .ok (.ipv4 address) := by
  have hsize : Word.size 32 = 4294967296 := by decide
  rw [hsize] at h
  have hparts : address >>> 24 % 256 * 16777216 + address >>> 16 % 256 * 65536 +
      address >>> 8 % 256 * 256 + address >>> 0 % 256 = address := by
    simp only [Nat.shiftRight_eq_div_pow]
    omega
  have hsmall : ∀ n ∈ octets address, n < 256 := fun n => octet_lt
  simp only [octets, List.map_cons, List.map_nil, List.mem_cons, List.not_mem_nil, or_false,
    forall_eq_or_imp, forall_eq] at hsmall
  obtain ⟨h₃, h₂, h₁, h₀⟩ := hsmall
  unfold ofNumbers
  rw [if_neg]
  · show Except.ok (Host.ipv4 _) = _
    refine congrArg (fun n => Except.ok (Host.ipv4 n)) ?_
    simp only [octets, List.map_cons, List.map_nil, List.dropLast_cons_cons, List.dropLast_singleton,
      List.zipWith_cons_cons, List.zipWith_nil_left, List.foldl_cons, List.foldl_nil,
      List.getLast?_cons_cons, List.getLast?_singleton, Option.getD_some]
    have h24 : Word.size 24 = 16777216 := by decide
    have h16 : Word.size 16 = 65536 := by decide
    have h8 : Word.size 8 = 256 := by decide
    rw [h24, h16, h8]
    omega
  · have hpow : Word.size 32 / Nat.pow 256 3 = 256 := by decide
    simp only [octets, List.map_cons, List.map_nil, List.dropLast_cons_cons, List.dropLast_singleton,
      List.any_cons, List.any_nil, List.length_cons, List.length_nil, List.getLast?_cons_cons,
      List.getLast?_singleton, Option.getD_some, Nat.zero_add, Nat.reduceAdd, hpow,
      Bool.or_eq_true, decide_eq_true_eq, Bool.or_false]
    omega

theorem ofIpv4_text {address : Nat} (h : address < Word.size 32) :
    ofIpv4 (text (.ipv4 address)).toList = .ok (.ipv4 address) := by
  have hlabels : labels (text (.ipv4 address)).toList =
      (octets address).map fun n => (toString n).toList := by
    unfold labels
    rw [text_ipv4, splitOn_octets, if_neg]
    intro hlast
    obtain ⟨n, -, hn⟩ := List.mem_map.mp (List.mem_of_getLast? hlast)
    exact (digits_of_toString n).1 hn
  have hnumbers : ((octets address).map fun n => (toString n).toList).mapM numberIn32? =
      .ok (octets address) := by
    refine mapM_written fun n hn => ?_
    have hlt : n < Word.size 32 := Nat.lt_trans (octet_lt hn) (by decide)
    unfold numberIn32?
    rw [number?_octet (octet_lt hn)]
    exact if_pos hlt
  rw [ofIpv4_eq, hlabels, if_neg (by simp [octets]), hnumbers]
  exact sum_octets h

theorem length_of_mapM {numbers : List Nat} {ls : List (List Char)}
    (h : ls.mapM numberIn32? = .ok numbers) : numbers.length = ls.length := by
  induction ls generalizing numbers with
  | nil =>
    cases h
    rfl
  | cons l rest ih =>
    rw [List.mapM_cons] at h
    cases hl : numberIn32? l with
    | error e =>
      rw [hl] at h
      cases h
    | ok n =>
      rw [hl] at h
      cases hrest : rest.mapM numberIn32? with
      | error e =>
        rw [hrest] at h
        cases h
      | ok ns =>
        rw [hrest] at h
        cases h
        rw [List.length_cons, List.length_cons, ih hrest]

theorem lt_of_ofNumbers {numbers : List Nat} {host : Host} (hlength : numbers.length ≤ 4)
    (h : ofNumbers numbers = .ok host) :
    ∃ address, host = .ipv4 address ∧ address < Word.size 32 := by
  unfold ofNumbers at h
  split at h
  · cases h
  next hfits =>
  cases h
  refine ⟨_, rfl, ?_⟩
  simp only [Bool.or_eq_true, List.any_eq_true, decide_eq_true_eq, not_or, not_exists, not_and,
    Nat.not_lt, Nat.not_le] at hfits
  obtain ⟨hleading, hlast⟩ := hfits
  have h32 : Word.size 32 = 4294967296 := by decide
  have h24 : Word.size 24 = 16777216 := by decide
  have h16 : Word.size 16 = 65536 := by decide
  have h8 : Word.size 8 = 256 := by decide
  rw [h32] at hlast ⊢
  rw [h24, h16, h8]
  -- the weights are kept general where the sum is computed
  match numbers, hlength with
  | [], _ => exact (by decide : 0 < 4294967296)
  | [a], _ =>
    have hquotient : 4294967296 / Nat.pow 256 0 = 4294967296 := by decide
    exact Nat.lt_of_lt_of_eq hlast hquotient
  | [a, b], _ =>
    have hsum (w₁ w₂ w₃ : Nat) : (List.zipWith (· * ·) [a, b].dropLast [w₁, w₂, w₃]).foldl (· + ·)
        ([a, b].getLast?.getD 0) = b + a * w₁ := rfl
    have hquotient : 4294967296 / Nat.pow 256 1 = 16777216 := by decide
    have ha : a ≤ 255 := hleading a List.mem_cons_self
    have hb : b < 16777216 := Nat.lt_of_lt_of_eq hlast hquotient
    rw [hsum]
    omega
  | [a, b, c], _ =>
    have hsum (w₁ w₂ w₃ : Nat) :
        (List.zipWith (· * ·) [a, b, c].dropLast [w₁, w₂, w₃]).foldl (· + ·)
          ([a, b, c].getLast?.getD 0) = c + a * w₁ + b * w₂ := rfl
    have hquotient : 4294967296 / Nat.pow 256 2 = 65536 := by decide
    have ha : a ≤ 255 := hleading a (by simp)
    have hb : b ≤ 255 := hleading b (by simp)
    have hc : c < 65536 := Nat.lt_of_lt_of_eq hlast hquotient
    rw [hsum]
    omega
  | [a, b, c, d], _ =>
    have hsum (w₁ w₂ w₃ : Nat) :
        (List.zipWith (· * ·) [a, b, c, d].dropLast [w₁, w₂, w₃]).foldl (· + ·)
          ([a, b, c, d].getLast?.getD 0) = d + a * w₁ + b * w₂ + c * w₃ := rfl
    have hquotient : 4294967296 / Nat.pow 256 3 = 256 := by decide
    have ha : a ≤ 255 := hleading a (by simp)
    have hb : b ≤ 255 := hleading b (by simp)
    have hc : c ≤ 255 := hleading c (by simp)
    have hd : d < 256 := Nat.lt_of_lt_of_eq hlast hquotient
    rw [hsum]
    omega

theorem lt_of_ofIpv4 {domain : List Char} {host : Host} (h : ofIpv4 domain = .ok host) :
    ∃ address, host = .ipv4 address ∧ address < Word.size 32 := by
  rw [ofIpv4_eq] at h
  split at h
  · cases h
  next hfew =>
  cases hnumbers : (labels domain).mapM numberIn32? with
  | error e =>
    rw [hnumbers] at h
    cases h
  | ok numbers =>
    rw [hnumbers] at h
    refine lt_of_ofNumbers ?_ h
    rw [length_of_mapM hnumbers]
    exact Nat.le_of_not_lt hfew

/-! ## Pieces of IPv6 -/

theorem hexValue?_digitChar {d : Nat} (h : d < 16) :
    Percent.hexValue? (Nat.digitChar d) = some d := by
  have hall : ∀ d < 16, Percent.hexValue? (Nat.digitChar d) = some d := by decide
  exact hall d h

theorem hexValue?_lt {c : Char} {d : Nat} (h : Percent.hexValue? c = some d) : d < 16 := by
  unfold Percent.hexValue? at h
  split at h
  · next hc =>
    cases h
    have hle : c.toNat ≤ '9'.toNat := hc.2
    have h9 : '9'.toNat = 57 := rfl
    have h0 : '0'.toNat = 48 := rfl
    omega
  split at h
  · next hc =>
    cases h
    have hle : c.toNat ≤ 'f'.toNat := hc.2
    have hf : 'f'.toNat = 102 := rfl
    have ha : 'a'.toNat = 97 := rfl
    omega
  split at h
  · next hc =>
    cases h
    have hle : c.toNat ≤ 'F'.toNat := hc.2
    have hf : 'F'.toNat = 70 := rfl
    have ha : 'A'.toNat = 65 := rfl
    omega
  · cases h

def addDigit (n : Nat) (c : Char) : Option Nat := (Percent.hexValue? c).map (16 * n + ·)

theorem foldlM_toDigits (n : Nat) : (Nat.toDigits 16 n).foldlM addDigit 0 = some n := by
  induction n using Nat.strongRecOn with
  | ind n ih =>
    by_cases hsmall : n < 16
    · rw [Nat.toDigits_of_lt_base hsmall]
      simp [addDigit, hexValue?_digitChar hsmall]
    · have hlarge : 16 ≤ n := Nat.le_of_not_lt hsmall
      rw [Nat.toDigits_of_base_le (by decide) hlarge, List.foldlM_append, ih (n / 16) (by omega)]
      simp [addDigit, hexValue?_digitChar (Nat.mod_lt n (by decide : 0 < 16)), Nat.div_add_mod]

theorem lt_of_foldlM {s : List Char} {n m : Nat} (h : s.foldlM addDigit n = some m) :
    m < (n + 1) * 16 ^ s.length := by
  induction s generalizing n with
  | nil =>
    cases h
    simp
  | cons c rest ih =>
    rw [List.foldlM_cons] at h
    cases hc : Percent.hexValue? c with
    | none =>
      simp [addDigit, hc] at h
    | some d =>
      have hd : d < 16 := hexValue?_lt hc
      have hrest : rest.foldlM addDigit (16 * n + d) = some m := by simpa [addDigit, hc] using h
      calc m < (16 * n + d + 1) * 16 ^ rest.length := ih hrest
        _ ≤ ((n + 1) * 16) * 16 ^ rest.length := Nat.mul_le_mul_right _ (by omega)
        _ = (n + 1) * 16 ^ (c :: rest).length := by
          rw [List.length_cons, Nat.pow_succ', Nat.mul_assoc]

theorem mem_toDigits {n : Nat} {c : Char} (h : c ∈ Nat.toDigits 16 n) :
    c ∈ "0123456789abcdef".toList := by
  have hdigit : ∀ d < 16, Nat.digitChar d ∈ "0123456789abcdef".toList := by decide
  induction n using Nat.strongRecOn with
  | ind n ih =>
    by_cases hsmall : n < 16
    · rw [Nat.toDigits_of_lt_base hsmall] at h
      obtain rfl := List.mem_singleton.mp h
      exact hdigit n hsmall
    · have hlarge : 16 ≤ n := Nat.le_of_not_lt hsmall
      rw [Nat.toDigits_of_base_le (by decide) hlarge] at h
      rcases List.mem_append.mp h with hfront | hlast
      · exact ih (n / 16) (by omega) hfront
      · obtain rfl := List.mem_singleton.mp hlast
        exact hdigit _ (Nat.mod_lt n (by decide))

theorem hexPiece?_eq (s : List Char) : hexPiece? s =
    if (s.isEmpty || 4 < s.length) = true then none else s.foldlM addDigit 0 := rfl

theorem hexPiece?_toDigits {p : Nat} (h : p < Word.size 16) :
    hexPiece? (Nat.toDigits 16 p) = some p := by
  have hlength : (Nat.toDigits 16 p).length ≤ 4 :=
    (Nat.length_toDigits_le_iff (by decide) (by decide)).mpr h
  rw [hexPiece?_eq, if_neg, foldlM_toDigits]
  simp [Nat.toDigits_ne_nil, hlength]

theorem lt_of_hexPiece? {s : List Char} {p : Nat} (h : hexPiece? s = some p) :
    p < Word.size 16 := by
  rw [hexPiece?_eq] at h
  split at h
  · cases h
  next hlength =>
  have hle : s.length ≤ 4 := by
    simp only [Bool.or_eq_true, decide_eq_true_eq, not_or] at hlength
    omega
  calc p < (0 + 1) * 16 ^ s.length := lt_of_foldlM h
    _ ≤ (0 + 1) * 16 ^ 4 := Nat.mul_le_mul_left _ (Nat.pow_le_pow_right (by decide) hle)
    _ = Word.size 16 := by decide

/-! ## Texts of IPv6 -/

def hexText (ps : List Nat) : List Char := [':'].intercalate (ps.map (Nat.toDigits 16))

theorem hexText_cons (p q : Nat) (ps : List Nat) :
    hexText (p :: q :: ps) = Nat.toDigits 16 p ++ ':' :: hexText (q :: ps) := by
  unfold hexText
  rw [List.map_cons, List.map_cons, List.intercalate_cons_cons]
  simp

theorem mem_hexText {ps : List Nat} {c : Char} (h : c ∈ hexText ps) :
    c ∈ ":0123456789abcdef".toList := by
  have hdigit {p : Nat} (hc : c ∈ Nat.toDigits 16 p) : c ∈ ":0123456789abcdef".toList :=
    List.mem_cons_of_mem ':' (mem_toDigits hc)
  induction ps with
  | nil => cases h
  | cons p rest ih =>
    cases rest with
    | nil =>
      rw [hexText, List.map_singleton, List.intercalate_singleton] at h
      exact hdigit h
    | cons q ps =>
      rw [hexText_cons] at h
      rcases List.mem_append.mp h with hp | hrest
      · exact hdigit hp
      · rcases List.mem_cons.mp hrest with rfl | hrest
        · decide
        · exact ih hrest

theorem not_mem_hexText {ps : List Nat} {c : Char} (h : c ∉ ":0123456789abcdef".toList) :
    c ∉ hexText ps := fun hc => h (mem_hexText hc)

theorem colon_not_mem_toDigits (p : Nat) : ':' ∉ Nat.toDigits 16 p :=
  fun h => absurd (mem_toDigits h) (by decide)

theorem pieces?_hexText {ps : List Nat} (hne : ps ≠ []) (h : ∀ p ∈ ps, p < Word.size 16) :
    pieces? (hexText ps) = some ps := by
  have hsplit : splitOn ':' (hexText ps) = ps.map (Nat.toDigits 16) := by
    refine splitOn_intercalate (fun digits hdigits => ?_) (by simpa using hne)
    obtain ⟨p, -, rfl⟩ := List.mem_map.mp hdigits
    exact colon_not_mem_toDigits p
  obtain ⟨front, last, rfl⟩ := (List.eq_nil_or_concat' ps).resolve_left hne
  have hfront : (front.map (Nat.toDigits 16)).mapM hexPiece? = some front :=
    mapM_written fun p hp => hexPiece?_toDigits (h p (by simp [hp]))
  have hdot : (Nat.toDigits 16 last).contains '.' = false := by
    rw [List.contains_eq_mem, decide_eq_false_iff_not]
    exact fun hmem => absurd (mem_toDigits hmem) (by decide)
  unfold pieces?
  rw [hsplit]
  simp only [List.map_append, List.map_cons, List.map_nil, List.dropLast_concat,
    List.getLast?_concat, hfront, hdot, hexPiece?_toDigits (h last (by simp))]
  rfl

/-! ## The longest run of zeros -/

/-- A place in a list of pieces with zeros from there on. -/
def IsRun (ps : List Nat) (place : Nat × Nat) : Prop :=
  place.2 ≤ ((ps.drop place.1).takeWhile (· = 0)).length

theorem isRun_longestZeros (ps : List Nat) : IsRun ps (longestZeros ps) := by
  unfold longestZeros
  have hstep (places : List Nat) (best : Nat × Nat) (hbest : IsRun ps best) :
      IsRun ps (places.foldl (fun best start =>
        if best.2 < ((ps.drop start).takeWhile (· = 0)).length then
          (start, ((ps.drop start).takeWhile (· = 0)).length) else best) best) := by
    induction places generalizing best with
    | nil => exact hbest
    | cons start rest ih =>
      rw [List.foldl_cons]
      refine ih _ ?_
      split
      · exact Nat.le_refl _
      · exact hbest
  exact hstep _ (0, 0) (Nat.zero_le _)

theorem IsRun.drop_eq {ps : List Nat} {start length : Nat} (h : IsRun ps (start, length)) :
    ps.drop start = List.replicate length 0 ++ ps.drop (start + length) := by
  obtain ⟨rest, hrest⟩ := List.takeWhile_prefix (l := ps.drop start) (· = 0)
  have htake : (ps.drop start).take length = List.replicate length 0 := by
    rw [← hrest, List.take_append_of_le_length h, List.eq_replicate_iff]
    constructor
    · rw [List.length_take]
      exact Nat.min_eq_left h
    · intro p hp
      have hzero := List.all_eq_true.mp List.all_takeWhile p (List.mem_of_mem_take hp)
      exact of_decide_eq_true hzero
  rw [← htake, ← List.drop_drop]
  exact (List.take_append_drop length _).symm

/-! ## The gap -/

/-- Two sides with a text before the first one. -/
def precede (front : List Char) (sides : Option (List Char × List Char)) :
    Option (List Char × List Char) :=
  sides.map fun (a, b) => (front ++ a, b)

@[simp] theorem precede_nil (sides : Option (List Char × List Char)) : precede [] sides = sides := by
  cases sides <;> rfl

@[simp] theorem precede_precede (front back : List Char) (sides : Option (List Char × List Char)) :
    precede front (precede back sides) = precede (front ++ back) sides := by
  cases sides <;> simp [precede]

theorem splitGap_cons {c : Char} {rest : List Char} (h : c ≠ ':' ∨ rest.head? ≠ some ':') :
    splitGap (c :: rest) = precede [c] (splitGap rest) := by
  rw [splitGap]
  · rfl
  · rintro after rfl rfl
    simp at h

theorem splitGap_append {digits : List Char} (h : ':' ∉ digits) (rest : List Char) :
    splitGap (digits ++ rest) = precede digits (splitGap rest) := by
  induction digits with
  | nil => rw [precede_nil, List.nil_append]
  | cons c digits ih =>
    have hc : c ≠ ':' := fun hc => h (hc ▸ List.mem_cons_self)
    rw [List.cons_append, splitGap_cons (.inl hc), ih fun hd => h (List.mem_cons_of_mem c hd),
      precede_precede]
    rfl

theorem hexText_singleton (p : Nat) : hexText [p] = Nat.toDigits 16 p := by
  rw [hexText, List.map_singleton, List.intercalate_singleton]

theorem head?_hexText (p : Nat) (ps : List Nat) (rest : List Char) :
    (hexText (p :: ps) ++ rest).head? ≠ some ':' := by
  have hdigits : ∃ c more, Nat.toDigits 16 p = c :: more :=
    List.exists_cons_of_ne_nil Nat.toDigits_ne_nil
  obtain ⟨c, more, hp⟩ := hdigits
  have hc : c ≠ ':' := fun hc => colon_not_mem_toDigits p (by rw [hp, hc]; exact List.mem_cons_self)
  cases ps with
  | nil => simpa [hexText_singleton, hp] using hc
  | cons q ps => simpa [hexText_cons, hp] using hc

/-- There is no gap in pieces that are all written, so the first one comes after them. -/
theorem splitGap_hexText (ps : List Nat) (rest : List Char) :
    splitGap (hexText ps ++ rest) = precede (hexText ps) (splitGap rest) := by
  induction ps with
  | nil => exact (precede_nil _).symm
  | cons p ps ih =>
    cases ps with
    | nil =>
      rw [hexText_singleton]
      exact splitGap_append (colon_not_mem_toDigits p) rest
    | cons q ps =>
      rw [hexText_cons, List.append_assoc, splitGap_append (colon_not_mem_toDigits p),
        List.cons_append, splitGap_cons (.inr (head?_hexText q ps rest)), ih]
      simp

def side (s : List Char) : Option (List Nat) := if s.isEmpty then some [] else pieces? s

theorem side_hexText {ps : List Nat} (h : ∀ p ∈ ps, p < Word.size 16) :
    side (hexText ps) = some ps := by
  cases ps with
  | nil => rfl
  | cons p ps =>
    have hne : (hexText (p :: ps)).isEmpty = false := by
      cases ps with
      | nil => simp [hexText_singleton, Nat.toDigits_ne_nil]
      | cons q ps => simp [hexText_cons]
    unfold side
    rw [hne]
    exact pieces?_hexText (List.cons_ne_nil p ps) h

/-! ## IPv6 -/

def IsPieces (ps : List Nat) : Prop := ps.length = 8 ∧ ∀ p ∈ ps, p < Word.size 16

theorem ipv6Text_eq (ps : List Nat) : (ipv6Text ps).toList =
    if (longestZeros ps).2 < 2 then hexText ps
    else hexText (ps.take (longestZeros ps).1) ++ "::".toList ++
      hexText (ps.drop ((longestZeros ps).1 + (longestZeros ps).2)) := by
  have hhex (ps : List Nat) :
      (":".intercalate (ps.map fun p => String.ofList (Nat.toDigits 16 p))).toList = hexText ps := by
    rw [String.toList_intercalate, List.map_map, hexText]
    have hdigits : String.toList ∘ (fun p => String.ofList (Nat.toDigits 16 p)) = Nat.toDigits 16 :=
      funext fun p => String.toList_ofList
    rw [hdigits]
    rfl
  unfold ipv6Text
  dsimp only
  split
  · exact hhex ps
  · rw [String.toList_append, String.toList_append, hhex, hhex]

/-- Two sides are read with as many zeros between them as are missing. -/
theorem ofIpv6_of_gap {s before after : List Char} {front back : List Nat}
    (hgap : splitGap s = some (before, after)) (hdot : before.contains '.' = false)
    (hfront : side before = some front) (hback : side after = some back)
    (hfits : front.length + back.length ≤ 7) : ofIpv6 s =
      .ok (.ipv6 (front ++ List.replicate (8 - front.length - back.length) 0 ++ back)) := by
  unfold side at hfront hback
  unfold ofIpv6
  simp only [hgap, hdot, hfront, hback]
  simp [Nat.not_lt.mpr hfits]

theorem ofIpv6_text {ps : List Nat} (h : IsPieces ps) :
    ofIpv6 (ipv6Text ps).toList = .ok (.ipv6 ps) := by
  obtain ⟨hlength, hsmall⟩ := h
  have hrun := isRun_longestZeros ps
  rw [ipv6Text_eq]
  generalize longestZeros ps = place at hrun ⊢
  obtain ⟨start, length⟩ := place
  dsimp only
  split
  · -- all pieces are written
    have hgap : splitGap (hexText ps) = none := by
      have hsplit := splitGap_hexText ps []
      rw [List.append_nil] at hsplit
      exact hsplit
    have hne : ps ≠ [] := by
      rintro rfl
      cases hlength
    unfold ofIpv6
    simp only [hgap, pieces?_hexText hne hsmall, Option.filter_some, hlength, decide_true, if_true]
  · next hlong =>
    -- a run of zeros is left out
    have hzeros := hrun.drop_eq
    have hfits : start + length ≤ 8 := by
      have hdropped := congrArg List.length hzeros
      rw [List.length_append, List.length_replicate, List.length_drop, List.length_drop,
        hlength] at hdropped
      omega
    have hgap : splitGap (hexText (ps.take start) ++ "::".toList ++
        hexText (ps.drop (start + length))) =
        some (hexText (ps.take start), hexText (ps.drop (start + length))) := by
      rw [List.append_assoc, splitGap_hexText]
      show precede _ (splitGap (':' :: ':' :: hexText _)) = _
      simp [splitGap, precede]
    have hdot : (hexText (ps.take start)).contains '.' = false := by
      rw [List.contains_eq_mem, decide_eq_false_iff_not]
      exact not_mem_hexText (by decide)
    have hfront : side (hexText (ps.take start)) = some (ps.take start) :=
      side_hexText fun p hp => hsmall p (List.mem_of_mem_take hp)
    have hback : side (hexText (ps.drop (start + length))) = some (ps.drop (start + length)) :=
      side_hexText fun p hp => hsmall p (List.mem_of_mem_drop hp)
    have hcount : (ps.take start).length = start ∧
        (ps.drop (start + length)).length = 8 - (start + length) := by
      constructor
      · rw [List.length_take, hlength]
        omega
      · rw [List.length_drop, hlength]
    have hfilled : ps.take start ++ List.replicate length 0 ++ ps.drop (start + length) = ps := by
      rw [List.append_assoc, ← hzeros]
      exact List.take_append_drop start ps
    have hread := ofIpv6_of_gap hgap hdot hfront hback (by omega)
    rw [hread, hcount.1, hcount.2]
    have hwidth : 8 - start - (8 - (start + length)) = length := by omega
    rw [hwidth, hfilled]

theorem lt_of_dottedPieces? {s : List Char} {ps : List Nat} (h : dottedPieces? s = some ps) :
    ∀ p ∈ ps, p < Word.size 16 := by
  have hsize : Word.size 16 = 65536 := by decide
  unfold dottedPieces? at h
  dsimp only at h
  split at h
  · cases h
  simp only [Option.bind_eq_bind, Option.bind_eq_some_iff] at h
  obtain ⟨numbers, hnumbers, hps⟩ := h
  have hsmall : ∀ n ∈ numbers, n < 256 := by
    refine forall_of_mapM (fun l n hl => ?_) hnumbers
    split at hl
    · cases hl
    · simpa using (Option.filter_eq_some_iff.mp hl).2
  split at hps
  · next a b c d =>
    cases hps
    have ha := hsmall a (by simp)
    have hb := hsmall b (by simp)
    have hc := hsmall c (by simp)
    have hd := hsmall d (by simp)
    intro p hp
    rw [hsize]
    simp only [List.mem_cons, List.not_mem_nil, or_false] at hp
    omega
  · cases hps

theorem lt_of_pieces? {s : List Char} {ps : List Nat} (h : pieces? s = some ps) :
    ∀ p ∈ ps, p < Word.size 16 := by
  unfold pieces? at h
  dsimp only at h
  split at h
  · cases h
  next last hlast =>
  simp only [Option.bind_eq_bind, Option.bind_eq_some_iff] at h
  obtain ⟨front, hfront, h⟩ := h
  have hleading : ∀ p ∈ front, p < Word.size 16 :=
    forall_of_mapM (fun _ _ => lt_of_hexPiece?) hfront
  intro p hp
  split at h
  all_goals
    simp only [Option.bind_eq_some_iff] at h
    obtain ⟨back, hback, h⟩ := h
    cases h
    rcases List.mem_append.mp hp with hp | hp
    · exact hleading p hp
  · exact lt_of_dottedPieces? hback p hp
  · obtain rfl := List.mem_singleton.mp hp
    exact lt_of_hexPiece? hback

theorem isPieces_of_ofIpv6 {s : List Char} {host : Host} (h : ofIpv6 s = .ok host) :
    ∃ ps, host = .ipv6 ps ∧ IsPieces ps := by
  have hzero : 0 < Word.size 16 := Word.size_pos 16
  have hside {s : List Char} {ps : List Nat} (hps : side s = some ps) :
      ∀ p ∈ ps, p < Word.size 16 := by
    unfold side at hps
    split at hps
    · cases hps
      exact List.forall_mem_nil _
    · exact lt_of_pieces? hps
  unfold ofIpv6 at h
  dsimp only at h
  split at h
  next ps hpieces =>
    cases h
    refine ⟨ps, rfl, ?_⟩
    split at hpieces
    · obtain ⟨hread, hlength⟩ := Option.filter_eq_some_iff.mp hpieces
      exact ⟨of_decide_eq_true hlength, lt_of_pieces? hread⟩
    · next before after hgap =>
      split at hpieces
      · cases hpieces
      simp only [Option.bind_eq_bind, Option.bind_eq_some_iff] at hpieces
      obtain ⟨front, hfront, back, hback, hps⟩ := hpieces
      split at hps
      · cases hps
      next hfits =>
      cases hps
      constructor
      · simp only [List.length_append, List.length_replicate]
        omega
      · intro p hp
        rcases List.mem_append.mp hp with hp | hp
        · rcases List.mem_append.mp hp with hp | hp
          · exact hside hfront p hp
          · rw [List.eq_of_mem_replicate hp]
            exact hzero
        · exact hside hback p hp
  · cases h

end Host

end Agents.Url
