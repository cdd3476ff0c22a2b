import Agents.Proofs.Url.Address
import Agents.Proofs.Url.Percent

/-! # Hosts are read back

A domain is kept in ASCII and in lower case, so that to write it and to read it again changes
nothing. The text of any host that was read is read as that host (`Host.parse_text`), and the same is
true of the hosts of other schemes, which are kept as they are (`Host.parseOpaque_text`).
-/

namespace Agents

namespace Text

/-! ## Checking characters -/

/-- What holds of every character of ASCII is checked by going through them. -/
theorem of_ascii {P : Char → Prop} (h : ∀ n < 128, P (Char.ofNat n)) {c : Char}
    (hc : c.toNat < 128) : P c := by
  simpa only [Char.ofNat_toNat] using h c.toNat hc

theorem forall_mem {P : Char → Prop} [DecidablePred P] {s : List Char}
    (h : s.all (fun c => decide (P c)) = true) : ∀ c ∈ s, P c :=
  fun c hc => of_decide_eq_true (List.all_eq_true.mp h c hc)

/-! ## Small letters -/

/-- A character of ASCII that is no capital. -/
def IsSmall (c : Char) : Prop := c.toNat < 128 ∧ c.isUpper = false

theorem toLower_of_not_upper {c : Char} (h : c.isUpper = false) : c.toLower = c := by
  unfold Char.isUpper at h
  unfold Char.toLower
  exact dif_neg (of_decide_eq_false h)

theorem isUpper_toLower {c : Char} (h : c.toNat < 128) : c.toLower.isUpper = false :=
  of_ascii (P := fun c => c.toLower.isUpper = false) (by decide +kernel) h

theorem lowerAfter_of_small {s : List Char} (h : ∀ c ∈ s, IsSmall c) (before : List Char) :
    lowerAfter before s = s := by
  induction s generalizing before with
  | nil => rfl
  | cons c rest ih =>
    obtain ⟨hascii, hupper⟩ := h c List.mem_cons_self
    have hsigma : c ≠ 'Σ' := by
      rintro rfl
      exact absurd hascii (by decide)
    have hlower : lowerChar c = [c] := by
      unfold lowerChar
      rw [if_pos hascii, toLower_of_not_upper hupper]
    rw [lowerAfter, if_neg hsigma, hlower, ih fun d hd => h d (List.mem_cons_of_mem c hd)]
    rfl

theorem isUpper_eq_false {c : Char} (h : 90 < c.toNat) : c.isUpper = false := by
  unfold Char.isUpper
  refine decide_eq_false fun hle => ?_
  have hZ : c.toNat ≤ 'Z'.toNat := hle.2
  exact absurd hZ (Nat.not_le.mpr h)

/-- Only characters of ASCII are changed. -/
theorem toLower_cases (c : Char) : c.toNat < 128 ∨ c.toLower = c := by
  by_cases hc : c.toNat < 128
  · exact .inl hc
  · exact .inr (toLower_of_not_upper (isUpper_eq_false (by omega)))

theorem isUpper_ofNat {n : Nat} (h : 90 < n) : (Char.ofNat n).isUpper = false := by
  by_cases hvalid : n.isValidChar
  · have hn : (Char.ofNat n).toNat = n := by
      rw [Char.ofNat, dif_pos hvalid]
      rfl
    exact isUpper_eq_false (by rw [hn]; exact h)
  · rw [Char.ofNat, dif_neg hvalid]
    decide

/-- What is put in the place of a character that is not ASCII is no capital of ASCII. -/
theorem isUpper_of_mem_mapCase {c d : Char} (h : d ∈ mapCase lowerExpansions lowerRuns c) :
    c.isUpper = false → d.isUpper = false := by
  have hexpansions : ∀ entry ∈ lowerExpansions, ∀ n ∈ entry.2, 90 < n := by decide
  have hruns : ∀ run ∈ lowerRuns, 90 < (run.first : Int) + run.shift := by decide +kernel
  intro hc
  unfold mapCase at h
  split at h
  · next chars hlookup =>
    obtain ⟨n, hn, rfl⟩ := List.mem_map.mp h
    obtain ⟨before, after, hentries, -⟩ := List.lookup_eq_some_iff.mp hlookup
    exact isUpper_ofNat (hexpansions (c.toNat, chars) (by simp [hentries]) n hn)
  · split at h
    · next run hrun =>
      obtain rfl := List.mem_singleton.mp h
      have hfirst := hruns run (List.mem_of_find?_eq_some hrun)
      have hcontains : run.contains c.toNat = true := by simpa using List.find?_some hrun
      have hle : run.first ≤ c.toNat := by
        simp only [CaseRun.contains, Bool.and_eq_true, decide_eq_true_eq] at hcontains
        exact hcontains.1.1
      refine isUpper_ofNat ?_
      omega
    · obtain rfl := List.mem_singleton.mp h
      exact hc

theorem isUpper_of_mem_lowerAfter {before s : List Char} {c : Char} (h : c ∈ lowerAfter before s) :
    c.isUpper = false := by
  induction s generalizing before with
  | nil => cases h
  | cons d rest ih =>
    rw [lowerAfter] at h
    rcases List.mem_append.mp h with hd | hrest
    · split at hd
      · split at hd
        all_goals
          obtain rfl := List.mem_singleton.mp hd
          decide
      · unfold lowerChar at hd
        split at hd
        · next hascii =>
          obtain rfl := List.mem_singleton.mp hd
          exact isUpper_toLower hascii
        · next hascii =>
          have hd' : 90 < d.toNat := Nat.lt_of_lt_of_le (by decide) (Nat.le_of_not_lt hascii)
          exact isUpper_of_mem_mapCase hd (isUpper_eq_false hd')
    · exact ih hrest

end Text

namespace Url.Host

open Text

/-! ## Domains -/

def IsDomainChar (c : Char) : Prop := IsSmall c ∧ isForbidden c = false

theorem punycodeDigit_isDomainChar {n : Nat} (h : n < 36) : IsDomainChar (punycodeDigit n) := by
  have hall : ∀ n < 36, ((punycodeDigit n).toNat < 128 ∧ (punycodeDigit n).isUpper = false) ∧
      isForbidden (punycodeDigit n) = false := by decide +kernel
  exact hall n h

theorem punycodeNumber_isDomainChar {bias fuel q k : Nat} {c : Char}
    (h : c ∈ punycodeNumber bias fuel q k) : IsDomainChar c := by
  induction fuel generalizing q k with
  | zero => cases h
  | succ fuel ih =>
    rw [punycodeNumber] at h
    have ht : (if k ≤ bias then 1 else min 26 (k - bias)) ≤ 26 := by split <;> omega
    generalize (if k ≤ bias then 1 else min 26 (k - bias)) = t at h ht
    split at h
    · next hlast =>
      obtain rfl := List.mem_singleton.mp h
      exact punycodeDigit_isDomainChar (by omega)
    · rcases List.mem_cons.mp h with rfl | hrest
      · have hdigit : (q - t) % (36 - t) < 36 - t := Nat.mod_lt _ (by omega)
        exact punycodeDigit_isDomainChar (by omega)
      · exact ih hrest

/-- All that was put out so far may stand in a domain. -/
def PunycodeState.Plain (s : PunycodeState) : Prop := ∀ c ∈ s.output, IsDomainChar c

theorem PunycodeState.Plain.pass {s : PunycodeState} (h : s.Plain) (label : List Char)
    (basic m : Nat) : (punycodePass label basic m s).Plain := by
  have hstep (cs : List Char) (s : PunycodeState) (hs : s.Plain) :
      (cs.foldl (fun s c =>
        if c.toNat < m then { s with delta := s.delta + 1 }
        else if c.toNat = m then
          { s with
            output := s.output ++ punycodeNumber s.bias 64 s.delta 36
            bias := adaptBias s.delta (s.handled + 1) (s.handled = basic)
            delta := 0
            handled := s.handled + 1 }
        else s) s).Plain := by
    induction cs generalizing s with
    | nil => exact hs
    | cons c rest ih =>
      rw [List.foldl_cons]
      refine ih _ ?_
      split
      · exact hs
      split
      · intro d hd
        rcases List.mem_append.mp hd with hd | hd
        · exact hs d hd
        · exact punycodeNumber_isDomainChar hd
      · exact hs
  exact hstep label _ h

theorem punycode_isDomainChar {label : List Char} (h : ∀ c ∈ label, c.toNat < 128 → IsDomainChar c)
    {c : Char} (hc : c ∈ punycode label) : IsDomainChar c := by
  unfold punycode at hc
  extract_lets basic others start s at hc
  have hpasses (ms : List Nat) (s : PunycodeState) (hs : s.Plain) :
      (ms.foldl (fun s m => punycodePass label basic.length m s) s).Plain := by
    induction ms generalizing s with
    | nil => exact hs
    | cons m rest ih => exact ih _ (hs.pass label basic.length m)
  have hs : s.Plain := hpasses others start (List.forall_mem_nil _)
  rcases List.mem_append.mp hc with hc | hc
  · rcases List.mem_append.mp hc with hc | hc
    · obtain ⟨hlabel, hascii⟩ := List.mem_filter.mp hc
      exact h c hlabel (of_decide_eq_true hascii)
    · split at hc
      · cases hc
      · obtain rfl := List.mem_singleton.mp hc
        exact ⟨⟨by decide, by decide⟩, by decide⟩
  · exact hs c hc

theorem asciiLabel_isDomainChar {label : List Char}
    (h : ∀ c ∈ label, c.toNat < 128 → IsDomainChar c) {c : Char} (hc : c ∈ asciiLabel label) :
    IsDomainChar c := by
  unfold asciiLabel at hc
  split at hc
  · next hascii => exact h c hc (of_decide_eq_true (List.all_eq_true.mp hascii c hc))
  · rcases List.mem_append.mp hc with hmark | hc
    · have hall : ∀ c ∈ "xn--".toList, (c.toNat < 128 ∧ c.isUpper = false) ∧
          isForbidden c = false := forall_mem (by decide)
      exact hall c hmark
    · exact punycode_isDomainChar h hc

theorem mem_intercalate {mark c : Char} {pieces : List (List Char)}
    (h : c ∈ [mark].intercalate pieces) : c = mark ∨ ∃ p ∈ pieces, c ∈ p := by
  induction pieces with
  | nil => cases h
  | cons p rest ih =>
    cases rest with
    | nil =>
      rw [List.intercalate_singleton] at h
      exact .inr ⟨p, List.mem_cons_self, h⟩
    | cons q rest =>
      rw [List.intercalate_cons_cons] at h
      rcases List.mem_append.mp h with h | h
      · rcases List.mem_append.mp h with h | h
        · exact .inr ⟨p, List.mem_cons_self, h⟩
        · exact .inl (List.mem_singleton.mp h)
      · rcases ih h with hmark | ⟨piece, hpiece, hc⟩
        · exact .inl hmark
        · exact .inr ⟨piece, List.mem_cons_of_mem p hpiece, hc⟩

theorem isDomainChar_of_domainToAscii {s domain : List Char} (h : domainToAscii s = .ok domain) :
    ∀ c ∈ domain, IsDomainChar c := by
  unfold domainToAscii at h
  extract_lets lower dotted at h
  split at h
  · cases h
  next hallowed =>
  obtain rfl := Except.ok.inj h
  have hdotted : ∀ c ∈ dotted, c.toNat < 128 → IsDomainChar c := by
    intro c hc hascii
    refine ⟨⟨hascii, ?_⟩, ?_⟩
    · obtain ⟨d, hd, hmap⟩ := List.mem_map.mp hc
      split at hmap
      · rw [← hmap]
        decide
      · rw [← hmap]
        have hlower : d ∈ lowerAfter [] s := by
          have hd' : d ∈ (Text.toLower (String.ofList s)).toList := hd
          simpa [Text.toLower] using hd'
        exact isUpper_of_mem_lowerAfter hlower
    · cases hforbidden : isForbidden c with
      | false => rfl
      | true => exact absurd (List.any_eq_true.mpr ⟨c, hc, hforbidden⟩) hallowed
  intro c hc
  have hmark : ".".toList = ['.'] := rfl
  rw [hmark] at hc
  rcases mem_intercalate hc with rfl | ⟨piece, hpiece, hc⟩
  · exact ⟨⟨by decide, by decide⟩, by decide⟩
  · obtain ⟨label, hlabel, rfl⟩ := List.mem_map.mp hpiece
    exact asciiLabel_isDomainChar (fun d hd => hdotted d (mem_of_mem_splitOn hlabel hd).1) hc

theorem domainToAscii_of_plain {domain : List Char} (h : ∀ c ∈ domain, IsDomainChar c) :
    domainToAscii domain = .ok domain := by
  have hlower : (Text.toLower (String.ofList domain)).toList = domain := by
    rw [Text.toLower, String.toList_ofList, String.toList_ofList]
    exact lowerAfter_of_small (fun c hc => (h c hc).1) []
  have hdotted : domain.map (fun c => if c = '。' then '.' else c) = domain := by
    refine (List.map_congr_left fun c hc => ?_).trans (List.map_id domain)
    have hne : c ≠ '。' := by
      rintro rfl
      exact absurd (h _ hc).1.1 (by decide)
    exact if_neg hne
  have hallowed : domain.any isForbidden = false :=
    List.any_eq_false.mpr fun c hc => by simp [(h c hc).2]
  have hlabels : (splitOn '.' domain).map asciiLabel = splitOn '.' domain := by
    refine (List.map_congr_left fun label hlabel => ?_).trans (List.map_id _)
    have hascii : label.all (·.toNat < 128) = true :=
      List.all_eq_true.mpr fun c hc =>
        decide_eq_true (h c (mem_of_mem_splitOn hlabel hc).1).1.1
    exact if_pos hascii
  unfold domainToAscii
  simp only [hlower, hdotted, hallowed, hlabels]
  exact congrArg Except.ok (intercalate_splitOn '.' domain)

/-! ## Hosts of schemes with servers -/

/-- A host as reading leaves it. -/
inductive IsRead : Host → Prop
  | domain {name : String} : (∀ c ∈ name.toList, IsDomainChar c) → name.toList ≠ [] →
      endsInNumber name.toList = false → IsRead (.domain name)
  | ipv4 {address : Nat} : address < Word.size 32 → IsRead (.ipv4 address)
  | ipv6 {pieces : List Nat} : IsPieces pieces → IsRead (.ipv6 pieces)

theorem toByteArray_eq (bs : List UInt8) : (⟨bs.toArray⟩ : ByteArray) = bs.toByteArray := by
  apply ByteArray.ext
  rw [← Array.toList_inj, List.toList_data_toByteArray]

/-- A text in brackets is an IPv6 address; any other is a domain, and that may be an address. -/
theorem parse_cases {s : List Char} {host : Host} (h : parse s = .ok host) :
    (∃ inner, ofIpv6 inner = .ok host) ∨ ∃ domain, (∀ c ∈ domain, IsDomainChar c) ∧ domain ≠ [] ∧
      (if endsInNumber domain then ofIpv4 domain else .ok (.domain (String.ofList domain))) =
        .ok host := by
  unfold parse at h
  split at h
  · split at h
    · exact .inl ⟨_, h⟩
    · cases h
  · split at h
    · cases h
    next decoded _ =>
    cases hdomain : domainToAscii decoded.toList with
    | error e =>
      rw [hdomain] at h
      cases h
    | ok domain =>
      rw [hdomain] at h
      change (if domain = [] then _ else _) = _ at h
      split at h
      · cases h
      next hne =>
      exact .inr ⟨domain, isDomainChar_of_domainToAscii hdomain, hne, h⟩

theorem isRead_of_parse {s : List Char} {host : Host} (h : parse s = .ok host) : IsRead host := by
  rcases parse_cases h with ⟨inner, hinner⟩ | ⟨domain, hplain, hne, hhost⟩
  · obtain ⟨pieces, rfl, hpieces⟩ := isPieces_of_ofIpv6 hinner
    exact .ipv6 hpieces
  split at hhost
  · obtain ⟨address, rfl, haddress⟩ := lt_of_ofIpv4 hhost
    exact .ipv4 haddress
  · next hnumber =>
    obtain rfl := Except.ok.inj hhost
    refine .domain ?_ ?_ ?_
    · simpa using hplain
    · simpa using hne
    · simpa using hnumber

theorem parse_of_plain {domain : List Char} (h : ∀ c ∈ domain, IsDomainChar c) (hne : domain ≠ []) :
    parse domain =
      if endsInNumber domain then ofIpv4 domain else .ok (.domain (String.ofList domain)) := by
  have hpercent : '%' ∉ domain := fun hc => absurd (h _ hc).2 (by decide)
  have hread :
      String.fromUTF8? ⟨(Percent.decode domain).toArray⟩ = some (String.ofList domain) := by
    rw [toByteArray_eq, fromUTF8?_eq_some_iff, Percent.decode_of_plain hpercent, bytes_eq,
      String.toList_ofList]
  unfold parse
  split
  · exact absurd (h '[' List.mem_cons_self).2 (by decide)
  · rw [hread]
    simp only [String.toList_ofList, domainToAscii_of_plain h]
    show (if domain = [] then _ else _) = _
    rw [if_neg hne]
    rfl

theorem isDomainChar_of_isDigit {c : Char} (h : c.isDigit = true) : IsDomainChar c := by
  have hascii : c.toNat < 128 := by
    have hle : c.toNat ≤ '9'.toNat := by
      simp only [Char.isDigit, Bool.and_eq_true, decide_eq_true_eq] at h
      exact h.2
    exact Nat.lt_of_le_of_lt hle (by decide)
  exact of_ascii (P := fun c => c.isDigit = true →
    (c.toNat < 128 ∧ c.isUpper = false) ∧ isForbidden c = false) (by decide +kernel) hascii h

theorem isDomainChar_of_mem_ipv4 {address : Nat} {c : Char}
    (h : c ∈ (text (.ipv4 address)).toList) : IsDomainChar c := by
  rw [text_ipv4] at h
  rcases mem_intercalate h with rfl | ⟨piece, hpiece, hc⟩
  · exact ⟨⟨by decide, by decide⟩, by decide⟩
  · obtain ⟨n, -, rfl⟩ := List.mem_map.mp hpiece
    exact isDomainChar_of_isDigit ((digits_of_toString n).2 c hc)

/-- A domain whose last label is made of digits ends in a number. -/
theorem endsInNumber_of_digits {domain last : List Char} {before : List (List Char)}
    (h : splitOn '.' domain = before ++ [last]) (hne : last ≠ [])
    (hdigits : ∀ c ∈ last, c.isDigit = true) : endsInNumber domain = true := by
  obtain ⟨c, rest, rfl⟩ := List.exists_cons_of_ne_nil hne
  have hall : (c :: rest).all Char.isDigit = true := List.all_eq_true.mpr hdigits
  unfold endsInNumber
  rw [h, List.reverse_append]
  show ((!(c :: rest).isEmpty && (c :: rest).all Char.isDigit) || _) = true
  rw [hall]
  rfl

theorem endsInNumber_ipv4 (address : Nat) :
    endsInNumber (text (.ipv4 address)).toList = true := by
  have hlabels : splitOn '.' (text (.ipv4 address)).toList =
      ([24, 16, 8].map fun shift => (toString (address >>> shift % 256)).toList) ++
        [(toString (address >>> 0 % 256)).toList] := by
    rw [text_ipv4, splitOn_octets]
    rfl
  obtain ⟨hne, hdigits⟩ := digits_of_toString (address >>> 0 % 256)
  exact endsInNumber_of_digits hlabels hne hdigits

theorem text_ipv4_ne_nil (address : Nat) : (text (.ipv4 address)).toList ≠ [] := by
  intro hnil
  have hnumber := endsInNumber_ipv4 address
  rw [hnil] at hnumber
  exact absurd hnumber (by decide)

theorem text_ipv6 (pieces : List Nat) :
    (text (.ipv6 pieces)).toList = '[' :: ((ipv6Text pieces).toList ++ [']']) := by
  show ("[" ++ ipv6Text pieces ++ "]").toList = _
  rw [String.toList_append, String.toList_append]
  rfl

theorem ofIpv6_brackets {pieces : List Nat} (h : IsPieces pieces) :
    ofIpv6 ((ipv6Text pieces).toList ++ [']']).dropLast = .ok (.ipv6 pieces) := by
  rw [List.dropLast_concat]
  exact ofIpv6_text h

/-- The text of a host that was read is read as that host. -/
theorem parse_text {host : Host} (h : IsRead host) : parse host.text.toList = .ok host := by
  cases h with
  | @domain name hplain hne hnumber =>
    show parse name.toList = _
    rw [parse_of_plain hplain hne, hnumber, String.ofList_toList]
    rfl
  | @ipv4 address haddress =>
    have hplain : ∀ c ∈ (text (.ipv4 address)).toList, IsDomainChar c :=
      fun c => isDomainChar_of_mem_ipv4
    rw [parse_of_plain hplain (text_ipv4_ne_nil address), if_pos (endsInNumber_ipv4 address)]
    exact ofIpv4_text haddress
  | @ipv6 pieces hpieces =>
    rw [text_ipv6]
    exact (if_pos List.getLast?_concat).trans (ofIpv6_brackets hpieces)

/-! ## Hosts of other schemes -/

inductive IsKept : Host → Prop
  | domain {name : String} : (∀ c ∈ name.toList, isForbiddenOpaque c = false ∧
      Percent.isControl c = false) → IsKept (.domain name)
  | ipv6 {pieces : List Nat} : IsPieces pieces → IsKept (.ipv6 pieces)

theorem isKept_of_parseOpaque {s : List Char} {host : Host} (h : parseOpaque s = .ok host) :
    IsKept host := by
  unfold parseOpaque at h
  split at h
  · split at h
    · obtain ⟨pieces, rfl, hpieces⟩ := isPieces_of_ofIpv6 h
      exact .ipv6 hpieces
    · cases h
  · split at h
    · cases h
    next hallowed =>
    obtain rfl := Except.ok.inj h
    refine .domain fun c hc => ?_
    rw [String.toList_ofList] at hc
    have hescapes : ∀ c ∈ Percent.escapes,
        isForbiddenOpaque c = false ∧ Percent.isControl c = false := forall_mem (by decide)
    rcases Percent.mem_encode hc with ⟨hs, hcontrol⟩ | hescape
    · refine ⟨?_, hcontrol⟩
      cases hforbidden : isForbiddenOpaque c with
      | false => rfl
      | true => exact absurd (List.any_eq_true.mpr ⟨c, hs, hforbidden⟩) hallowed
    · exact hescapes c hescape

theorem parseOpaque_text {host : Host} (h : IsKept host) :
    parseOpaque host.text.toList = .ok host := by
  cases h with
  | @domain name hplain =>
    show parseOpaque name.toList = _
    have hallowed : name.toList.any isForbiddenOpaque = false :=
      List.any_eq_false.mpr fun c hc => by simp [(hplain c hc).1]
    unfold parseOpaque
    split
    · next hname => exact absurd (hplain '[' (hname ▸ List.mem_cons_self)).1 (by decide)
    · rw [hallowed, Percent.encode_of_plain fun c hc => (hplain c hc).2, String.ofList_toList]
      rfl
  | @ipv6 pieces hpieces =>
    rw [text_ipv6]
    exact (if_pos List.getLast?_concat).trans (ofIpv6_brackets hpieces)

end Url.Host

end Agents
