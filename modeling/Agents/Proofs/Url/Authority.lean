import Agents.Proofs.Url.Host
import Agents.Url.Parser

/-! # Authorities are read back

What stands between the slashes and the path is cut at the last at sign and at the colon of the
port. Neither stands in a user, a password or a host as they are written, so that the text of an
authority that was read is read as that authority (`readAuthority_text`).
-/

namespace Agents.Url

/-! ## Cutting -/

section Cutting

variable {set : Char → Bool} {s front back : List Char}

theorem cut_append (hfront : ∀ c ∈ front, set c = false) (hback : ∀ c ∈ back.head?, set c = true) :
    cut set (front ++ back) = (front, back) := by
  have hkept : ∀ c ∈ front, (!set c) = true := fun c hc => by simp [hfront c hc]
  have hstop : back.takeWhile (!set ·) = [] ∧ back.dropWhile (!set ·) = back := by
    cases back with
    | nil => exact ⟨rfl, rfl⟩
    | cons c rest =>
      have hc : ¬ (!set c) = true := by simp [hback c rfl]
      exact ⟨List.takeWhile_cons_of_neg hc, List.dropWhile_cons_of_neg hc⟩
  unfold cut
  rw [List.takeWhile_append_of_pos hkept, List.dropWhile_append_of_pos hkept, hstop.1, hstop.2,
    List.append_nil]

end Cutting

/-! ## Characters -/

def IsVisible (c : Char) : Prop := 0x20 < c.toNat

theorem isVisible_of_not_control {c : Char} (h : Percent.isControl c = false) (hblank : c ≠ ' ') :
    IsVisible c := by
  unfold Percent.isControl at h
  rw [Bool.or_eq_false_iff] at h
  have hle : ¬ c.toNat < 0x20 := of_decide_eq_false h.1
  have hne : c.toNat ≠ 0x20 := fun heq => hblank (Char.toNat_inj.mp heq)
  unfold IsVisible
  omega

/-- What ends an authority or the user in front of its host. -/
def marks : List Char := "/?#@\\".toList

def IsHostChar (c : Char) : Prop := IsVisible c ∧ c ∉ marks

/-! ## Hosts -/

namespace Host

theorem isHostChar_of_isDomainChar {c : Char} (h : IsDomainChar c) : IsHostChar c := by
  have hforbidden := h.2
  unfold isForbidden at hforbidden
  simp only [Bool.or_eq_false_iff, decide_eq_false_iff_not] at hforbidden
  refine ⟨Nat.lt_of_not_le hforbidden.1.1, fun hmark => ?_⟩
  have hall : ∀ c ∈ marks, isForbidden c = true := Text.forall_mem (by decide)
  exact absurd (h.2.symm.trans (hall c hmark)) Bool.false_ne_true

theorem mem_ipv6Text {pieces : List Nat} {c : Char} (h : c ∈ (ipv6Text pieces).toList) :
    c ∈ ":0123456789abcdef".toList := by
  rw [ipv6Text_eq] at h
  split at h
  · exact mem_hexText h
  · rcases List.mem_append.mp h with h | h
    · rcases List.mem_append.mp h with h | h
      · exact mem_hexText h
      · have hall : ∀ c ∈ "::".toList, c ∈ ":0123456789abcdef".toList :=
          Text.forall_mem (by decide)
        exact hall c h
    · exact mem_hexText h

theorem isHostChar_of_mem_text {host : Host} (h : IsRead host ∨ IsKept host) {c : Char}
    (hc : c ∈ host.text.toList) : IsHostChar c := by
  have hipv6 {pieces : List Nat} (hc : c ∈ (text (.ipv6 pieces)).toList) : IsHostChar c := by
    have hall : ∀ c ∈ "[]:0123456789abcdef".toList, 0x20 < c.toNat ∧ c ∉ marks :=
      Text.forall_mem (by decide)
    rw [text_ipv6] at hc
    refine hall c ?_
    rcases List.mem_cons.mp hc with rfl | hc
    · decide
    · rcases List.mem_append.mp hc with hc | hc
      · exact List.mem_cons_of_mem _ (List.mem_cons_of_mem _ (mem_ipv6Text hc))
      · rw [List.mem_singleton.mp hc]
        decide
  rcases h with h | h
  · cases h with
    | domain hplain _ _ => exact isHostChar_of_isDomainChar (hplain c hc)
    | ipv4 _ => exact isHostChar_of_isDomainChar (isDomainChar_of_mem_ipv4 hc)
    | ipv6 _ => exact hipv6 hc
  · cases h with
    | domain hplain =>
      obtain ⟨hforbidden, hcontrol⟩ := hplain c hc
      have hall : ∀ c ∈ ' ' :: marks, isForbiddenOpaque c = true :=
        Text.forall_mem (by decide)
      constructor
      · refine isVisible_of_not_control hcontrol ?_
        rintro rfl
        cases hforbidden
      · intro hmark
        rw [hall c (List.mem_cons_of_mem _ hmark)] at hforbidden
        cases hforbidden
    | ipv6 _ => exact hipv6 hc

end Host

/-! ## Ports -/

theorem cutPort_cons {c : Char} (hcolon : c ≠ ':') (hbracket : c ≠ '[') (rest : List Char) :
    cutPort false (c :: rest) = (c :: (cutPort false rest).1, (cutPort false rest).2) := by
  rw [cutPort, if_neg (by simp [hcolon])]
  simp [hbracket]

/-- What follows the host begins with a colon, if there is any. -/
def IsPortText (s : List Char) : Prop := ∀ c ∈ s.head?, c = ':'

theorem cutPort_nil {rest : List Char} (h : IsPortText rest) : cutPort false rest = ([], rest) := by
  cases rest with
  | nil => rfl
  | cons c rest =>
    obtain rfl : c = ':' := h c rfl
    rw [cutPort, if_pos ⟨rfl, rfl⟩]

theorem cutPort_plain {front rest : List Char} (hfront : ∀ c ∈ front, c ≠ ':' ∧ c ≠ '[')
    (hrest : IsPortText rest) : cutPort false (front ++ rest) = (front, rest) := by
  induction front with
  | nil => exact cutPort_nil hrest
  | cons c front ih =>
    obtain ⟨hcolon, hbracket⟩ := hfront c List.mem_cons_self
    rw [List.cons_append, cutPort_cons hcolon hbracket,
      ih fun d hd => hfront d (List.mem_cons_of_mem c hd)]

theorem cutPort_brackets {inner rest : List Char} (hinner : ∀ c ∈ inner, c ≠ ']')
    (hrest : IsPortText rest) : cutPort true (inner ++ ']' :: rest) = (inner ++ [']'], rest) := by
  induction inner with
  | nil =>
    rw [List.nil_append, cutPort, if_neg (by simp)]
    simp [cutPort_nil hrest]
  | cons c inner ih =>
    have hc : c ≠ ']' := hinner c List.mem_cons_self
    rw [List.cons_append, cutPort, if_neg (by simp)]
    simp [hc, ih fun d hd => hinner d (List.mem_cons_of_mem c hd)]

theorem cutPort_text {host : Host} (h : host.IsRead ∨ host.IsKept) {rest : List Char}
    (hrest : IsPortText rest) : cutPort false (host.text.toList ++ rest) =
      (host.text.toList, rest) := by
  have hipv6 (pieces : List Nat) : cutPort false ((Host.text (.ipv6 pieces)).toList ++ rest) =
      ((Host.text (.ipv6 pieces)).toList, rest) := by
    have hinner : ∀ c ∈ (Host.ipv6Text pieces).toList, c ≠ ']' := by
      rintro c hc rfl
      exact absurd (Host.mem_ipv6Text hc) (by decide)
    rw [Host.text_ipv6, List.cons_append, cutPort, if_neg (by simp), List.append_assoc,
      List.singleton_append]
    simp [cutPort_brackets hinner hrest]
  have hdomain {c : Char} (hc : Host.IsDomainChar c) : c ≠ ':' ∧ c ≠ '[' := by
    have hforbidden := hc.2
    constructor
    all_goals
      rintro rfl
      cases hforbidden
  rcases h with h | h
  · cases h with
    | domain hplain _ _ => exact cutPort_plain (fun c hc => hdomain (hplain c hc)) hrest
    | ipv4 _ => exact cutPort_plain (fun c hc => hdomain (Host.isDomainChar_of_mem_ipv4 hc)) hrest
    | ipv6 _ => exact hipv6 _
  · cases h with
    | domain hplain =>
      refine cutPort_plain (fun c hc => ?_) hrest
      have hforbidden := (hplain c hc).1
      constructor
      all_goals
        rintro rfl
        cases hforbidden
    | ipv6 _ => exact hipv6 _

def portText : Option Nat → List Char
  | none => []
  | some p => ':' :: (toString p).toList

theorem isPortText_portText (port : Option Nat) : IsPortText (portText port) := by
  cases port with
  | none => exact fun c hc => by cases hc
  | some p => exact fun c hc => (Option.some.inj hc).symm

/-- A port as reading leaves it. -/
def IsPortFor (scheme : String) (port : Option Nat) : Prop :=
  ∀ p, port = some p → p ≤ 65535 ∧ defaultPort? scheme ≠ some p

theorem readPort_portText {scheme : String} {port : Option Nat} (h : IsPortFor scheme port) :
    readPort scheme (portText port) = .ok port := by
  cases port with
  | none =>
    unfold readPort portText
    simp
  | some p =>
    obtain ⟨hle, hdefault⟩ := h p rfl
    have hdrop : (portText (some p)).drop 1 = (toString p).toList := rfl
    have hdigits : (toString p).toList.all Char.isDigit = true :=
      List.all_eq_true.mpr (Host.digits_of_toString p).2
    have hvalue : (toString p).toList.foldl (fun n c => 10 * n + (c.toNat - '0'.toNat)) 0 = p := by
      have hread : Nat.ofDigitChars 10 (toString p).toList 0 = p := by
        rw [Nat.toString_eq_ofList_toDigits, String.toList_ofList]
        exact Nat.ofDigitChars_ten_toDigits
      exact hread
    unfold readPort
    simp only [hdrop, hdigits, hvalue]
    simp [Nat.not_lt.mpr hle, hdefault]

theorem isPortFor_of_readPort {scheme : String} {s : List Char} {port : Option Nat}
    (h : readPort scheme s = .ok port) : IsPortFor scheme port := by
  unfold readPort at h
  extract_lets digits n at h
  split at h
  · cases h
  split at h
  · cases h
  next hle =>
  obtain rfl := Except.ok.inj h
  intro p hp
  split at hp
  · cases hp
  next hdefault =>
  obtain rfl := Option.some.inj hp
  exact ⟨Nat.le_of_not_lt hle, fun heq => hdefault (.inr heq)⟩

/-! ## Users -/

def userText (username password : String) : List Char :=
  if username = "" ∧ password = "" then []
  else username.toList ++ (if password = "" then [] else ':' :: password.toList) ++ ['@']

theorem Authority.text_eq (a : Authority) : a.text.toList =
    userText a.username a.password ++ a.host.text.toList ++ portText a.port := by
  unfold Authority.text userText
  dsimp only
  by_cases hpassword : a.password = ""
  · by_cases husername : a.username = ""
    · cases a.port <;> simp [hpassword, husername, portText]
    · cases a.port <;> simp [hpassword, husername, portText]
  · cases a.port <;> simp [hpassword, portText]

def IsUserText (s : String) : Prop := ∀ c ∈ s.toList, Percent.inUserInfo c = false

theorem userInfo_of_plain {s : List Char} (h : '@' ∉ s) : userInfo s = .ok ("", "", s) := by
  unfold userInfo
  rw [if_pos]
  simpa using h

theorem userInfo_userText {username password : String} (husername : IsUserText username)
    (hpassword : IsUserText password) {rest : List Char} (hrest : '@' ∉ rest)
    (hbare : rest = [] → username = "" ∧ password = "") :
    userInfo (userText username password ++ rest) = .ok (username, password, rest) := by
  by_cases hnone : username = "" ∧ password = ""
  · obtain ⟨rfl, rfl⟩ := hnone
    rw [userText, if_pos ⟨rfl, rfl⟩, List.nil_append]
    exact userInfo_of_plain hrest
  · have hfull : rest ≠ [] := fun hnil => hnone (hbare hnil)
    -- what stands before the last at sign, which is the only one
    let user := username.toList ++ (if password = "" then [] else ':' :: password.toList)
    have htext : userText username password ++ rest = user ++ '@' :: rest := by
      rw [userText, if_neg hnone, List.append_assoc]
      rfl
    have hlast : ((user ++ '@' :: rest).reverse.takeWhile (· ≠ '@')).reverse = rest := by
      have hsplit : (user ++ '@' :: rest).reverse = rest.reverse ++ '@' :: user.reverse := by simp
      rw [hsplit, Text.takeWhile_mark (by simpa using hrest), List.reverse_reverse]
    have hbefore : (user ++ '@' :: rest).take ((user ++ '@' :: rest).length - rest.length - 1) =
        user := by
      have hlength : (user ++ '@' :: rest).length - rest.length - 1 = user.length := by
        simp only [List.length_append, List.length_cons]
        omega
      rw [hlength, List.take_left]
    have hcut : cut (· = ':') user =
        (username.toList, if password = "" then [] else ':' :: password.toList) := by
      refine cut_append (fun c hc => decide_eq_false ?_) fun c hc => ?_
      · rintro rfl
        exact absurd (husername _ hc) (by decide)
      · split at hc
        · cases hc
        · exact decide_eq_true (Option.some.inj hc).symm
    have huser : user ≠ [] := by
      intro hnil
      obtain ⟨hname, hrest⟩ := List.append_eq_nil_iff.mp hnil
      refine hnone ⟨String.toList_inj.mp hname, ?_⟩
      split at hrest
      · assumption
      · cases hrest
    have hpass : (if password = "" then [] else ':' :: password.toList).drop 1 =
        password.toList := by
      split
      · next hempty =>
        rw [hempty]
        rfl
      · rfl
    unfold userInfo
    rw [htext, if_neg (by simp)]
    simp only [hlast, hbefore, hcut, hpass, if_neg huser, Percent.encode_of_plain husername,
      Percent.encode_of_plain hpassword, String.ofList_toList]
    exact if_neg fun h => hfull h.1

theorem isUserText_encode (s : List Char) :
    IsUserText (String.ofList (Percent.encode Percent.inUserInfo s)) := by
  intro c hc
  rw [String.toList_ofList] at hc
  exact Percent.not_set_of_mem_encode (fun _ h => h) (Text.forall_mem (by decide)) hc

theorem isUserText_empty : IsUserText "" := fun c hc => by cases hc

/-- A user is written as it may stand in front of a host, and there is none without a host. -/
theorem userInfo_spec {s rest : List Char} {username password : String}
    (h : userInfo s = .ok (username, password, rest)) : IsUserText username ∧
      IsUserText password ∧ (rest = [] → username = "" ∧ password = "") := by
  unfold userInfo at h
  extract_lets rest' user encode at h
  split at h
  · simp only [Except.ok.injEq, Prod.mk.injEq] at h
    obtain ⟨rfl, rfl, -⟩ := h
    exact ⟨isUserText_empty, isUserText_empty, fun _ => ⟨rfl, rfl⟩⟩
  split at h
  · split at h
    · cases h
    · simp only [Except.ok.injEq, Prod.mk.injEq] at h
      obtain ⟨rfl, rfl, -⟩ := h
      exact ⟨isUserText_empty, isUserText_empty, fun _ => ⟨rfl, rfl⟩⟩
  · dsimp only at h
    split at h
    · cases h
    next hbare =>
    simp only [Except.ok.injEq, Prod.mk.injEq] at h
    obtain ⟨rfl, rfl, rfl⟩ := h
    refine ⟨isUserText_encode _, isUserText_encode _, fun hrest => ?_⟩
    by_contra hnone
    exact hbare ⟨hrest, not_and_or.mp hnone⟩

/-! ## Authorities -/

/-- An authority as reading leaves it, for another scheme than `file`. -/
structure Authority.IsReadFor (scheme : String) (a : Authority) : Prop where
  username : IsUserText a.username
  password : IsUserText a.password
  host : if isSpecial scheme then a.host.IsRead else a.host.IsKept
  port : IsPortFor scheme a.port
  /-- Without a host there is nothing. -/
  bare : a.host.text.toList = [] → isSpecial scheme = false ∧ a.username = "" ∧ a.password = "" ∧
    a.port = none

theorem Authority.IsReadFor.host_or {scheme : String} {a : Authority} (h : a.IsReadFor scheme) :
    a.host.IsRead ∨ a.host.IsKept := by
  have hhost := h.host
  split at hhost
  · exact .inl hhost
  · exact .inr hhost

theorem isHostChar_of_mem_portText {port : Option Nat} {c : Char} (hc : c ∈ portText port) :
    IsHostChar c := by
  have hall : ∀ c ∈ [':'], 0x20 < c.toNat ∧ c ∉ marks := Text.forall_mem (by decide)
  cases port with
  | none => cases hc
  | some p =>
    rcases List.mem_cons.mp hc with rfl | hc
    · exact hall ':' (by decide)
    · exact Host.isHostChar_of_isDomainChar
        (Host.isDomainChar_of_isDigit ((Host.digits_of_toString p).2 c hc))

def hostFor (scheme : String) (s : List Char) : Except UrlError Host :=
  if isSpecial scheme then Host.parse s else Host.parseOpaque s

theorem readAuthority_eq_ok {scheme : String} {s : List Char} {a : Authority} :
    readAuthority scheme s = .ok a ↔ ∃ rest hostText portText,
      userInfo s = .ok (a.username, a.password, rest) ∧ cutPort false rest = (hostText, portText) ∧
      ¬ (hostText = [] ∧ (isSpecial scheme = true ∨ portText ≠ [])) ∧
      hostFor scheme hostText = .ok a.host ∧ readPort scheme portText = .ok a.port := by
  unfold readAuthority
  simp only [bind, Except.bind]
  constructor
  · intro h
    cases huser : userInfo s with
    | error e =>
      rw [huser] at h
      cases h
    | ok found =>
    obtain ⟨username, password, rest⟩ := found
    rw [huser] at h
    dsimp only at h
    split at h
    · change Except.error _ = _ at h
      cases h
    next hfull =>
    have hparts : ∃ host port, hostFor scheme (cutPort false rest).1 = .ok host ∧
        readPort scheme (cutPort false rest).2 = .ok port ∧ a = ⟨username, password, host, port⟩ := by
      unfold hostFor
      split at h
      all_goals
        next hspecial =>
        simp only [hspecial, if_true]
        split at h
        · cases h
        next host hhost =>
        split at h
        · cases h
        next port hport =>
        exact ⟨host, port, hhost, hport, (Except.ok.inj h).symm⟩
    obtain ⟨host, port, hhost, hport, rfl⟩ := hparts
    exact ⟨rest, _, _, rfl, rfl, hfull, hhost, hport⟩
  · rintro ⟨rest, hostText, portText, huser, hcut, hfull, hhost, hport⟩
    unfold hostFor at hhost
    simp only [huser, hcut, if_neg hfull, hport]
    by_cases hspecial : isSpecial scheme = true
    · rw [if_pos hspecial] at hhost ⊢
      rw [hhost]
      rfl
    · rw [if_neg hspecial] at hhost ⊢
      rw [hhost]
      rfl

/-- The text of an authority that was read is read as that authority. -/
theorem readAuthority_text {scheme : String} {a : Authority} (h : a.IsReadFor scheme) :
    readAuthority scheme a.text.toList = .ok a := by
  have hat : '@' ∉ a.host.text.toList ++ portText a.port := by
    intro hc
    rcases List.mem_append.mp hc with hc | hc
    · exact (Host.isHostChar_of_mem_text h.host_or hc).2 (by decide)
    · exact (isHostChar_of_mem_portText hc).2 (by decide)
  have hbare : a.host.text.toList ++ portText a.port = [] → a.username = "" ∧ a.password = "" := by
    intro hnil
    obtain ⟨-, husername, hpassword, -⟩ := h.bare (List.append_eq_nil_iff.mp hnil).1
    exact ⟨husername, hpassword⟩
  have hhost : hostFor scheme a.host.text.toList = .ok a.host := by
    have hread := h.host
    unfold hostFor
    split at hread
    · next hspecial => rw [if_pos hspecial, Host.parse_text hread]
    · next hspecial => rw [if_neg hspecial, Host.parseOpaque_text hread]
  have hempty : ¬ (a.host.text.toList = [] ∧ (isSpecial scheme = true ∨ portText a.port ≠ [])) := by
    rintro ⟨hnil, hspecial | hport⟩
    · exact absurd ((h.bare hnil).1.symm.trans hspecial) Bool.false_ne_true
    · refine hport ?_
      rw [(h.bare hnil).2.2.2]
      rfl
  refine readAuthority_eq_ok.mpr ⟨a.host.text.toList ++ portText a.port, a.host.text.toList,
    portText a.port, ?_, ?_, hempty, hhost, readPort_portText h.port⟩
  · rw [Authority.text_eq, List.append_assoc]
    exact userInfo_userText h.username h.password hat hbare
  · exact cutPort_text h.host_or (isPortText_portText a.port)

theorem cutPort_join (inBrackets : Bool) (s : List Char) :
    (cutPort inBrackets s).1 ++ (cutPort inBrackets s).2 = s := by
  induction s generalizing inBrackets with
  | nil => rfl
  | cons c rest ih =>
    rw [cutPort]
    split
    · rfl
    · exact congrArg (c :: ·) (ih _)

theorem Host.IsRead.text_ne_nil {host : Host} (h : host.IsRead) : host.text.toList ≠ [] := by
  cases h with
  | domain _ hne _ => exact hne
  | ipv4 _ => exact Host.text_ipv4_ne_nil _
  | ipv6 _ =>
    rw [Host.text_ipv6]
    exact List.cons_ne_nil _ _

theorem eq_nil_of_parseOpaque {s : List Char} {host : Host} (h : Host.parseOpaque s = .ok host)
    (hnil : host.text.toList = []) : s = [] := by
  unfold Host.parseOpaque at h
  split at h
  · split at h
    · obtain ⟨pieces, rfl, -⟩ := Host.isPieces_of_ofIpv6 h
      rw [Host.text_ipv6] at hnil
      cases hnil
    · cases h
  · split at h
    · cases h
    · obtain rfl := Except.ok.inj h
      have htext : (String.ofList (Percent.encode Percent.isControl s)).toList = [] := hnil
      rw [String.toList_ofList] at htext
      exact Percent.encode_eq_nil.mp htext

theorem isReadFor_of_readAuthority {scheme : String} {s : List Char} {a : Authority}
    (h : readAuthority scheme s = .ok a) : a.IsReadFor scheme := by
  obtain ⟨rest, hostText, portText, huser, hcut, hfull, hhost, hport⟩ := readAuthority_eq_ok.mp h
  obtain ⟨husername, hpassword, hbare⟩ := userInfo_spec huser
  have hread : if isSpecial scheme then a.host.IsRead else a.host.IsKept := by
    unfold hostFor at hhost
    split at hhost
    · next hspecial =>
      rw [if_pos hspecial]
      exact Host.isRead_of_parse hhost
    · next hspecial =>
      rw [if_neg hspecial]
      exact Host.isKept_of_parseOpaque hhost
  refine ⟨husername, hpassword, hread, isPortFor_of_readPort hport, fun hnil => ?_⟩
  by_cases hspecial : isSpecial scheme = true
  · rw [if_pos hspecial] at hread
    exact absurd hnil hread.text_ne_nil
  · unfold hostFor at hhost
    rw [if_neg hspecial] at hhost
    obtain rfl := eq_nil_of_parseOpaque hhost hnil
    -- nothing but the host could have been there
    have hport' : portText = [] := by
      by_contra hne
      exact hfull ⟨rfl, .inr hne⟩
    subst hport'
    have hrest : rest = [] := by
      have hjoin := cutPort_join false rest
      rw [hcut] at hjoin
      exact hjoin.symm
    obtain ⟨hname, hpass⟩ := hbare hrest
    have hnone : readPort scheme (Url.portText none) = .ok none :=
      readPort_portText fun p hp => by cases hp
    exact ⟨by simpa using hspecial, hname, hpass, Except.ok.inj (hport.symm.trans hnone)⟩

end Agents.Url
