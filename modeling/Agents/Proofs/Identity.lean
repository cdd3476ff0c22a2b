import Agents.Identity
import Agents.Proofs.Text.Base64
import Agents.Proofs.Text.Digits

/-! # Tokens stand for identities

An identity has a token exactly if it names a project and an agent and no segment before the agent
id holds a slash (`HasToken`). Reading the token gives back the identity with empty optional fields
made absent, and whatever is read from a text is an identity that has a token of its own
(`tokens_roundtrip`).

The text inside a token is split at its first three slashes. Only its last segment may hold one, so
the split finds the segments that were joined.
-/

namespace Agents

namespace Identity

/-- An identity that can be written as a token. -/
structure HasToken (id : Identity) : Prop where
  projectId_ne : id.projectId ≠ ""
  agentId_ne : id.agentId ≠ ""
  component_slash : '/' ∉ (id.component.getD "").toList
  projectId_slash : '/' ∉ id.projectId.toList
  revision_slash : '/' ∉ (id.projectRevision.getD "").toList

/-! ## Writing -/

@[simp] theorem containsSlash_eq_false {s : String} : containsSlash s = false ↔ '/' ∉ s.toList := by
  rw [containsSlash, ← Bool.not_eq_true, List.contains_iff_mem]

theorem encode_eq_ok_iff {id : Identity} {token : String} : id.encode = .ok token ↔
    id.HasToken ∧ token = Text.Base64.encode id.plainText.toUTF8.toList := by
  unfold encode segments
  dsimp only
  constructor
  · intro h
    split at h
    · cases h
    next hproject =>
    split at h
    · cases h
    next hagent =>
    split at h
    · cases h
    next hcomponent =>
    split at h
    · cases h
    next hslash =>
    split at h
    · cases h
    next hrevision =>
    simp only [Bool.not_eq_true, containsSlash_eq_false] at hcomponent hslash hrevision
    exact ⟨⟨hproject, hagent, hcomponent, hslash, hrevision⟩, (Except.ok.inj h).symm⟩
  · rintro ⟨hid, rfl⟩
    rw [if_neg hid.projectId_ne, if_neg hid.agentId_ne,
      if_neg (by simpa using hid.component_slash), if_neg (by simpa using hid.projectId_slash),
      if_neg (by simpa using hid.revision_slash)]

/-! ## Segments -/

theorem splitSlashes_append {cuts : Nat} {front back : List Char} (h : '/' ∉ front) :
    splitSlashes (cuts + 1) (front ++ '/' :: back) = front :: splitSlashes cuts back := by
  simp only [splitSlashes, Text.takeWhile_mark h, Text.dropWhile_mark h]

/-- Only the last segment may hold a slash. -/
theorem not_mem_of_mem_dropLast {cuts : Nat} {s segment : List Char}
    (h : segment ∈ (splitSlashes cuts s).dropLast) : '/' ∉ segment := by
  induction cuts generalizing s with
  | zero => cases h
  | succ cuts ih =>
    unfold splitSlashes at h
    split at h
    · cases h
    next rest _ =>
    have hne : splitSlashes cuts rest ≠ [] := by
      cases cuts <;> unfold splitSlashes
      · exact List.cons_ne_nil _ _
      · split <;> exact List.cons_ne_nil _ _
    rw [List.dropLast_cons_of_ne_nil hne] at h
    rcases List.mem_cons.mp h with rfl | h
    · intro hslash
      simpa using List.all_eq_true.mp List.all_takeWhile '/' hslash
    · exact ih h

theorem toList_plainText (id : Identity) : id.plainText.toList =
    (id.component.getD "").toList ++ '/' :: (id.projectId.toList ++
      '/' :: ((id.projectRevision.getD "").toList ++ '/' :: id.agentId.toList)) := by
  simp [plainText, segments, String.toList_append]

theorem splitSlashes_plainText {id : Identity} (h : id.HasToken) :
    splitSlashes 3 id.plainText.toList = [(id.component.getD "").toList, id.projectId.toList,
      (id.projectRevision.getD "").toList, id.agentId.toList] := by
  rw [toList_plainText, splitSlashes_append h.component_slash,
    splitSlashes_append h.projectId_slash, splitSlashes_append h.revision_slash]
  rfl

/-! ## Reading -/

theorem nonEmpty_getD (s : Option String) : nonEmpty (s.getD "") = s.bind nonEmpty := by
  cases s <;> rfl

theorem getD_nonEmpty (s : String) : (nonEmpty s).getD "" = s := by
  unfold nonEmpty
  split
  · next h => exact h.symm
  · rfl

theorem bind_nonEmpty_nonEmpty (s : String) : (nonEmpty s).bind nonEmpty = nonEmpty s := by
  rw [← nonEmpty_getD, getD_nonEmpty]

theorem ofPlainText_plainText {id : Identity} (h : id.HasToken) :
    ofPlainText id.plainText = .ok id.normalize := by
  have hproject : id.projectId.toList ≠ [] := by simpa using h.projectId_ne
  have hagent : id.agentId.toList ≠ [] := by simpa using h.agentId_ne
  unfold ofPlainText
  rw [splitSlashes_plainText h]
  simp only [hproject, hagent, or_self, if_false, String.ofList_toList, nonEmpty_getD]
  rfl

/-- The four segments of a text, aligned to the right. -/
inductive Aligned : List (List Char) → List Char → List Char → List Char → List Char → Prop
  | four (c p r a : List Char) : Aligned [c, p, r, a] c p r a
  | three (p r a : List Char) : Aligned [p, r, a] [] p r a
  | two (p a : List Char) : Aligned [p, a] [] p [] a

theorem aligned_of_ofPlainText {text : String} {id : Identity} (h : ofPlainText text = .ok id) :
    ∃ c p r a : List Char, Aligned (splitSlashes 3 text.toList) c p r a ∧ p ≠ [] ∧ a ≠ [] ∧
      id = { component := nonEmpty (String.ofList c), projectId := String.ofList p,
             projectRevision := nonEmpty (String.ofList r), agentId := String.ofList a } := by
  have hbuild {c p r a : List Char}
      (h : (if p = [] ∨ a = [] then .error .missing
        else .ok {
          component := nonEmpty (String.ofList c), projectId := String.ofList p,
          projectRevision := nonEmpty (String.ofList r), agentId := String.ofList a } :
        Except DecodeError Identity) = .ok id) : p ≠ [] ∧ a ≠ [] ∧
      id = { component := nonEmpty (String.ofList c), projectId := String.ofList p,
             projectRevision := nonEmpty (String.ofList r), agentId := String.ofList a } := by
    split at h
    · cases h
    next hne =>
    exact ⟨fun hp => hne (.inl hp), fun ha => hne (.inr ha), (Except.ok.inj h).symm⟩
  unfold ofPlainText at h
  dsimp only at h
  split at h
  · next c p r a hsplit => exact ⟨c, p, r, a, hsplit ▸ .four c p r a, hbuild h⟩
  · next p r a hsplit => exact ⟨[], p, r, a, hsplit ▸ .three p r a, hbuild h⟩
  · next p a hsplit => exact ⟨[], p, [], a, hsplit ▸ .two p a, hbuild (r := []) h⟩
  · cases h

/-- What is read from a text has a token, and is read with its empty fields absent. -/
theorem hasToken_of_ofPlainText {text : String} {id : Identity} (h : ofPlainText text = .ok id) :
    id.HasToken ∧ id.normalize = id := by
  obtain ⟨c, p, r, a, haligned, hp, ha, rfl⟩ := aligned_of_ofPlainText h
  have hslash : '/' ∉ c ∧ '/' ∉ p ∧ '/' ∉ r := by
    have hfront : ∀ segment ∈ (splitSlashes 3 text.toList).dropLast, '/' ∉ segment :=
      fun segment => not_mem_of_mem_dropLast
    generalize splitSlashes 3 text.toList = segments at haligned hfront
    cases haligned with
    | four => exact ⟨hfront c (by simp), hfront p (by simp), hfront r (by simp)⟩
    | three => exact ⟨List.not_mem_nil, hfront p (by simp), hfront r (by simp)⟩
    | two => exact ⟨List.not_mem_nil, hfront p (by simp), List.not_mem_nil⟩
  obtain ⟨hc, hp', hr⟩ := hslash
  constructor
  · exact {
      projectId_ne := by simpa using hp
      agentId_ne := by simpa using ha
      component_slash := by simpa [getD_nonEmpty] using hc
      projectId_slash := by simpa using hp'
      revision_slash := by simpa [getD_nonEmpty] using hr }
  · simp only [normalize, bind_nonEmpty_nonEmpty]

/-! ## Tokens -/

theorem decode_encode {id : Identity} {token : String} (h : id.encode = .ok token) :
    decode token = .ok id.normalize := by
  obtain ⟨hid, rfl⟩ := encode_eq_ok_iff.mp h
  unfold decode
  rw [Text.Base64.trim_encode, Text.Base64.decode_encode]
  dsimp only
  rw [Text.fromUTF8?_eq_some_iff.mpr rfl]
  exact ofPlainText_plainText hid

theorem hasToken_of_decode {text : String} {id : Identity} (h : decode text = .ok id) :
    id.HasToken ∧ id.normalize = id := by
  unfold decode at h
  split at h
  · cases h
  split at h
  · cases h
  exact hasToken_of_ofPlainText h

theorem encode_decode {text : String} {id : Identity} (h : decode text = .ok id) :
    ∃ token, id.encode = .ok token ∧ decode token = .ok id := by
  obtain ⟨hid, hnormal⟩ := hasToken_of_decode h
  have htoken := encode_eq_ok_iff.mpr ⟨hid, rfl⟩
  refine ⟨_, htoken, ?_⟩
  rw [decode_encode htoken, hnormal]

/-- A text is refused with a failure exactly if it is no token. -/
theorem ofToken_eq_error_iff {text : String} :
    (∃ e, ofToken text = .error e) ↔ decode? text = none := by
  unfold ofToken decode?
  cases decode text with
  | error e => exact ⟨fun _ => rfl, fun _ => ⟨_, rfl⟩⟩
  | ok id => exact ⟨nofun, nofun⟩

theorem tokens_roundtrip :
    (∀ id : Identity, (∃ token, id.encode = .ok token) ↔
      id.projectId ≠ "" ∧ id.agentId ≠ "" ∧ '/' ∉ (id.component.getD "").toList ∧
        '/' ∉ id.projectId.toList ∧ '/' ∉ (id.projectRevision.getD "").toList) ∧
    (∀ (id : Identity) (token : String), id.encode = .ok token →
      decode token = .ok id.normalize ∧ decode? token = some id.normalize ∧
        ofToken token = .ok id.normalize ∧
        ∀ projectId, (AgentRef.parse token).toIdentity projectId = id.normalize) ∧
    (∀ (text : String) (id : Identity), decode text = .ok id →
      ∃ token, id.encode = .ok token ∧ decode token = .ok id) ∧
    (∀ text : String, (∃ e, ofToken text = .error e) ↔ decode? text = none) ∧
    (∀ bs : List UInt8, ∃ ns pads, Text.Base64.Spells ns pads bs ∧ Text.Base64.encode bs =
      String.ofList (ns.map (Text.Base64.alphabet.getD · '=') ++ List.replicate pads '=')) ∧
    (∀ (text : String) (bs : List UInt8),
      Text.Base64.decode text = .ok bs ↔ text = Text.Base64.encode bs) := by
  refine ⟨?_, ?_, fun text id => encode_decode, fun text => ofToken_eq_error_iff, ?_,
    fun text bs => Text.Base64.decode_eq_ok_iff⟩
  · intro id
    constructor
    · rintro ⟨token, htoken⟩
      obtain ⟨hid, -⟩ := encode_eq_ok_iff.mp htoken
      exact ⟨hid.projectId_ne, hid.agentId_ne, hid.component_slash, hid.projectId_slash,
        hid.revision_slash⟩
    · rintro ⟨hproject, hagent, hcomponent, hslash, hrevision⟩
      exact ⟨_, encode_eq_ok_iff.mpr ⟨⟨hproject, hagent, hcomponent, hslash, hrevision⟩, rfl⟩⟩
  · intro id token htoken
    have hdecode := decode_encode htoken
    refine ⟨hdecode, ?_, ?_, fun projectId => ?_⟩
    · rw [decode?, hdecode]
      rfl
    · rw [ofToken, hdecode]
      rfl
    · rw [AgentRef.parse, hdecode]
      rfl
  · intro bs
    obtain ⟨ns, pads, hspells, hencode⟩ := Text.Base64.encode_spells bs
    refine ⟨ns, pads, hspells, ?_⟩
    rw [hencode, List.map_congr_left fun n hn => ?_]
    rw [List.getD_eq_getElem?_getD, Text.Base64.getElem?_alphabet n (hspells.lt n hn)]
    rfl

end Identity

end Agents
