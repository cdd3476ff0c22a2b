import Agents.Fingerprint
import Agents.Proofs.Identity
import Agents.Proofs.Json.Printer

/-! # What a fingerprint is the digest of

The text of an identity that has a token is its token, which holds no line break. So the text that
a fingerprint is the digest of says which agent it is about, and on which inputs
(`fingerprintText_injective`).

An identity without a token is not told apart like that.
-/

namespace Agents

namespace Identity

theorem text_eq_token {id : Identity} (h : id.HasToken) :
    id.text = Text.Base64.encode id.plainText.toUTF8.toList := by
  rw [text, encode_eq_ok_iff.mpr ⟨h, rfl⟩]

/-- Identities with one token are the same, if no optional field is empty. -/
theorem text_injective {id id' : Identity} (h : id.HasToken) (h' : id'.HasToken)
    (hnormal : id.normalize = id) (hnormal' : id'.normalize = id') (htext : id.text = id'.text) :
    id = id' := by
  rw [text_eq_token h, text_eq_token h'] at htext
  have hdecode := decode_encode (encode_eq_ok_iff.mpr ⟨h, rfl⟩)
  rw [htext, decode_encode (encode_eq_ok_iff.mpr ⟨h', rfl⟩), hnormal, hnormal'] at hdecode
  exact (Except.ok.inj hdecode).symm

theorem newline_not_mem_text {id : Identity} (h : id.HasToken) : '\n' ∉ id.text.toList := by
  rw [text_eq_token h]
  intro hmem
  have hblank := (Text.Base64.ascii_of_mem_encodeBytes
    (by simpa [Text.Base64.encode] using hmem)).2
  exact absurd hblank (by decide)

theorem normalize_toIdentity (projectId agentRef : String) :
    ((AgentRef.parse agentRef).toIdentity projectId).normalize =
      (AgentRef.parse agentRef).toIdentity projectId := by
  unfold AgentRef.parse
  split
  · next hdecode => exact (hasToken_of_decode hdecode).2
  · rfl

end Identity

/-- The text of a fingerprint says which agent it is about, and on which inputs. -/
theorem fingerprintText_injective {id id' : Identity} {inputs inputs' : Json} (h : id.HasToken)
    (h' : id'.HasToken) (hnormal : id.normalize = id) (hnormal' : id'.normalize = id')
    (htext : fingerprintText id inputs = fingerprintText id' inputs') :
    id = id' ∧ inputs = inputs' := by
  have hlists : id.text.toList ++ '\n' :: inputs.compact.toList =
      id'.text.toList ++ '\n' :: inputs'.compact.toList := by
    simpa [fingerprintText] using congrArg String.toList htext
  obtain ⟨hid, hinputs⟩ := (Text.mark_inj (Identity.newline_not_mem_text h)
    (Identity.newline_not_mem_text h')).mp hlists
  exact ⟨Identity.text_injective h h' hnormal hnormal' (String.toList_injective hid),
    Json.compact_injective (String.toList_injective hinputs)⟩

-- without a token the place of the last slash is not known
example : fingerprintText (.inProject "a/b" "c/d") .null =
    fingerprintText (.inProject "a/b/c" "d") .null := by decide +kernel

end Agents
