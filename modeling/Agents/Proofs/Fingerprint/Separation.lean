import Agents.Proofs.Fingerprint
import Agents.Proofs.Json.Alike
import Agents.Proofs.Trace.Chain

/-! # Fingerprints separate runs

Runs of different agents, or on different inputs, have different fingerprints as long as no two
texts are found with one digest (`fingerprint_separates`). An empty optional field of an identity
counts as absent, and of the inputs the order in which their members were written is left out, at
every depth.

Values that programs compare as equal are the same value but for the two zeros among the doubles:
these compare as equal and are printed differently (`zeros_have_fingerprints_of_their_own`).
-/

namespace Agents

def Sha256.Collision (x y : List UInt8) : Prop := x ≠ y ∧ digest x = digest y

namespace Identity

/-- The text inside the token is the same with empty optional fields made absent. -/
theorem plainText_normalize (id : Identity) : id.normalize.plainText = id.plainText := by
  have hgetD (s : Option String) : (s.bind nonEmpty).getD "" = s.getD "" := by
    cases s with
    | none => rfl
    | some s => exact getD_nonEmpty s
  simp only [plainText, segments, normalize, hgetD]

theorem text_normalize {id : Identity} {token : String} (h : id.encode = .ok token) :
    id.normalize.text = id.text := by
  obtain ⟨hid, hnormal⟩ := hasToken_of_decode (decode_encode h)
  rw [text_eq_token hid, text_eq_token (encode_eq_ok_iff.mp h).1, plainText_normalize]

end Identity

theorem eq_of_fingerprint_eq {id id' : Identity} {token token' : String} {inputs inputs' : Json}
    (h : id.encode = .ok token) (h' : id'.encode = .ok token')
    (heq : fingerprint id inputs = fingerprint id' inputs') :
    (id.normalize = id'.normalize ∧ inputs = inputs') ∨
      Sha256.Collision (fingerprintText id inputs).toUTF8.toList
        (fingerprintText id' inputs').toUTF8.toList := by
  by_cases hbytes : (fingerprintText id inputs).toUTF8.toList =
      (fingerprintText id' inputs').toUTF8.toList
  · left
    obtain ⟨hid, hnormal⟩ := Identity.hasToken_of_decode (Identity.decode_encode h)
    obtain ⟨hid', hnormal'⟩ := Identity.hasToken_of_decode (Identity.decode_encode h')
    refine fingerprintText_injective hid hid' hnormal hnormal' ?_
    have htext := Text.bytes_injective hbytes
    unfold fingerprintText at htext ⊢
    rwa [Identity.text_normalize h, Identity.text_normalize h']
  · exact .inr ⟨hbytes, Sha256.hex_injective heq⟩

theorem fingerprint_congr {id id' : Identity} {token token' : String} {inputs : Json}
    (h : id.encode = .ok token) (h' : id'.encode = .ok token')
    (hnormal : id.normalize = id'.normalize) : fingerprint id inputs = fingerprint id' inputs := by
  rw [fingerprint, fingerprint, fingerprintText, fingerprintText, ← Identity.text_normalize h,
    ← Identity.text_normalize h', hnormal]

/-- What a fingerprint tells apart, and what it does not. -/
theorem fingerprint_separates {id id' : Identity} {token token' : String}
    (h : id.encode = .ok token) (h' : id'.encode = .ok token') :
    (∀ inputs inputs' : Json, fingerprint id inputs = fingerprint id' inputs' →
      (id.normalize = id'.normalize ∧ inputs = inputs') ∨
        Sha256.Collision (fingerprintText id inputs).toUTF8.toList
          (fingerprintText id' inputs').toUTF8.toList) ∧
    ∀ written written' : Json, written.Alike written' → id.normalize = id'.normalize →
      fingerprint id written.reread = fingerprint id' written'.reread := by
  refine ⟨fun _ _ => eq_of_fingerprint_eq h h', fun written written' halike hnormal => ?_⟩
  rw [Json.reread_eq_iff.mpr halike]
  exact fingerprint_congr h h' hnormal

/-- An empty component and another order of the keys, also inside, change nothing. -/
theorem fingerprint_of_reordered :
    (Identity.inProject "p" "a").encode = .ok "L3AvL2E=" ∧
    { Identity.inProject "p" "a" with component := some "" }.encode = .ok "L3AvL2E=" ∧
    fingerprint (Identity.inProject "p" "a") (Json.reread
      (.obj [("b", .num (.int 1)), ("a", .obj [("y", .bool true), ("x", .null)])])) =
    fingerprint { Identity.inProject "p" "a" with component := some "" } (Json.reread
      (.obj [("a", .obj [("x", .null), ("y", .str "old"), ("y", .bool true)]),
        ("b", .num (.int 1))])) := by
  have htoken : (Identity.inProject "p" "a").encode = .ok "L3AvL2E=" := by decide +kernel
  have htoken' : { Identity.inProject "p" "a" with component := some "" }.encode =
      .ok "L3AvL2E=" := by decide +kernel
  exact ⟨htoken, htoken', (fingerprint_separates htoken htoken').2 _ _
    (Json.reread_eq_iff.mp rfl) rfl⟩

/-- The two zeros are equal as values, but not in print. -/
theorem zeros_have_fingerprints_of_their_own :
    (Json.obj [("x", .num (.float 0.0))] == Json.obj [("x", .num (.float (-0.0)))]) = true ∧
    (Identity.inProject "p" "a").encode = .ok "L3AvL2E=" ∧
    fingerprint (Identity.inProject "p" "a") (.obj [("x", .num (.float 0.0))]) ≠
      fingerprint (Identity.inProject "p" "a") (.obj [("x", .num (.float (-0.0)))]) := by
  decide +kernel

end Agents
