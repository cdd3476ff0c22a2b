import Agents.Proofs.Event
import Agents.Proofs.Json.Nesting
import Agents.Proofs.Text.Bytes
import Agents.Trace.Recorder

/-! # What a chain of digests gives away

The bytes that an entry's digest is taken of are its run id, its sequence number, the digest before
it and its event, with nothing between them. They determine all four (`hashedBytes_injective`): the
event's text is found at the end, since no such text ends with another one, and the number and the
digest before it are 72 bytes.

So two chains with the same last digest are the same, back to front, unless on the way two byte
strings have one digest, or one has the digest that stands for the beginning (`agree_of_verify`).
Nothing is assumed of the digest but its width.
-/

namespace Agents

/-! ## Digests -/

namespace Sha256

theorem length_bigEndian (count n : ℕ) : (bigEndian count n).length = count := by
  induction count with
  | zero => rfl
  | succ count ih => rw [bigEndian, List.length_cons, ih]

theorem length_digest (message : List UInt8) : (digest message).length = 32 := by
  simp [digest, length_bigEndian]

theorem digitChar_injective : ∀ m < 16, ∀ n < 16, Nat.digitChar m = Nat.digitChar n → m = n := by
  decide

theorem hexDigits_injective {b c : UInt8} (h : hexDigits b.toNat = hexDigits c.toNat) : b = c := by
  obtain ⟨hhigh, hlow⟩ := List.cons.inj h
  have hhigh := digitChar_injective _ (Nat.mod_lt _ (by decide)) _ (Nat.mod_lt _ (by decide)) hhigh
  have hlow := digitChar_injective _ (Nat.mod_lt _ (by decide)) _ (Nat.mod_lt _ (by decide))
    (List.cons.inj hlow).1
  have hb := b.toNat_lt
  have hc := c.toNat_lt
  exact UInt8.toNat_inj.mp (by omega)

theorem flatMap_hexDigits_injective {bs cs : List UInt8}
    (h : bs.flatMap (fun b => hexDigits b.toNat) = cs.flatMap fun b => hexDigits b.toNat) :
    bs = cs := by
  induction bs generalizing cs with
  | nil =>
    cases cs with
    | nil => rfl
    | cons c cs => cases h
  | cons b bs ih =>
    cases cs with
    | nil => cases h
    | cons c cs =>
      rw [List.flatMap_cons, List.flatMap_cons] at h
      obtain ⟨hhead, hrest⟩ := List.append_inj h rfl
      rw [hexDigits_injective hhead, ih hrest]

theorem hex_injective {x y : List UInt8} (h : hex x = hex y) : digest x = digest y :=
  flatMap_hexDigits_injective (String.ofList_injective h)

theorem bigEndian_injective {count m n : ℕ} (h : bigEndian count m = bigEndian count n) :
    m % 256 ^ count = n % 256 ^ count := by
  induction count with
  | zero => rw [pow_zero, Nat.mod_one, Nat.mod_one]
  | succ count ih =>
    obtain ⟨hhead, hrest⟩ := List.cons.inj h
    have hbyte := congrArg UInt8.toNat hhead
    rw [UInt8.toNat_ofNat', UInt8.toNat_ofNat'] at hbyte
    have hbyte : m / 256 ^ count % 256 = n / 256 ^ count % 256 := hbyte
    rw [Nat.mod_pow_succ, Nat.mod_pow_succ, ih hrest, hbyte]

end Sha256

namespace Chain

def IsDigest (s : String) : Prop :=
  s.toList.length = 64 ∧ ∀ c ∈ s.toList, c ∈ "0123456789abcdef".toList

theorem isDigest_genesis : IsDigest genesis := by
  have hdigits : genesis.toList.all (· ∈ "0123456789abcdef".toList) = true := by decide
  exact ⟨by decide, fun c hc => of_decide_eq_true (List.all_eq_true.mp hdigits c hc)⟩

theorem isDigest_hex (message : List UInt8) : IsDigest (Sha256.hex message) := by
  have hdigit : ∀ n < 16, Nat.digitChar n ∈ "0123456789abcdef".toList := by decide
  constructor
  · have htwo (bs : List UInt8) :
        (bs.flatMap fun b => Sha256.hexDigits b.toNat).length = 2 * bs.length := by
      induction bs with
      | nil => rfl
      | cons b bs ih =>
        rw [List.flatMap_cons, List.length_append, ih, List.length_cons]
        change 2 + 2 * bs.length = _
        omega
    rw [Sha256.hex, String.toList_ofList, htwo, Sha256.length_digest]
  · intro c hc
    rw [Sha256.hex, String.toList_ofList] at hc
    obtain ⟨b, -, hc⟩ := List.mem_flatMap.mp hc
    rcases List.mem_pair.mp hc with rfl | rfl
    · exact hdigit _ (Nat.mod_lt _ (by decide))
    · exact hdigit _ (Nat.mod_lt _ (by decide))

theorem length_bytes_of_isDigest {s : String} (h : IsDigest s) : s.toUTF8.toList.length = 64 := by
  have hdigits : "0123456789abcdef".toList.all (·.toNat < 128) = true := by decide
  have hascii (c : Char) (hc : c ∈ "0123456789abcdef".toList) : c.toNat < 128 :=
    of_decide_eq_true (List.all_eq_true.mp hdigits c hc)
  have hbytes := Text.bytes_ofList_ascii fun c hc => hascii c (h.2 c hc)
  rw [String.ofList_toList] at hbytes
  rw [hbytes, List.length_map, h.1]

/-- The digits that stand for the beginning are those of 32 zero bytes. -/
theorem digest_of_hex_eq_genesis {message : List UInt8} (h : Sha256.hex message = genesis) :
    Sha256.digest message = List.replicate 32 0 :=
  Sha256.flatMap_hexDigits_injective (String.ofList_injective h)

/-! ## What is hashed -/

theorem length_littleEndian (n : ℕ) : (littleEndian n).length = 8 := by
  rw [littleEndian, List.length_reverse, Sha256.length_bigEndian]

theorem littleEndian_injective {m n : ℕ} (h : littleEndian m = littleEndian n) :
    m % 2 ^ 64 = n % 2 ^ 64 := Sha256.bigEndian_injective (List.reverse_injective h)

/-- No text of an event ends with that of another one. -/
theorem compact_suffix {e f : Event} {front : List UInt8}
    (h : e.toJson.compact.toUTF8.toList = front ++ f.toJson.compact.toUTF8.toList) :
    e.toJson.compact = f.toJson.compact := by
  obtain ⟨rest, hrest⟩ : ∃ rest, f.toJson.compact.toList = '\x7b' :: rest :=
    ⟨_, Json.toList_obj_openText _ _ _⟩
  rw [Text.bytes_eq, Text.bytes_eq, hrest] at h
  obtain ⟨q, hq⟩ := Text.exists_prefix_of_bytes (by decide) h
  rw [← hrest] at hq
  have hname : "type".toList = 't' :: "ype".toList := rfl
  have hnil : q = [] := Json.front_eq_nil hname rfl hq
  rw [hnil, List.nil_append] at hq
  exact String.toList_inj.mp hq

/-- The bytes that are hashed determine what they are made of. -/
theorem hashedBytes_injective {runId runId' : String} {sequence sequence' : ℕ}
    {prevHash prevHash' : String} {e e' : Event} (hprev : IsDigest prevHash)
    (hprev' : IsDigest prevHash') (he : e.Valid) (he' : e'.Valid)
    (h : hashedBytes runId sequence prevHash e = hashedBytes runId' sequence' prevHash' e') :
    runId = runId' ∧ sequence % 2 ^ 64 = sequence' % 2 ^ 64 ∧ prevHash = prevHash' ∧ e = e' := by
  have htext : e.toJson.compact = e'.toJson.compact := by
    rcases List.append_eq_append_iff.mp h with ⟨front, -, htext⟩ | ⟨front, -, htext⟩
    · exact compact_suffix htext
    · exact (compact_suffix htext).symm
  unfold hashedBytes at h
  rw [htext, List.append_cancel_right_eq] at h
  obtain ⟨h, hprevs⟩ := List.append_inj' h (by
    rw [length_bytes_of_isDigest hprev, length_bytes_of_isDigest hprev'])
  obtain ⟨hruns, hsequences⟩ := List.append_inj' h (by
    rw [length_littleEndian, length_littleEndian])
  exact ⟨Text.bytes_injective hruns, littleEndian_injective hsequences,
    Text.bytes_injective hprevs, Event.toJson_injective he he' (Json.compact_injective htext)⟩

/-! ## Chains -/

/-- The digest that an entry after these ones has to name. -/
def lastHash (entries : List RecordedEvent) : String :=
  (entries.getLast?.map (·.thisHash)).getD genesis

@[simp] theorem lastHash_nil : lastHash [] = genesis := rfl

@[simp] theorem lastHash_concat (entries : List RecordedEvent) (e : RecordedEvent) :
    lastHash (entries ++ [e]) = e.thisHash := by simp [lastHash]

theorem verifyFrom_concat (prevHash : String) (entries : List RecordedEvent) (e : RecordedEvent) :
    verifyFrom prevHash (entries ++ [e]) = true ↔ verifyFrom prevHash entries = true ∧
      e.prevHash = (entries.getLast?.map (·.thisHash)).getD prevHash ∧
      e.thisHash = hash e.runId e.sequence e.prevHash e.event := by
  induction entries generalizing prevHash with
  | nil => simp [verifyFrom]
  | cons head rest ih =>
    simp only [List.cons_append, verifyFrom, Bool.and_eq_true, ih, and_assoc]
    cases rest <;> simp [List.getLast?_cons]

theorem verify_concat (entries : List RecordedEvent) (e : RecordedEvent) :
    verify (entries ++ [e]) = true ↔ verify entries = true ∧ e.prevHash = lastHash entries ∧
      e.thisHash = hash e.runId e.sequence e.prevHash e.event := verifyFrom_concat ..

theorem isDigest_lastHash {entries : List RecordedEvent} (h : verify entries = true) :
    IsDigest (lastHash entries) := by
  rcases List.eq_nil_or_concat' entries with rfl | ⟨front, e, rfl⟩
  · exact isDigest_genesis
  · obtain ⟨-, -, hthis⟩ := (verify_concat front e).mp h
    rw [lastHash_concat, hthis]
    exact isDigest_hex _

end Chain

/-- The bytes that an entry's digest is taken of. -/
def RecordedEvent.message (e : RecordedEvent) : List UInt8 :=
  Chain.hashedBytes e.runId e.sequence e.prevHash e.event

/-- Entries that differ at most by multiples of 2^64 in their sequence numbers. -/
structure RecordedEvent.Agrees (x y : RecordedEvent) : Prop where
  sequence : x.sequence % 2 ^ 64 = y.sequence % 2 ^ 64
  runId : x.runId = y.runId
  event : x.event = y.event
  prevHash : x.prevHash = y.prevHash
  thisHash : x.thisHash = y.thisHash

namespace Chain

/-- Among these byte strings two have one digest, or one has the digest that stands for the
beginning. -/
def Breaks (messages : List (List UInt8)) : Prop :=
  (∃ x ∈ messages, ∃ y ∈ messages, x ≠ y ∧ Sha256.digest x = Sha256.digest y) ∨
    ∃ x ∈ messages, Sha256.digest x = List.replicate 32 0

theorem Breaks.mono {messages messages' : List (List UInt8)} (h : Breaks messages)
    (hsub : messages ⊆ messages') : Breaks messages' := by
  rcases h with ⟨x, hx, y, hy, hne, heq⟩ | ⟨x, hx, heq⟩
  · exact .inl ⟨x, hsub hx, y, hsub hy, hne, heq⟩
  · exact .inr ⟨x, hsub hx, heq⟩

/-- The byte strings behind the digests of two lists. -/
def messages (a b : List RecordedEvent) : List (List UInt8) := (a ++ b).map RecordedEvent.message

/-- A chain that has entries ends with the digest of the last one's bytes. -/
theorem breaks_of_hash_eq_genesis {entries : List RecordedEvent} {e : RecordedEvent}
    (hmem : e ∈ entries) (h : hash e.runId e.sequence e.prevHash e.event = genesis) :
    Breaks (entries.map RecordedEvent.message) :=
  .inr ⟨e.message, List.mem_map_of_mem hmem, digest_of_hex_eq_genesis h⟩

/-- Chains that end with one digest have the same entries. -/
theorem agree_of_verify {a b : List RecordedEvent} (ha : verify a = true) (hb : verify b = true)
    (hva : ∀ e ∈ a, e.event.Valid) (hvb : ∀ e ∈ b, e.event.Valid) (h : lastHash a = lastHash b) :
    List.Forall₂ RecordedEvent.Agrees a b ∨ Breaks (messages a b) := by
  induction a using List.reverseRecOn generalizing b with
  | nil =>
    rcases List.eq_nil_or_concat' b with rfl | ⟨b, y, rfl⟩
    · exact .inl .nil
    · obtain ⟨-, -, hythis⟩ := (verify_concat b y).mp hb
      rw [lastHash_nil, lastHash_concat, hythis] at h
      exact .inr (breaks_of_hash_eq_genesis (by simp) h.symm)
  | append_singleton a x ih =>
    obtain ⟨ha, hxprev, hxthis⟩ := (verify_concat a x).mp ha
    rcases List.eq_nil_or_concat' b with rfl | ⟨b, y, rfl⟩
    · rw [lastHash_nil, lastHash_concat, hxthis] at h
      exact .inr (breaks_of_hash_eq_genesis (by simp) h)
    obtain ⟨hb, hyprev, hythis⟩ := (verify_concat b y).mp hb
    rw [lastHash_concat, lastHash_concat] at h
    have hdigest : Sha256.digest x.message = Sha256.digest y.message :=
      Sha256.hex_injective (hxthis.symm.trans (h.trans hythis))
    by_cases hmessage : x.message = y.message
    · obtain ⟨hrun, hsequence, hprev, hevent⟩ := hashedBytes_injective
        (hxprev ▸ isDigest_lastHash ha) (hyprev ▸ isDigest_lastHash hb) (hva x (by simp))
        (hvb y (by simp)) hmessage
      have hlast : lastHash a = lastHash b := by rw [← hxprev, ← hyprev, hprev]
      rcases ih ha hb (fun e he => hva e (by simp [he])) (fun e he => hvb e (by simp [he])) hlast
        with hagree | hbreaks
      · exact .inl (List.rel_append hagree (.cons ⟨hsequence, hrun, hevent, hprev, h⟩ .nil))
      · refine .inr (hbreaks.mono (List.map_subset _ ?_))
        intro e he
        simp only [List.mem_append] at he ⊢
        tauto
    · exact .inr (.inl ⟨x.message, List.mem_map_of_mem (by simp), y.message,
        List.mem_map_of_mem (by simp), hmessage, hdigest⟩)

end Chain

/-! ## Entries as they are recorded and read -/

/-- A sequence number has 64 bits, and an event's points in time are such as clocks give. -/
structure RecordedEvent.Valid (e : RecordedEvent) : Prop where
  sequence_lt : e.sequence < 2 ^ 64
  event : e.event.Valid

theorem RecordedEvent.Agrees.eq {x y : RecordedEvent} (h : x.Agrees y) (hx : x.Valid)
    (hy : y.Valid) : x = y := by
  obtain ⟨hsequence, hrun, hevent, hprev, hthis⟩ := h
  rw [Nat.mod_eq_of_lt hx.sequence_lt, Nat.mod_eq_of_lt hy.sequence_lt] at hsequence
  cases x
  cases y
  exact (RecordedEvent.mk.injEq ..).mpr ⟨hsequence, hrun, hevent, hprev, hthis⟩

theorem RecordedEvent.valid_of_ofJson? {json : Json} {e : RecordedEvent}
    (h : ofJson? json = some e) : e.Valid := by
  obtain ⟨fields, -, h⟩ := Option.bind_eq_some_iff.mp h
  obtain ⟨sequence, hsequence, h⟩ := Option.bind_eq_some_iff.mp h
  obtain ⟨runId, -, h⟩ := Option.bind_eq_some_iff.mp h
  obtain ⟨event, hevent, h⟩ := Option.bind_eq_some_iff.mp h
  obtain ⟨prevHash, -, h⟩ := Option.bind_eq_some_iff.mp h
  obtain ⟨thisHash, -, h⟩ := Option.bind_eq_some_iff.mp h
  cases h
  obtain ⟨_, -, hevent⟩ := Option.bind_eq_some_iff.mp hevent
  obtain ⟨_, -, hsequence⟩ := Option.bind_eq_some_iff.mp hsequence
  obtain ⟨n, -, hn⟩ := Option.bind_eq_some_iff.mp hsequence
  split_ifs at hn with hlt
  cases hn
  exact ⟨hlt, Event.valid_of_ofJson? hevent⟩

/-! ## Recorders -/

namespace Recorder

/-- The entries form a chain, and the digest is that of the last one. -/
structure Linked (r : Recorder) : Prop where
  verify : Chain.verify r.entries = true
  digest : r.digest = Chain.lastHash r.entries

theorem linked_new (runId : String) : (new runId).Linked := ⟨rfl, rfl⟩

theorem Linked.record {r : Recorder} (h : r.Linked) (e : Event) : (r.record e).Linked where
  verify := (Chain.verify_concat ..).mpr ⟨h.verify, h.digest, rfl⟩
  digest := by simp [Recorder.record]

theorem Linked.recordAll {r : Recorder} (h : r.Linked) (es : List Event) :
    (r.recordAll es).Linked := by
  induction es generalizing r with
  | nil => exact h
  | cons e rest ih => exact ih (h.record e)

theorem events_record (r : Recorder) (e : Event) : (r.record e).events = r.events ++ [e] := by
  simp [record, events]

theorem events_recordAll (r : Recorder) (es : List Event) :
    (r.recordAll es).events = r.events ++ es := by
  induction es generalizing r with
  | nil => exact (List.append_nil _).symm
  | cons e rest ih =>
    change ((r.record e).recordAll rest).events = _
    rw [ih, events_record, List.append_assoc]
    rfl

theorem valid_of_recordAll {runId : String} {es : List Event} (h : ∀ e ∈ es, e.Valid) :
    ∀ entry ∈ ((new runId).recordAll es).entries, entry.event.Valid := by
  intro entry hentry
  have hevents : ((new runId).recordAll es).events = es := events_recordAll (new runId) es
  exact h _ (hevents ▸ List.mem_map_of_mem hentry)

theorem events_eq_of_digest {runId : String} {es fs : List Event} (hes : ∀ e ∈ es, e.Valid)
    (hfs : ∀ e ∈ fs, e.Valid)
    (h : ((new runId).recordAll es).digest = ((new runId).recordAll fs).digest) :
    es = fs ∨ Chain.Breaks (Chain.messages ((new runId).recordAll es).entries
      ((new runId).recordAll fs).entries) := by
  have hlinked := (linked_new runId).recordAll es
  have hlinked' := (linked_new runId).recordAll fs
  rw [hlinked.digest, hlinked'.digest] at h
  refine (Chain.agree_of_verify hlinked.verify hlinked'.verify (valid_of_recordAll hes)
    (valid_of_recordAll hfs) h).imp_left fun hagree => ?_
  have hevents : ((new runId).recordAll es).events = ((new runId).recordAll fs).events :=
    List.forall₂_eq_eq_eq ▸ List.forall₂_map_left_iff.mpr
      (List.forall₂_map_right_iff.mpr (hagree.imp fun _ _ hentry => hentry.event))
  rwa [events_recordAll, events_recordAll] at hevents

end Recorder

/-! ## Tampering -/

namespace Chain

theorem eq_of_agree {a b : List RecordedEvent} (hva : ∀ e ∈ a, e.Valid)
    (hvb : ∀ e ∈ b, e.Valid) (h : List.Forall₂ RecordedEvent.Agrees a b) : a = b := by
  induction h with
  | nil => rfl
  | cons hentry _ ih =>
    rw [hentry.eq (hva _ List.mem_cons_self) (hvb _ List.mem_cons_self),
      ih (fun e he => hva e (List.mem_cons_of_mem _ he)) fun e he =>
        hvb e (List.mem_cons_of_mem _ he)]

theorem eq_of_verify {a b : List RecordedEvent} (hva : ∀ e ∈ a, e.Valid) (hvb : ∀ e ∈ b, e.Valid)
    (ha : verify a = true) (hb : verify b = true)
    (h : a.getLast?.map (·.thisHash) = b.getLast?.map (·.thisHash)) :
    a = b ∨ Breaks (messages a b) := by
  have hlast : lastHash a = lastHash b := congrArg (·.getD genesis) h
  exact (agree_of_verify ha hb (fun e he => (hva e he).event) (fun e he => (hvb e he).event)
    hlast).imp_left (eq_of_agree hva hvb)

/-- The chain shows what was changed: the last digest determines all entries, the bytes that are
hashed determine what they are made of, and recorders of one run have one digest exactly when they
recorded the same events. -/
theorem tamper_evident :
    (∀ a b : List RecordedEvent, (∀ e ∈ a, e.Valid) → (∀ e ∈ b, e.Valid) →
      verify a = true → verify b = true →
      a.getLast?.map (·.thisHash) = b.getLast?.map (·.thisHash) →
      a = b ∨ Breaks (messages a b)) ∧
    (∀ x y : RecordedEvent, x.Valid → y.Valid → IsDigest x.prevHash → IsDigest y.prevHash →
      x.message = y.message →
      x.runId = y.runId ∧ x.sequence = y.sequence ∧ x.prevHash = y.prevHash ∧ x.event = y.event) ∧
    (∀ (runId : String) (es fs : List Event), (∀ e ∈ es, e.Valid) → (∀ e ∈ fs, e.Valid) →
      (es = fs → ((Recorder.new runId).recordAll es).digest =
        ((Recorder.new runId).recordAll fs).digest) ∧
      (((Recorder.new runId).recordAll es).digest = ((Recorder.new runId).recordAll fs).digest →
        es = fs ∨ Breaks (messages ((Recorder.new runId).recordAll es).entries
          ((Recorder.new runId).recordAll fs).entries))) := by
  refine ⟨fun a b hva hvb ha hb h => eq_of_verify hva hvb ha hb h,
    fun x y hx hy hxprev hyprev h => ?_, fun runId es fs hes hfs => ⟨?_, ?_⟩⟩
  · obtain ⟨hrun, hsequence, hprev, hevent⟩ :=
      hashedBytes_injective hxprev hyprev hx.event hy.event h
    rw [Nat.mod_eq_of_lt hx.sequence_lt, Nat.mod_eq_of_lt hy.sequence_lt] at hsequence
    exact ⟨hrun, hsequence, hprev, hevent⟩
  · rintro rfl
    rfl
  · exact Recorder.events_eq_of_digest hes hfs

end Chain

end Agents
