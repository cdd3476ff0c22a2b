import Agents.Proofs.Json.Tree
import Agents.Proofs.Json.Printer
import Agents.Proofs.Text.Base64
import Agents.Script.Exchange

/-! # JSON crosses into a script and back unchanged

A script holds JSON in values of its own: an object whose only member is `$binary` with the text of
some bytes becomes a blob, and every other value becomes the one of its own kind. So there are two
ways to write an object with that member, and the exchange is lossless only because bytes have one
text (`Base64.spelled_iff`): the text of a blob is the text that it came from.

Integers are asked to be in the range that scripts have. Marks of streams are not: an object that
looks like one is a map inside a script, and no stream is found in what came in (`streams_ofJson`).
-/

namespace Agents

/-- A value whose integers a script can hold. Doubles are finite, as JSON has no others. -/
inductive Json.Portable : Json → Prop where
  | null : Portable .null
  | bool (b : Bool) : Portable (.bool b)
  | int {n : ℤ} (hlow : -2 ^ 63 ≤ n) (hhigh : n < 2 ^ 63) : Portable (.num (.int n))
  | float {x : Float} (h : x.isFinite = true) : Portable (.num (.float x))
  | str (s : String) : Portable (.str s)
  | arr {items : List Json} (h : ∀ a ∈ items, Portable a) : Portable (.arr items)
  | obj {fields : Json.Fields} (h : ∀ member ∈ fields, Portable member.2) : Portable (.obj fields)

namespace Script

open Text (Base64.Spelled)

/-! ## Objects that hold bytes -/

theorem soleText?_eq_some_iff {key text : String} {fields : Json.Fields} :
    soleText? key fields = some text ↔ fields = [(key, .str text)] := by
  constructor
  · intro h
    unfold soleText? at h
    split at h
    · next k s =>
      obtain ⟨rfl, hs⟩ := Option.ite_none_right_eq_some.mp h
      rw [Option.some.inj hs]
    · cases h
  · rintro rfl
    exact if_pos rfl

theorem decode?_eq_some_iff {text : String} {bytes : List UInt8} :
    Text.Base64.decode? text = some bytes ↔ Base64.Spelled text bytes := by
  rw [Text.Base64.spelled_iff, ← Text.Base64.decode_eq_ok_iff]
  unfold Text.Base64.decode?
  cases Text.Base64.decode text with
  | ok found => simp [Except.toOption]
  | error e => simp [Except.toOption]

theorem bytes?_eq_some_iff {fields : Json.Fields} {bytes : List UInt8} :
    (soleText? binaryKey fields).bind Text.Base64.decode? = some bytes ↔
      ∃ text, fields = [(binaryKey, .str text)] ∧ Base64.Spelled text bytes := by
  rw [Option.bind_eq_some_iff]
  exact exists_congr fun text => and_congr soleText?_eq_some_iff decode?_eq_some_iff

namespace Value

/-! ## Kinds of values -/

theorem ofJsonItems_eq (items : List Json) : ofJsonItems items = items.map ofJson := by
  induction items with
  | nil => rfl
  | cons item rest ih => rw [ofJsonItems, ih, List.map_cons]

theorem ofJsonFields_eq (fields : Json.Fields) :
    ofJsonFields fields = fields.map fun member => (member.1, ofJson member.2) := by
  induction fields with
  | nil => rfl
  | cons member rest ih => rw [ofJsonFields, ih, List.map_cons]

theorem ofJson_obj_cases (fields : Json.Fields) :
    (∃ text bytes, fields = [(binaryKey, .str text)] ∧ Base64.Spelled text bytes ∧
      ofJson (.obj fields) = .blob bytes) ∨
    (∀ text bytes, fields = [(binaryKey, .str text)] → ¬ Base64.Spelled text bytes) ∧
      ofJson (.obj fields) = .object (fields.map fun member => (member.1, ofJson member.2)) := by
  rw [ofJson]
  split
  · next bytes hbytes =>
    obtain ⟨text, hfields, hspelled⟩ := bytes?_eq_some_iff.mp hbytes
    exact .inl ⟨text, bytes, hfields, hspelled, rfl⟩
  · next hnone =>
    refine .inr ⟨fun text bytes hfields hspelled => ?_, by rw [ofJsonFields_eq]⟩
    rw [bytes?_eq_some_iff.mpr ⟨text, hfields, hspelled⟩] at hnone
    cases hnone

/-- A blob comes from an object of that form and from nothing else. -/
theorem ofJson_eq_blob_iff {v : Json} {bytes : List UInt8} : ofJson v = .blob bytes ↔
    ∃ text, v = .obj [(binaryKey, .str text)] ∧ Base64.Spelled text bytes := by
  cases v with
  | obj fields =>
    have hbytes := @bytes?_eq_some_iff fields bytes
    rw [ofJson]
    simp only [Json.obj.injEq]
    rw [← hbytes]
    split
    · next found hfound => rw [hfound, Option.some.injEq, blob.injEq]
    · next hnone => rw [hnone]; exact iff_of_false nofun nofun
  | num n =>
    refine iff_of_false ?_ nofun
    cases n with
    | int n =>
      rw [ofJson]
      split <;> exact nofun
    | float x => exact nofun
  | null | bool | str | arr => exact iff_of_false nofun nofun

/-! ## Streams -/

theorem itemStreams_eq_nil {items : List Value} (h : ∀ v ∈ items, ∀ path, v.streams path = [])
    (path : List String) (index : Nat) : itemStreams path index items = [] := by
  induction items generalizing index with
  | nil => rfl
  | cons v rest ih =>
    obtain ⟨hv, hrest⟩ := List.forall_mem_cons.mp h
    rw [itemStreams, hv, ih hrest, List.append_nil]

theorem memberStreams_eq_nil {members : List (String × Value)}
    (h : ∀ member ∈ members, ∀ path, member.2.streams path = []) (path : List String) :
    memberStreams path members = [] := by
  induction members with
  | nil => rfl
  | cons member rest ih =>
    obtain ⟨hmember, hrest⟩ := List.forall_mem_cons.mp h
    rw [memberStreams, hmember, ih hrest, List.append_nil]

theorem streams_ofJson (v : Json) (path : List String) : (ofJson v).streams path = [] := by
  induction v using Json.induct generalizing path with
  | null | bool | str => rfl
  | num n =>
    cases n with
    | int n =>
      rw [ofJson]
      split <;> rfl
    | float x => rfl
  | arr items ih =>
    rw [ofJson, ofJsonItems_eq, streams]
    exact itemStreams_eq_nil (List.forall_mem_map.mpr ih) path 0
  | obj fields ih =>
    obtain ⟨text, bytes, -, -, hblob⟩ | ⟨-, hobject⟩ := ofJson_obj_cases fields
    · rw [hblob]
      rfl
    · rw [hobject, streams]
      exact memberStreams_eq_nil (List.forall_mem_map.mpr ih) path

/-! ## There and back -/

theorem toJsonItems_ofJson {items : List Json}
    (h : ∀ item ∈ items, ∀ path, (ofJson item).toJson path = item) (path : List String)
    (index : Nat) : toJsonItems path index (items.map ofJson) = items := by
  induction items generalizing index with
  | nil => rfl
  | cons item rest ih =>
    obtain ⟨hitem, hrest⟩ := List.forall_mem_cons.mp h
    rw [List.map_cons, toJsonItems, hitem, ih hrest]

theorem toJsonMembers_ofJson {fields : Json.Fields}
    (h : ∀ member ∈ fields, ∀ path, (ofJson member.2).toJson path = member.2)
    (path : List String) :
    toJsonMembers path (fields.map fun member => (member.1, ofJson member.2)) = fields := by
  induction fields with
  | nil => rfl
  | cons member rest ih =>
    obtain ⟨hmember, hrest⟩ := List.forall_mem_cons.mp h
    rw [List.map_cons, toJsonMembers, hmember, ih hrest]

/-- Wherever in a result a value stands that came in, it goes out as it was. -/
theorem toJson_ofJson {v : Json} (h : v.Portable) (path : List String) :
    (ofJson v).toJson path = v := by
  induction h generalizing path with
  | null | bool | str => rfl
  | @int n hlow hhigh =>
    have hsize : (Word.size 63 : ℤ) = 2 ^ 63 := rfl
    have hrange : inRange n = true := by
      rw [inRange, hsize, Bool.and_eq_true, decide_eq_true_eq, decide_eq_true_eq]
      exact ⟨hlow, hhigh⟩
    rw [ofJson, if_pos hrange]
    rfl
  | @float x hfinite => exact if_pos hfinite
  | @arr items _ ih =>
    rw [ofJson, ofJsonItems_eq, toJson, toJsonItems_ofJson ih]
  | @obj fields _ ih =>
    obtain ⟨text, bytes, hfields, hspelled, hblob⟩ | ⟨-, hobject⟩ := ofJson_obj_cases fields
    -- the text of the bytes is the one that they came from
    · rw [hblob, toJson, hfields, Text.Base64.spelled_iff.mp hspelled]
    · rw [hobject, toJson, toJsonMembers_ofJson ih]

/-! ## Places -/

def at? : List Json.Step → Value → Option Value
  | [], v => some v
  | .index i :: path, .array items => items[i]?.bind (at? path)
  | .member name :: path, .object members => (Members.get? name members).bind (at? path)
  | _ :: _, _ => none

theorem get?_ofJsonFields (name : String) (fields : Json.Fields) :
    Members.get? name (fields.map fun member => (member.1, ofJson member.2)) =
      (Json.Fields.get? name fields).map ofJson := by
  induction fields with
  | nil => rfl
  | cons member rest ih =>
    obtain ⟨k, v⟩ := member
    rw [List.map_cons, Members.get?, Json.Fields.get?, ih]
    split <;> rfl

/-- Below an object that holds bytes there is a text and nothing else. -/
theorem at?_text_ne_obj (text : String) (path : List Json.Step) (fields : Json.Fields) :
    Json.at? path (.str text) ≠ some (.obj fields) := by
  cases path with
  | nil => exact nofun
  | cons step path => cases step <;> exact nofun

/-- A step inside a script is a step in the JSON, or it leads nowhere, and in the JSON to no
object. -/
theorem at?_ofJson_cons (step : Json.Step) (path : List Json.Step) (v : Json) :
    (∃ child, (ofJson v).at? (step :: path) = (ofJson child).at? path ∧
      v.at? (step :: path) = child.at? path) ∨
    (ofJson v).at? (step :: path) = none ∧ ∀ fields, v.at? (step :: path) ≠ some (.obj fields) := by
  cases v with
  | null | bool | str =>
    refine .inr ⟨by cases step <;> rfl, fun fields h => ?_⟩
    cases step <;> cases h
  | num n =>
    refine .inr ⟨?_, fun fields h => by cases step <;> cases h⟩
    cases n with
    | int n =>
      rw [ofJson]
      split <;> cases step <;> rfl
    | float x => cases step <;> rfl
  | arr items =>
    rw [ofJson, ofJsonItems_eq]
    cases step with
    | member name => exact .inr ⟨rfl, fun fields h => by cases h⟩
    | index i =>
      rw [at?, Json.at?, List.getElem?_map]
      cases items[i]? with
      | none => exact .inr ⟨rfl, fun fields h => by cases h⟩
      | some item => exact .inl ⟨item, rfl, rfl⟩
  | obj fields =>
    obtain ⟨text, found, rfl, -, hblob⟩ | ⟨-, hobject⟩ := ofJson_obj_cases fields
    · rw [hblob]
      refine .inr ⟨by cases step <;> rfl, fun below h => ?_⟩
      cases step with
      | index i => cases h
      | member name =>
        rw [Json.at?, Json.Fields.get?] at h
        split at h
        · exact at?_text_ne_obj _ _ _ h
        · cases h
    · rw [hobject]
      cases step with
      | index i => exact .inr ⟨rfl, fun below h => by cases h⟩
      | member name =>
        rw [at?, Json.at?, get?_ofJsonFields]
        cases Json.Fields.get? name fields with
        | none => exact .inr ⟨rfl, fun below h => by cases h⟩
        | some found => exact .inl ⟨found, rfl, rfl⟩

/-- The blobs inside a script are at the places of the objects that they come from. -/
theorem at?_ofJson_eq_blob_iff (path : List Json.Step) {v : Json} {bytes : List UInt8} :
    (ofJson v).at? path = some (.blob bytes) ↔
      ∃ text, v.at? path = some (.obj [(binaryKey, .str text)]) ∧ Base64.Spelled text bytes := by
  induction path generalizing v with
  | nil =>
    simp only [at?, Json.at?, Option.some.injEq]
    exact ofJson_eq_blob_iff
  | cons step path ih =>
    obtain ⟨child, hvalue, hjson⟩ | ⟨hvalue, hjson⟩ := at?_ofJson_cons step path v
    · rw [hvalue, hjson]
      exact ih
    · rw [hvalue]
      refine iff_of_false (fun h => by cases h) ?_
      rintro ⟨text, hplace, -⟩
      exact hjson _ hplace

/-- JSON crosses into a script and back unchanged, wherever in a result it stands, and brings no
stream with it. The blobs inside the script are at the places of the objects whose only member is
`$binary` with the canonical text of some bytes, and each goes out with the text that it came in
with. -/
theorem exchange_lossless {v : Json} (h : v.Portable) :
    (ofJson v).toPlainJson = v ∧
    (∀ path, (ofJson v).toJson path = v ∧ (ofJson v).streams path = []) ∧
    (∀ place bytes, (ofJson v).at? place = some (.blob bytes) ↔
      ∃ text, v.at? place = some (.obj [(binaryKey, .str text)]) ∧ Base64.Spelled text bytes) ∧
    ∀ text bytes, Base64.Spelled text bytes →
      ofJson (.obj [(binaryKey, .str text)]) = .blob bytes ∧
      ∀ path, (blob bytes).toJson path = .obj [(binaryKey, .str text)] := by
  have hback := toJson_ofJson h
  have hstreams := streams_ofJson v
  refine ⟨?_, fun path => ⟨hback path, hstreams path⟩,
    fun place bytes => at?_ofJson_eq_blob_iff place, fun text bytes hspelled => ⟨?_, ?_⟩⟩
  · rw [toPlainJson, hstreams []]
    exact hback []
  · exact ofJson_eq_blob_iff.mpr ⟨text, rfl, hspelled⟩
  · intro path
    rw [toJson, ← Text.Base64.spelled_iff.mp hspelled]

/-- A parcel with marks and bytes in it, and with what is neither. -/
def parcel : Json :=
  .obj [("$stream", "/a"), ("a", .obj [("$binary", "")]),
    ("b", .arr [.obj [("$binary", "YQ==")], .obj [("$binary", "YQ")]]),
    ("c", .obj [("$binary", "YQ=="), ("$stream", .null)]),
    ("d", .obj [("$stream", "/b")]), ("n", .arr [Json.ofInt (-2 ^ 63), Json.num (.float 1.5)])]

theorem exchange_lossless_parcel : parcel.Portable ∧ (ofJson parcel).toPlainJson = parcel ∧
    (ofJson parcel).at? [.member "b", .index 0] = some (.blob [97]) ∧
    ∀ bytes, (ofJson parcel).at? [.member "b", .index 1] ≠ some (.blob bytes) := by
  have hsole (key text : String) : (Json.obj [(key, .str text)]).Portable :=
    .obj (List.forall_mem_singleton.mpr (.str text))
  have hpair : (Json.obj [("$binary", "YQ=="), ("$stream", .null)]).Portable :=
    .obj (List.forall_mem_cons.mpr ⟨.str _, List.forall_mem_singleton.mpr .null⟩)
  have hbytes : (Json.arr [.obj [("$binary", "YQ==")], .obj [("$binary", "YQ")]]).Portable :=
    .arr (List.forall_mem_cons.mpr ⟨hsole _ _, List.forall_mem_singleton.mpr (hsole _ _)⟩)
  have hnumbers : (Json.arr [Json.ofInt (-2 ^ 63), Json.num (.float 1.5)]).Portable :=
    .arr (List.forall_mem_cons.mpr ⟨.int (by decide) (by decide),
      List.forall_mem_singleton.mpr (.float (by decide))⟩)
  have hportable : parcel.Portable := by
    refine .obj ?_
    simp only [List.forall_mem_cons]
    exact ⟨.str _, hsole _ _, hbytes, hpair, hsole _ _, hnumbers, List.forall_mem_nil _⟩
  obtain ⟨hplain, -, hblobs, -⟩ := exchange_lossless hportable
  refine ⟨hportable, hplain, ?_, ?_⟩
  · exact (hblobs _ _).mpr ⟨"YQ==", rfl, Text.Base64.spelled_iff.mpr (by decide)⟩
  · intro bytes hblob
    obtain ⟨text, hplace, hspelled⟩ := (hblobs _ _).mp hblob
    obtain ⟨-, rfl⟩ : "$binary" = binaryKey ∧ "YQ" = text := by
      simpa [parcel, Json.at?, Json.Fields.get?] using hplace
    exact absurd hspelled.length_mod (by decide)

end Value

end Script

end Agents
