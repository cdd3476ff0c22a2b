import Agents.Proofs.Json.Pointer
import Agents.Script.Exchange
import Mathlib.Data.List.Nodup

/-! # The places of streams in a result

The JSON of a value in which something stands for every stream is `Value.fill`; when a mark with the
path stands there it is the JSON that leaves the script (`Value.toJson_eq_fill`). Arrays and maps are
both lists of parts with the token that leads to each (`Value.parts`), so that what holds of one
place is shown once.

- The paths of different streams of a value differ (`Value.nodup_paths`).
- The pointer to a stream leads to what stands for it, and writing there changes only that
  (`Value.pointer?_fill`, `Value.replaceAt?_fill`).
- The marks that are found in the JSON of a value are those of its streams, if no map in it looks
  like one (`Value.streamPaths_toJson`); those of its streams are found in any case
  (`Value.mem_streamPaths`).
-/

namespace Agents.Script

namespace Value

/-! ## Parts -/

/-- The parts of a value, each with the token that leads to it. -/
def parts : Value → List (String × Value)
  | .array items => items.mapIdx fun i v => (toString i, v)
  | .object members => members
  | _ => []

theorem sizeOf_of_mem_parts {v : Value} {part : String × Value} (h : part ∈ v.parts) :
    sizeOf part.2 < sizeOf v := by
  obtain ⟨token, w⟩ := part
  cases v with
  | array items =>
    obtain ⟨i, hi, heq⟩ := List.mem_mapIdx.mp h
    have hlt := List.sizeOf_lt_of_mem (List.getElem_mem hi)
    rw [(Prod.mk.inj heq).2] at hlt
    simp only [array.sizeOf_spec]
    omega
  | object members =>
    have hlt := List.sizeOf_lt_of_mem (show (token, w) ∈ members from h)
    simp only [object.sizeOf_spec, Prod.mk.sizeOf_spec] at hlt ⊢
    omega
  | _ => cases h

@[elab_as_elim]
theorem induct {P : Value → Prop} (h : ∀ v, (∀ part ∈ v.parts, P part.2) → P v) (v : Value) :
    P v := h v fun part _ => induct h part.2
termination_by sizeOf v
decreasing_by exact sizeOf_of_mem_parts ‹_›

/-- Something holds of a value and of everything in it. -/
inductive Throughout (P : Value → Prop) : Value → Prop
  | intro {v : Value} (here : P v) (within : ∀ part ∈ v.parts, Throughout P part.2) :
    Throughout P v

theorem Throughout.here {P : Value → Prop} {v : Value} (h : Throughout P v) : P v := by
  cases h with
  | intro here within => exact here

theorem Throughout.within {P : Value → Prop} {v : Value} (h : Throughout P v) :
    ∀ part ∈ v.parts, Throughout P part.2 := by
  cases h with
  | intro here within => exact within

/-- A value as scripts hold it: the keys of every map are in order, and no array has more items than
there are positions. -/
def Sound : Value → Prop := Throughout fun
  | .array items => items.length ≤ Word.size 64
  | .object members => members.Pairwise (·.1 < ·.1)
  | _ => True

/-- Whether JSON has a value only as text. -/
def isText : Value → Bool
  | .char _ | .string _ | .range .. | .function .. | .shared _ => true
  | _ => false

/-- No map in a value looks like what stands for a stream. -/
def Unmarked : Value → Prop := Throughout fun v =>
  ∀ w, v = .object [(streamKey, w)] → w.isText = false

theorem sound_stream (id : Nat) : (stream id).Sound := .intro trivial (List.forall_mem_nil _)

theorem unmarked_stream (id : Nat) : (stream id).Unmarked :=
  .intro (fun _ h => by cases h) (List.forall_mem_nil _)

/-! ## Something in the place of a stream -/

mutual

/-- The JSON of a value that stands at a path, with something in the place of every stream. -/
def fill (held : List String → Nat → Json) (path : List String) : Value → Json
  | .array items => .arr (fillItems held path 0 items)
  | .object members => .obj (fillMembers held path members)
  | .stream id => held path id
  | v => v.toJson path

def fillItems (held : List String → Nat → Json) (path : List String) (index : Nat) :
    List Value → List Json
  | [] => []
  | v :: rest => fill held (path ++ [toString index]) v :: fillItems held path (index + 1) rest

def fillMembers (held : List String → Nat → Json) (path : List String) :
    List (String × Value) → List (String × Json)
  | [] => []
  | (k, v) :: rest => (k, fill held (path ++ [k]) v) :: fillMembers held path rest

end

/-- What stands for a stream when it leaves a script. -/
def mark (path : List String) (_ : Nat) : Json :=
  .obj [(streamKey, .str (Json.Pointer.ofTokens path))]

def rebuild (v : Value) (contents : List Json) : Json :=
  match v with
  | .object members => .obj ((members.map (·.1)).zip contents)
  | _ => .arr contents

def IsLeaf : Value → Prop
  | .array _ | .object _ | .stream _ => False
  | _ => True

def IsContainer : Value → Prop
  | .array _ | .object _ => True
  | _ => False

theorem stream_or_leaf_or_container (v : Value) :
    (∃ id, v = .stream id) ∨ v.IsLeaf ∨ v.IsContainer := by
  cases v with
  | stream id => exact .inl ⟨id, rfl⟩
  | array items => exact .inr (.inr trivial)
  | object members => exact .inr (.inr trivial)
  | _ => exact .inr (.inl trivial)

theorem IsLeaf.parts_eq {v : Value} (h : v.IsLeaf) : v.parts = [] := by
  cases v with
  | array items => exact h.elim
  | object members => exact h.elim
  | _ => rfl

theorem IsLeaf.streams_eq {v : Value} (h : v.IsLeaf) (path : List String) : v.streams path = [] := by
  cases v with
  | array items => exact h.elim
  | object members => exact h.elim
  | stream id => exact h.elim
  | _ => rfl

theorem IsLeaf.fill_eq {v : Value} (h : v.IsLeaf) (held : List String → Nat → Json)
    (path : List String) : v.fill held path = v.toJson path := by
  cases v with
  | array items => exact h.elim
  | object members => exact h.elim
  | stream id => exact h.elim
  | _ => rfl

theorem fillItems_eq (held : List String → Nat → Json) (path : List String) (index : Nat)
    (items : List Value) : fillItems held path index items =
      items.mapIdx fun i v => fill held (path ++ [toString (index + i)]) v := by
  induction items generalizing index with
  | nil => rfl
  | cons v rest ih =>
    rw [fillItems, ih, List.mapIdx_cons]
    simp only [Nat.add_zero, Nat.add_assoc, Nat.add_comm 1]

theorem fillMembers_eq (held : List String → Nat → Json) (path : List String)
    (members : List (String × Value)) : fillMembers held path members =
      members.map fun member => (member.1, fill held (path ++ [member.1]) member.2) := by
  induction members with
  | nil => rfl
  | cons member rest ih => rw [fillMembers, ih, List.map_cons]

theorem itemStreams_eq (path : List String) (index : Nat) (items : List Value) :
    itemStreams path index items =
      (items.mapIdx fun i v => streams (path ++ [toString (index + i)]) v).flatten := by
  induction items generalizing index with
  | nil => rfl
  | cons v rest ih =>
    rw [itemStreams, ih, List.mapIdx_cons, List.flatten_cons]
    simp only [Nat.add_zero, Nat.add_assoc, Nat.add_comm 1]

theorem memberStreams_eq (path : List String) (members : List (String × Value)) :
    memberStreams path members =
      members.flatMap fun member => streams (path ++ [member.1]) member.2 := by
  induction members with
  | nil => rfl
  | cons member rest ih => rw [memberStreams, ih, List.flatMap_cons]

/-- What `f` makes of the parts of a container that stands at a path. -/
theorem rebuild_parts {v : Value} (f : List String → Value → Json) (path : List String) :
    v.rebuild (v.parts.map fun part => f (path ++ [part.1]) part.2) =
      match v with
      | .array items => .arr (items.mapIdx fun i v => f (path ++ [toString i]) v)
      | .object members => .obj (members.map fun member => (member.1, f (path ++ [member.1]) member.2))
      | _ => .arr [] := by
  cases v with
  | array items => simp [rebuild, parts, List.mapIdx_eq_zipIdx_map]
  | object members => simp [rebuild, parts, List.zip_map']
  | _ => rfl

theorem IsContainer.fill_eq {v : Value} (h : v.IsContainer) (held : List String → Nat → Json)
    (path : List String) : v.fill held path =
      v.rebuild (v.parts.map fun part => part.2.fill held (path ++ [part.1])) := by
  rw [rebuild_parts fun path w => w.fill held path]
  cases v with
  | array items => simp only [fill, fillItems_eq, Nat.zero_add]
  | object members => simp only [fill, fillMembers_eq]
  | _ => exact h.elim

theorem IsContainer.streams_eq {v : Value} (h : v.IsContainer) (path : List String) :
    v.streams path = v.parts.flatMap fun part => part.2.streams (path ++ [part.1]) := by
  cases v with
  | array items =>
    simp only [streams, itemStreams_eq, parts, List.mapIdx_eq_zipIdx_map, List.flatMap,
      List.map_map, Nat.zero_add]
    rfl
  | object members => exact memberStreams_eq path members
  | _ => exact h.elim

mutual

/-- The JSON of a value is the value with a mark in the place of every stream. -/
theorem toJson_eq_fill (v : Value) (path : List String) : v.toJson path = v.fill mark path := by
  cases v with
  | array items => rw [toJson, fill, toJsonItems_eq_fillItems items path 0]
  | object members => rw [toJson, fill, toJsonMembers_eq_fillMembers members path]
  | _ => rfl

theorem toJsonItems_eq_fillItems (items : List Value) (path : List String) (index : Nat) :
    toJsonItems path index items = fillItems mark path index items := by
  cases items with
  | nil => rfl
  | cons v rest =>
    rw [toJsonItems, fillItems, toJson_eq_fill v, toJsonItems_eq_fillItems rest path]

theorem toJsonMembers_eq_fillMembers (members : List (String × Value)) (path : List String) :
    toJsonMembers path members = fillMembers mark path members := by
  cases members with
  | nil => rfl
  | cons member rest =>
    rw [toJsonMembers, fillMembers, toJson_eq_fill member.2,
      toJsonMembers_eq_fillMembers rest path]

end

/-! ## Paths -/

theorem isPrefix_of_mem_streams {v : Value} {path : List String} {x : List String × Nat}
    (h : x ∈ v.streams path) : path <+: x.1 := by
  induction v using induct generalizing path with
  | h v ih =>
    rcases stream_or_leaf_or_container v with ⟨id, rfl⟩ | hleaf | hcontainer
    · cases List.mem_singleton.mp h
      exact List.prefix_rfl
    · rw [hleaf.streams_eq] at h
      cases h
    · rw [hcontainer.streams_eq] at h
      obtain ⟨part, hpart, hx⟩ := List.mem_flatMap.mp h
      exact (List.prefix_append path [part.1]).trans (ih part hpart hx)

theorem mem_streams_self {v : Value} {path : List String} {id : Nat} :
    (path, id) ∈ v.streams path ↔ v = .stream id := by
  rcases stream_or_leaf_or_container v with ⟨id', rfl⟩ | hleaf | hcontainer
  · simp [streams, eq_comm]
  · rw [hleaf.streams_eq]
    refine iff_of_false List.not_mem_nil ?_
    rintro rfl
    exact hleaf
  · refine iff_of_false (fun h => ?_) ?_
    · rw [hcontainer.streams_eq] at h
      obtain ⟨part, -, hx⟩ := List.mem_flatMap.mp h
      have hlength := (isPrefix_of_mem_streams hx).length_le
      rw [List.length_append] at hlength
      exact absurd hlength (Nat.not_succ_le_self _)
    · rintro rfl
      exact hcontainer

/-- A path of one key is that of a stream exactly if the stream is the value of that key. -/
theorem mem_streams_object {members : List (String × Value)} {k : String} {id : Nat} :
    ([k], id) ∈ (object members).streams [] ↔ (k, .stream id) ∈ members := by
  have hcontainer : (object members).IsContainer := trivial
  rw [hcontainer.streams_eq]
  constructor
  · intro h
    obtain ⟨⟨key, v⟩, hpart, hx⟩ := List.mem_flatMap.mp h
    obtain rfl : key = k :=
      (List.cons_prefix_cons.mp (isPrefix_of_mem_streams hx)).1
    rw [← mem_streams_self.mp hx]
    exact hpart
  · intro h
    exact List.mem_flatMap.mpr ⟨(k, .stream id), h, mem_streams_self.mpr rfl⟩

theorem token_eq_of_isPrefix {path place : List String} {t u : String}
    (ht : path ++ [t] <+: place) (hu : path ++ [u] <+: place) : t = u := by
  obtain ⟨rest, rfl⟩ := ht
  rw [List.append_assoc] at hu
  exact (List.cons_prefix_cons.mp ((List.prefix_append_right_inj path).mp hu)).1.symm

theorem Sound.nodup_tokens {v : Value} (h : v.Sound) : (v.parts.map (·.1)).Nodup := by
  cases v with
  | array items =>
    have htokens : (array items).parts.map (·.1) = (List.range items.length).map toString := by
      refine List.ext_getElem (by simp [parts]) fun i _ _ => ?_
      simp [parts]
    rw [htokens]
    refine List.nodup_range.map fun i j hij => ?_
    have hdigits := congrArg String.toList hij
    exact Text.toDigits_injective (by simpa using hdigits)
  | object members =>
    have hsorted : members.Pairwise (·.1 < ·.1) := h.here
    exact List.pairwise_map.mpr (hsorted.imp fun hlt => String.ne_of_lt hlt)
  | _ => exact List.nodup_nil

theorem nodup_paths {v : Value} (h : v.Sound) (path : List String) :
    ((v.streams path).map (·.1)).Nodup := by
  induction v using induct generalizing path with
  | h v ih =>
    rcases stream_or_leaf_or_container v with ⟨id, rfl⟩ | hleaf | hcontainer
    · exact List.nodup_singleton _
    · rw [hleaf.streams_eq]
      exact List.nodup_nil
    · rw [hcontainer.streams_eq, List.map_flatMap]
      refine List.nodup_flatMap.mpr ⟨fun part hpart => ih part hpart (h.within part hpart) _, ?_⟩
      refine (List.pairwise_map.mp h.nodup_tokens).imp fun {a b} hne => ?_
      intro place ha hb
      obtain ⟨x, hx, rfl⟩ := List.mem_map.mp ha
      obtain ⟨y, hy, heq⟩ := List.mem_map.mp hb
      exact hne (token_eq_of_isPrefix (isPrefix_of_mem_streams hx)
        (heq ▸ isPrefix_of_mem_streams hy))

/-- Only what stands in the places of its streams matters for a value. -/
theorem fill_congr {v : Value} {path : List String} {held held' : List String → Nat → Json}
    (h : ∀ x ∈ v.streams path, held x.1 x.2 = held' x.1 x.2) :
    v.fill held path = v.fill held' path := by
  induction v using induct generalizing path with
  | h v ih =>
    rcases stream_or_leaf_or_container v with ⟨id, rfl⟩ | hleaf | hcontainer
    · exact h (path, id) (List.mem_singleton_self _)
    · rw [hleaf.fill_eq, hleaf.fill_eq]
    · rw [hcontainer.fill_eq, hcontainer.fill_eq]
      refine congrArg v.rebuild (List.map_congr_left fun part hpart => ih part hpart fun x hx => ?_)
      refine h x ?_
      rw [hcontainer.streams_eq]
      exact List.mem_flatMap.mpr ⟨part, hpart, hx⟩

/-! ## Following a path -/

def put (place : List String) (new : Json) (held : List String → Nat → Json)
    (path : List String) (id : Nat) : Json :=
  if path = place then new else held path id

/-- The token of a part leads to what was made of it, and what is written there takes its place. -/
theorem follow_rebuild {v : Value} (h : v.Sound) {i : Nat} {part : String × Value}
    (hpart : v.parts[i]? = some part) {contents : List Json} {found : Json}
    (hlength : contents.length = v.parts.length) (hfound : contents[i]? = some found) :
    Json.Pointer.step? (v.rebuild contents) part.1 = some found ∧
    ∀ new rest, Json.Pointer.replace? new (part.1 :: rest) (v.rebuild contents) =
      (Json.Pointer.replace? new rest found).map fun json => v.rebuild (contents.set i json) := by
  obtain ⟨hi, hget⟩ := List.getElem?_eq_some_iff.mp hpart
  cases v with
  | array items =>
    have hcount : items.length ≤ Word.size 64 := h.here
    have hitems : i < items.length := by simpa [parts] using hi
    obtain rfl : (toString i, items[i]) = part := by simpa [parts] using hget
    have hindex := Json.Pointer.index?_toString (Nat.lt_of_lt_of_le hitems hcount)
    refine ⟨?_, fun new rest => ?_⟩
    · show (Json.Pointer.index? (toString i)).bind (fun i => contents[i]?) = some found
      rw [hindex]
      exact hfound
    · simp only [rebuild, Json.Pointer.replace?, hindex, hfound, Option.bind_eq_bind,
        Option.bind_some, Option.map_eq_bind]
      rfl
  | object members =>
    have hsorted : (members.map (·.1)).Pairwise (· < ·) := List.pairwise_map.mpr h.here
    have hkey : (members.map (·.1))[i]? = some part.1 := by
      rw [List.getElem?_map, show members[i]? = some part from hpart]
      rfl
    have hcontents : i < contents.length := hlength ▸ hi
    have hfields := Json.Fields.get?_zip hsorted hkey hfound
    refine ⟨hfields, fun new rest => ?_⟩
    simp only [rebuild, Json.Pointer.replace?, hfields, Option.bind_eq_bind, Option.bind_some]
    rw [Option.map_eq_bind]
    refine congrArg _ (funext fun json => ?_)
    exact congrArg (some ∘ Json.obj) (Json.Fields.insert_zip hsorted hkey hcontents json)
  | _ => cases hpart

/-- The tokens that lead to a stream find what stands for it, and what is written there takes only
its place. -/
theorem follow_fill {v : Value} (h : v.Sound) (held : List String → Nat → Json)
    {path : List String} {x : List String × Nat} (hx : x ∈ v.streams path) :
    ∃ tokens, x.1 = path ++ tokens ∧
      tokens.foldlM Json.Pointer.step? (v.fill held path) = some (held x.1 x.2) ∧
      ∀ new, Json.Pointer.replace? new tokens (v.fill held path) =
        some (v.fill (put x.1 new held) path) := by
  induction v using induct generalizing path with
  | h v ih =>
    rcases stream_or_leaf_or_container v with ⟨id, rfl⟩ | hleaf | hcontainer
    · cases List.mem_singleton.mp hx
      refine ⟨[], (List.append_nil _).symm, rfl, fun new => ?_⟩
      exact congrArg some (if_pos rfl).symm
    · rw [hleaf.streams_eq] at hx
      cases hx
    · rw [hcontainer.streams_eq] at hx
      obtain ⟨part, hpart, hx⟩ := List.mem_flatMap.mp hx
      obtain ⟨i, hi, rfl⟩ := List.mem_iff_getElem.mp hpart
      obtain ⟨tokens, htokens, hstep, hreplace⟩ := ih _ hpart (h.within _ hpart) hx
      have hfound : (v.parts.map fun part => part.2.fill held (path ++ [part.1]))[i]? =
          some (v.parts[i].2.fill held (path ++ [v.parts[i].1])) := by
        rw [List.getElem?_map, List.getElem?_eq_getElem hi]
        rfl
      obtain ⟨hfind, hwrite⟩ := follow_rebuild h (List.getElem?_eq_getElem hi)
        (List.length_map _) hfound
      refine ⟨v.parts[i].1 :: tokens, by rw [htokens, List.append_assoc]; rfl, ?_, fun new => ?_⟩
      · rw [hcontainer.fill_eq, List.foldlM_cons, hfind]
        exact hstep
      · rw [hcontainer.fill_eq, hcontainer.fill_eq, hwrite, hreplace, Option.map_some]
        refine congrArg (some ∘ v.rebuild) (List.ext_getElem (by simp) fun j _ hj => ?_)
        rw [List.getElem_set, List.getElem_map, List.getElem_map]
        split
        · next hij =>
          subst hij
          rfl
        · next hij =>
          -- nothing below another part is written
          have hj : j < v.parts.length := by simpa using hj
          refine fill_congr fun y hy => (if_neg fun heq => hij ?_).symm
          have hsame : v.parts[i].1 = v.parts[j].1 :=
            token_eq_of_isPrefix (isPrefix_of_mem_streams hx) (heq ▸ isPrefix_of_mem_streams hy)
          exact (h.nodup_tokens.of_map _).getElem_inj_iff.mp (List.inj_on_of_nodup_map
            h.nodup_tokens (List.getElem_mem hi) (List.getElem_mem hj) hsame)

theorem pointer?_fill {v : Value} (h : v.Sound) (held : List String → Nat → Json)
    {x : List String × Nat} (hx : x ∈ v.streams []) :
    Json.pointer? (Json.Pointer.ofTokens x.1) (v.fill held []) = some (held x.1 x.2) := by
  obtain ⟨tokens, rfl, hfind, _⟩ : ∃ tokens, x.1 = tokens ∧ _ := follow_fill h held hx
  rw [Json.pointer?, Json.Pointer.tokens?_ofTokens]
  exact hfind

/-- What is written at the pointer to a stream takes only the place of that stream. -/
theorem replaceAt?_fill {v : Value} (h : v.Sound) (held : List String → Nat → Json)
    {x : List String × Nat} (hx : x ∈ v.streams []) (new : Json) :
    Json.replaceAt? (Json.Pointer.ofTokens x.1) new (v.fill held []) =
      some (v.fill (put x.1 new held) []) := by
  obtain ⟨tokens, rfl, _, hwrite⟩ : ∃ tokens, x.1 = tokens ∧ _ := follow_fill h held hx
  rw [Json.replaceAt?, Json.Pointer.tokens?_ofTokens]
  exact hwrite new

/-! ## Finding the marks -/

theorem itemsStreamPaths_eq (items : List Json) :
    itemsStreamPaths items = items.flatMap streamPaths := by
  induction items with
  | nil => rfl
  | cons item rest ih => rw [itemsStreamPaths, ih, List.flatMap_cons]

theorem fieldsStreamPaths_eq (fields : List (String × Json)) :
    fieldsStreamPaths fields = fields.flatMap fun field => streamPaths field.2 := by
  induction fields with
  | nil => rfl
  | cons field rest ih => rw [fieldsStreamPaths, ih, List.flatMap_cons]

theorem isText_of_toJson {v : Value} {path : List String} {s : String}
    (h : v.toJson path = .str s) : v.isText = true := by
  cases v with
  | float x =>
    unfold toJson Json.ofFloat at h
    split at h <;> cases h
  | char c => rfl
  | string s => rfl
  | range first last inclusive => rfl
  | function name bound closure => rfl
  | shared cell => rfl
  | _ => cases h

theorem IsLeaf.streamPaths_eq {v : Value} (h : v.IsLeaf) (path : List String) :
    streamPaths (v.toJson path) = [] := by
  cases v with
  | array items => exact h.elim
  | object members => exact h.elim
  | stream id => exact h.elim
  | float x =>
    unfold toJson Json.ofFloat
    split <;> rfl
  | blob bytes =>
    have hkey : binaryKey ≠ streamKey := by decide
    simp [toJson, streamPaths, soleText?, hkey, fieldsStreamPaths]
  | _ => rfl

theorem toJson_of_isText {v : Value} (h : v.isText = true) (path : List String) :
    ∃ text, v.toJson path = .str text := by
  cases v with
  | char c => exact ⟨_, rfl⟩
  | string s => exact ⟨_, rfl⟩
  | range first last inclusive => exact ⟨_, rfl⟩
  | function name bound closure => exact ⟨_, rfl⟩
  | shared cell => exact ⟨_, rfl⟩
  | _ => cases h

/-- A map that looks like what stands for a stream is taken for it. -/
theorem streamPaths_of_isText {w : Value} (h : w.isText = true) (path : List String) :
    ∃ text, streamPaths ((object [(streamKey, w)]).toJson path) = [text] := by
  obtain ⟨text, htext⟩ := toJson_of_isText h (path ++ [streamKey])
  refine ⟨text, ?_⟩
  rw [toJson, toJsonMembers, toJsonMembers, htext, streamPaths, soleText?, if_pos rfl]

theorem soleText?_members {path : List String} {members : List (String × Value)}
    (h : ∀ w, members = [(streamKey, w)] → w.isText = false) :
    soleText? streamKey (fillMembers mark path members) = none := by
  match members with
  | [] => rfl
  | [(k, w)] =>
    rw [fillMembers, fillMembers, ← toJson_eq_fill]
    match hw : w.toJson (path ++ [k]) with
    | .str s =>
      refine if_neg fun hk => ?_
      have hplain : w.isText = false := h w (hk ▸ rfl)
      rw [isText_of_toJson hw] at hplain
      cases hplain
    | .null | .bool _ | .num _ | .arr _ | .obj _ => rfl
  | (_, _) :: (_, _) :: _ =>
    rw [fillMembers, fillMembers, soleText?]
    simp

theorem IsContainer.streamPaths_eq {v : Value} (h : v.IsContainer)
    (hplain : ∀ w, v = .object [(streamKey, w)] → w.isText = false) (path : List String) :
    streamPaths (v.toJson path) =
      v.parts.flatMap fun part => streamPaths (part.2.toJson (path ++ [part.1])) := by
  simp only [toJson_eq_fill]
  cases v with
  | array items =>
    rw [fill, streamPaths, itemsStreamPaths_eq, fillItems_eq]
    simp only [parts, List.mapIdx_eq_zipIdx_map, List.flatMap_map, Nat.zero_add]
  | object members =>
    rw [fill, streamPaths, soleText?_members fun w hw => hplain w (hw ▸ rfl)]
    simp only
    rw [fieldsStreamPaths_eq, fillMembers_eq, List.flatMap_map]
    rfl
  | _ => exact h.elim

/-- The marks in the JSON of a value are those of its streams, in order. -/
theorem streamPaths_toJson {v : Value} (h : v.Unmarked) (path : List String) :
    streamPaths (v.toJson path) = (v.streams path).map fun x => Json.Pointer.ofTokens x.1 := by
  induction v using induct generalizing path with
  | h v ih =>
    rcases stream_or_leaf_or_container v with ⟨id, rfl⟩ | hleaf | hcontainer
    · rfl
    · rw [hleaf.streamPaths_eq, hleaf.streams_eq]
      rfl
    · rw [hcontainer.streamPaths_eq h.here, hcontainer.streams_eq, List.map_flatMap]
      exact List.flatMap_congr fun part hpart => ih part hpart (h.within part hpart) _

theorem unmarked_of_streamPaths {v : Value} {path : List String}
    (h : streamPaths (v.toJson path) = []) : v.Unmarked := by
  induction v using induct generalizing path with
  | h v ih =>
    have hplain (w : Value) (hw : v = .object [(streamKey, w)]) : w.isText = false := by
      refine Bool.eq_false_iff.mpr fun htext => ?_
      obtain ⟨text, hmark⟩ := streamPaths_of_isText htext path
      rw [hw, hmark] at h
      cases h
    refine .intro hplain fun part hpart => ?_
    rcases stream_or_leaf_or_container v with ⟨id, rfl⟩ | hleaf | hcontainer
    · cases hpart
    · rw [hleaf.parts_eq] at hpart
      cases hpart
    · rw [hcontainer.streamPaths_eq hplain] at h
      exact ih part hpart (List.flatMap_eq_nil_iff.mp h part hpart)

/-- The mark of every stream is found, whatever else looks like one. -/
theorem mem_streamPaths {v : Value} {path : List String} {x : List String × Nat}
    (h : x ∈ v.streams path) : Json.Pointer.ofTokens x.1 ∈ streamPaths (v.toJson path) := by
  induction v using induct generalizing path with
  | h v ih =>
    rcases stream_or_leaf_or_container v with ⟨id, rfl⟩ | hleaf | hcontainer
    · cases List.mem_singleton.mp h
      exact List.mem_singleton_self _
    · rw [hleaf.streams_eq] at h
      cases h
    · rw [hcontainer.streams_eq] at h
      obtain ⟨part, hpart, hx⟩ := List.mem_flatMap.mp h
      have hplain (w : Value) (hw : v = .object [(streamKey, w)]) : w.isText = false := by
        subst hw
        obtain rfl := List.mem_singleton.mp hpart
        cases w with
        | stream id => rfl
        | array items => rfl
        | object members => rfl
        | _ => cases hx
      rw [hcontainer.streamPaths_eq hplain]
      exact List.mem_flatMap.mpr ⟨part, hpart, ih part hpart hx⟩

end Value

end Agents.Script
