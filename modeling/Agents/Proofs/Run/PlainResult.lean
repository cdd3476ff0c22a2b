import Agents.Proofs.Run.Draining

/-! # Results without streams

The place of a stream is told by the shape of a map: one that has the single key `$stream` and a
text is taken for a mark, whoever made it. When a result without streams is read, nothing was sent
for the places that such maps name, so what stands there is replaced by nothing: an empty array or
an empty text (`blank`).

That is all that reading does to such a result (`readStreams_of_no_streams`). It never fails and
nothing is heard of it. A result in which no map looks like a mark stays as it is, and so does one
whose marks name no place of it. Otherwise the places that they name are lost, and only those
(`place_lost_to_mark`).
-/

namespace Agents

open Script

namespace ScriptedLogic

/-! ## Reading what was not sent -/

/-- A value in which the places that some paths name are replaced by nothing, one after another. -/
def blank (d : Definition) (paths : List String) (value : Json) : Json :=
  paths.foldl (fun value path => (Json.replaceAt? path (present d path []) value).getD value) value

theorem blank_cons (d : Definition) (path : String) (rest : List String) (value : Json) :
    blank d (path :: rest) value =
      blank d rest ((Json.replaceAt? path (present d path []) value).getD value) := rfl

theorem heard_nil (t : TaskContext) (attempt : Nat) (text : Bool) : heard t attempt text [] = [] :=
  ite_self []

/-- Where nothing was sent, nothing is heard, and every place that is named is replaced by
nothing. -/
theorem readStreams_empty (t : TaskContext) (attempt : Nat) (paths : List String) (value : Json) :
    (readStreams t attempt value {} paths).run = .done (.ok (blank t.definition paths value)) := by
  induction paths generalizing value with
  | nil => rfl
  | cons path rest ih =>
    have hread := readStream_run t attempt path []
    rw [heard_nil] at hread
    have hstep := reporting_andThen hread fun new =>
      readStreams t attempt ((Json.replaceAt? path new value).getD value) {} rest
    rw [readStreams, Relay.items_empty, blank_cons]
    exact hstep.trans (ih _)

theorem blank_of_absent {d : Definition} {paths : List String} {value : Json}
    (h : ∀ path ∈ paths, Json.pointer? path value = none) : blank d paths value = value := by
  induction paths with
  | nil => rfl
  | cons path rest ih =>
    obtain ⟨hpath, hrest⟩ := List.forall_mem_cons.mp h
    rw [blank_cons, Json.replaceAt?_eq_none_iff.mpr hpath]
    exact ih hrest

/-- A place that is apart from all that are named stays as it is. -/
theorem pointer?_blank {d : Definition} {paths : List String} {place : List String}
    (h : ∀ path ∈ paths, ∀ tokens ∈ Json.Pointer.tokens? path, Json.Pointer.Apart tokens place)
    (value : Json) :
    Json.pointer? (Json.Pointer.ofTokens place) (blank d paths value) =
      Json.pointer? (Json.Pointer.ofTokens place) value := by
  induction paths generalizing value with
  | nil => rfl
  | cons path rest ih =>
    obtain ⟨hpath, hrest⟩ := List.forall_mem_cons.mp h
    rw [blank_cons, ih hrest]
    cases hwrite : Json.replaceAt? path (present d path []) value with
    | none => rfl
    | some out => exact Json.pointer?_replaceAt? hwrite hpath

/-! ## What is lost -/

/-- What no stream gives. -/
def IsBlank (json : Json) : Prop := json = .arr [] ∨ json = .str ""

theorem isBlank_present (d : Definition) (path : String) : IsBlank (present d path []) := by
  unfold present
  split
  · exact .inr rfl
  · exact .inl rfl

theorem IsBlank.foldlM_step? {json : Json} (h : IsBlank json) {tokens : List String} {found : Json}
    (hfound : tokens.foldlM Json.Pointer.step? json = some found) : tokens = [] ∧ found = json := by
  cases tokens with
  | nil => exact ⟨rfl, (Option.some.inj hfound).symm⟩
  | cons token rest =>
    rw [List.foldlM_cons] at hfound
    rcases h with rfl | rfl
    · obtain ⟨item, hitem, -⟩ := Option.bind_eq_some_iff.mp hfound
      obtain ⟨i, -, hi⟩ := Option.bind_eq_some_iff.mp hitem
      cases hi
    · cases hfound

/-- Nothing stands at a place, or only what no stream gives. -/
def Lost (value : Json) (path : String) : Prop :=
  ∀ found ∈ Json.pointer? path value, IsBlank found

/-- What is lost stays lost when another place is replaced by nothing. -/
theorem Lost.replaceAt? {value new out : Json} {path other : String} (h : Lost value path)
    (hnew : IsBlank new) (hwrite : Json.replaceAt? other new value = some out) : Lost out path := by
  intro found hfound
  obtain ⟨others, -, hreplace⟩ := Option.bind_eq_some_iff.mp hwrite
  obtain ⟨tokens, htokens, hfound⟩ := Option.bind_eq_some_iff.mp hfound
  have hthere : others.foldlM Json.Pointer.step? value ≠ none := fun hnone =>
    Option.some_ne_none out (hreplace.symm.trans (Json.Pointer.replace?_eq_none_iff.mpr hnone))
  by_cases hbelow : others <+: tokens
  · -- it stood at or below the other place
    obtain ⟨rest, rfl⟩ := hbelow
    rw [List.foldlM_append, Json.Pointer.foldlM_step?_replace?_self hreplace] at hfound
    rw [(hnew.foldlM_step? hfound).2]
    exact hnew
  by_cases habove : tokens <+: others
  · -- the other place would be below it
    obtain ⟨rest, rfl⟩ := habove
    obtain ⟨last, hlast⟩ := Option.ne_none_iff_exists'.mp hthere
    rw [List.foldlM_append] at hlast
    obtain ⟨base, hbase, hlast⟩ := Option.bind_eq_some_iff.mp hlast
    have hblank : IsBlank base := h base (Option.bind_eq_some_iff.mpr ⟨tokens, htokens, hbase⟩)
    obtain ⟨rfl, -⟩ := hblank.foldlM_step? hlast
    exact (hbelow ⟨[], by simp⟩).elim
  · rw [Json.Pointer.foldlM_step?_replace? hreplace ⟨hbelow, habove⟩] at hfound
    exact h found (Option.bind_eq_some_iff.mpr ⟨tokens, htokens, hfound⟩)

theorem lost_of_replaceAt? {value new out : Json} {path : String} (hnew : IsBlank new)
    (hwrite : Json.replaceAt? path new value = some out) : Lost out path := by
  intro found hfound
  obtain ⟨tokens, htokens, hreplace⟩ := Option.bind_eq_some_iff.mp hwrite
  rw [Json.pointer?, htokens, Option.bind_some,
    Json.Pointer.foldlM_step?_replace?_self hreplace] at hfound
  exact Option.some.inj hfound ▸ hnew

theorem Lost.blank {value : Json} {path : String} (h : Lost value path) (d : Definition)
    (paths : List String) : Lost (blank d paths value) path := by
  induction paths generalizing value with
  | nil => exact h
  | cons other rest ih =>
    rw [blank_cons]
    cases hwrite : Json.replaceAt? other (present d other []) value with
    | none => exact ih h
    | some out => exact ih (h.replaceAt? (isBlank_present d other) hwrite)

theorem lost_blank {d : Definition} {paths : List String} {path : String} (h : path ∈ paths)
    (value : Json) : Lost (blank d paths value) path := by
  induction paths generalizing value with
  | nil => cases h
  | cons other rest ih =>
    rw [blank_cons]
    rcases List.mem_cons.mp h with rfl | hrest
    · refine Lost.blank ?_ d rest
      cases hwrite : Json.replaceAt? path (present d path []) value with
      | none =>
        intro found hfound
        rw [Option.getD_none, Json.replaceAt?_eq_none_iff.mp hwrite] at hfound
        cases hfound
      | some out => exact lost_of_replaceAt? (isBlank_present d path) hwrite
    · exact ih hrest _

/-- Reading a result without streams reports nothing and never fails. It finds a path exactly if
some map looks like the mark of a stream, and replaces by nothing what stands at the paths that it
finds. So a result stays as it is if they lead nowhere; otherwise what stands there is lost, and
every place apart from them stays. -/
theorem readStreams_of_no_streams (l : SandboxLimits) (v : Value) (s : State)
    (hplain : v.streams [] = []) :
    ∃ o, Outcome.ofEnd l (.ok v, s) = .ok o ∧ o.value = v.toJson [] ∧
      (streamPaths o.value = [] ↔ v.Unmarked) ∧
      ∀ (t : TaskContext) (attempt : Nat), ∃ out,
        (readStreams t attempt o.value { channel := o.relay } (streamPaths o.value)).run =
          .done (.ok out) ∧
        out = blank t.definition (streamPaths o.value) o.value ∧
        ((∀ path ∈ streamPaths o.value, Json.pointer? path o.value = none) → out = o.value) ∧
        (∀ path ∈ streamPaths o.value, Lost out path) ∧
        ∀ place, (∀ path ∈ streamPaths o.value, ∀ tokens ∈ Json.Pointer.tokens? path,
            Json.Pointer.Apart tokens place) →
          Json.pointer? (Json.Pointer.ofTokens place) out =
            Json.pointer? (Json.Pointer.ofTokens place) o.value := by
  refine ⟨_, rfl, rfl, ⟨Value.unmarked_of_streamPaths, fun hunmarked => ?_⟩, fun t attempt => ?_⟩
  · show streamPaths (v.toJson []) = []
    rw [Value.streamPaths_toJson hunmarked, hplain]
    rfl
  · have hrelay : ({ channel := relayOf s.streams (v.streams []) } : Relay) = {} := by
      rw [hplain]
      rfl
    refine ⟨blank t.definition (streamPaths (v.toJson [])) (v.toJson []), ?_, rfl,
      blank_of_absent, fun path hpath => lost_blank hpath _,
      fun place hapart => pointer?_blank hapart _⟩
    rw [hrelay]
    exact readStreams_empty t attempt _ _

/-! ## Maps that look like marks -/

/-- A map that looks like a mark, but for a place that is not there. -/
def note : Value :=
  .object [("body", .object [(streamKey, .string "/body/text")]), ("count", .int 2)]

theorem readStreams_of_no_streams_note : note.streams [] = [] ∧
    ∃ o, Outcome.ofEnd {} (.ok note, {}) = .ok o ∧ streamPaths o.value = ["/body/text"] ∧
      ∀ (t : TaskContext) (attempt : Nat),
        (readStreams t attempt o.value { channel := o.relay } (streamPaths o.value)).run =
          .done (.ok o.value) := by
  have hplain : note.streams [] = [] := rfl
  obtain ⟨o, hend, hvalue, -, hread⟩ := readStreams_of_no_streams {} note {} hplain
  have hpaths : streamPaths o.value = ["/body/text"] := by
    rw [hvalue]
    rfl
  refine ⟨hplain, o, hend, hpaths, fun t attempt => ?_⟩
  obtain ⟨out, hrun, -, hsame, -, -⟩ := hread t attempt
  have habsent : Json.pointer? "/body/text" (note.toJson []) = none := by rfl
  rw [hsame (by rw [hpaths, hvalue]; exact List.forall_mem_singleton.mpr habsent)] at hrun
  exact hrun

/-- A map that looks like a mark for the place next to it. -/
def pair : Value := .object [("a", .int 1), ("b", .object [(streamKey, .string "/a")])]

/-- What stands there is lost. -/
theorem place_lost_to_mark : pair.streams [] = [] ∧
    ∃ o, Outcome.ofEnd {} (.ok pair, {}) = .ok o ∧
      o.value = .obj [("a", Json.ofInt 1), ("b", .obj [(streamKey, "/a")])] ∧
      (readStreams tellerTask 1 o.value { channel := o.relay } (streamPaths o.value)).run =
        .done (.ok (.obj [("a", .arr []), ("b", .obj [(streamKey, "/a")])])) := by
  refine ⟨rfl, _, rfl, rfl, ?_⟩
  exact (readStreams_empty tellerTask 1 ["/a"] (pair.toJson [])).trans rfl

end ScriptedLogic

end Agents
