import Agents.Proofs.Url.Authority

/-! # URLs are read back

A URL that was read is written so that it is read as the same URL (`parse_text`). What this takes is
said once, part by part (`IsRead`), and holds of every URL with segments that `parse` returns
(`isRead_of_parse`). URLs of files are left out: their paths may begin with the letter of a drive.
-/

namespace Agents.Url

/-! ## Segments -/

/-- A segment as reading leaves it: nothing in it is encoded, and it does not mean a directory. -/
structure IsSegment (isSpecial : Bool) (segment : String) : Prop where
  plain : ∀ c ∈ segment.toList, Percent.inPath c = false ∧ isSlash isSpecial c = false
  notSingle : isSingleDot segment = false
  notDouble : isDoubleDot segment = false

section Segments

variable {special isLast : Bool} {done : List String} {segment s : String} {front rest : List Char}

theorem isSlash_of_true {c : Char} (h : isSlash true c = false) : isSlash special c = false := by
  unfold isSlash at h ⊢
  simp only [Bool.true_and, Bool.or_eq_false_iff] at h
  simp [h.1, h.2]

theorem plain_of_mem_escapes {c : Char} (h : c ∈ Percent.escapes) :
    Percent.inPath c = false ∧ isSlash special c = false := by
  have hescapes : ∀ c ∈ Percent.escapes, Percent.inPath c = false ∧ isSlash true c = false :=
    Text.forall_mem (by decide)
  exact ⟨(hescapes c h).1, isSlash_of_true (hescapes c h).2⟩

theorem contains_toLower (texts : List String) (s : String) : texts.contains s.toLower =
    (texts.map String.toList).contains (s.toList.map Char.toLower) := by
  have hlower : s.toLower.toList = s.toList.map Char.toLower := String.toList_map
  rw [Bool.eq_iff_iff, List.contains_iff_mem, List.contains_iff_mem, ← hlower, List.mem_map]
  constructor
  · exact fun h => ⟨s.toLower, h, rfl⟩
  · rintro ⟨text, htext, heq⟩
    rwa [← String.toList_inj.mp heq]

theorem isSegment_empty : IsSegment special "" where
  plain c hc := by cases hc
  notSingle := contains_toLower _ _
  notDouble := contains_toLower _ _

theorem addSegment_of_isSegment (h : IsSegment special segment) :
    addSegment done segment isLast = done ++ [segment] := by
  unfold addSegment
  rw [h.notSingle, h.notDouble]
  rfl

theorem addSegment_ne_nil : addSegment done segment true ≠ [] := by
  unfold addSegment
  dsimp only
  split
  · exact List.append_ne_nil_of_right_ne_nil _ (List.cons_ne_nil _ _)
  split
  · exact List.append_ne_nil_of_right_ne_nil _ (List.cons_ne_nil _ _)
  · exact List.append_ne_nil_of_right_ne_nil _ (List.cons_ne_nil _ _)

/-- Dots are resolved, so that only segments are left. -/
theorem isSegment_of_mem_addSegment (hdone : ∀ s ∈ done, IsSegment special s)
    (hplain : ∀ c ∈ segment.toList, Percent.inPath c = false ∧ isSlash special c = false)
    (h : s ∈ addSegment done segment isLast) : IsSegment special s := by
  have hclosing {s : String} (hs : s ∈ if isLast then [""] else []) : IsSegment special s := by
    cases isLast with
    | false => cases hs
    | true =>
      obtain rfl := List.mem_singleton.mp hs
      exact isSegment_empty
  unfold addSegment at h
  dsimp only at h
  split at h
  · rcases List.mem_append.mp h with h | h
    · exact hdone s ((List.dropLast_sublist done).subset h)
    · exact hclosing h
  next hdouble =>
  split at h
  · rcases List.mem_append.mp h with h | h
    · exact hdone s h
    · exact hclosing h
  next hsingle =>
  rcases List.mem_append.mp h with h | h
  · exact hdone s h
  · obtain rfl := List.mem_singleton.mp h
    exact ⟨hplain, by simpa using hsingle, by simpa using hdouble⟩

/-! ## Paths -/

theorem Path.text_segments (segments : List String) :
    (Path.text (.segments segments)).toList = segments.flatMap fun s => '/' :: s.toList := by
  show (String.join (segments.map ("/" ++ ·))).toList = _
  rw [String.toList_join, List.flatMap_map]
  refine List.flatMap_congr fun s _ => ?_
  rw [String.toList_append]
  rfl

theorem segmentsFrom_append (h : ∀ c ∈ front, isSlash special c = false)
    (segment : List Char) : segmentsFrom special done segment (front ++ rest) =
      segmentsFrom special done (segment ++ front) rest := by
  induction front generalizing segment with
  | nil => rw [List.nil_append, List.append_nil]
  | cons c front ih =>
    have hc : ¬ isSlash special c = true := by simp [h c List.mem_cons_self]
    rw [List.cons_append, segmentsFrom, if_neg hc,
      ih fun d hd => h d (List.mem_cons_of_mem c hd), List.append_assoc]
    rfl

theorem encode_segment (h : IsSegment special segment) :
    segmentsFrom.encode segment.toList = segment := by
  unfold segmentsFrom.encode
  rw [Percent.encode_of_plain fun c hc => (h.plain c hc).1, String.ofList_toList]

/-- Segments that are written after each other are read one by one. -/
theorem segmentsFrom_text {segments : List String} (hsegment : IsSegment special segment)
    (hsegments : ∀ s ∈ segments, IsSegment special s) :
    segmentsFrom special done [] (segment.toList ++ segments.flatMap fun s => '/' :: s.toList) =
      done ++ segment :: segments := by
  induction segments generalizing done segment with
  | nil =>
    rw [List.flatMap_nil, segmentsFrom_append fun c hc => (hsegment.plain c hc).2,
      List.nil_append, segmentsFrom, encode_segment hsegment, addSegment_of_isSegment hsegment]
  | cons next segments ih =>
    have hslash : isSlash special '/' = true := rfl
    rw [List.flatMap_cons, segmentsFrom_append fun c hc => (hsegment.plain c hc).2,
      List.nil_append, List.cons_append, segmentsFrom, if_pos hslash, encode_segment hsegment,
      addSegment_of_isSegment hsegment, ih (hsegments next List.mem_cons_self)
        fun s hs => hsegments s (List.mem_cons_of_mem next hs), List.append_assoc]
    rfl

theorem segmentPath_text {segments : List String} (h : ∀ s ∈ segments, IsSegment special s)
    (hroot : special = true → segments ≠ []) :
    segmentPath special (Path.text (.segments segments)).toList = .segments segments := by
  rw [Path.text_segments]
  cases segments with
  | nil =>
    cases special with
    | false => rfl
    | true => exact absurd rfl (hroot rfl)
  | cons segment segments =>
    have hslash : isSlash special '/' = true := rfl
    show Path.segments (segmentsFrom special [] [] (if isSlash special '/' then _ else _)) = _
    rw [if_pos hslash]
    exact congrArg Path.segments (segmentsFrom_text (h segment List.mem_cons_self)
      fun s hs => h s (List.mem_cons_of_mem segment hs))

/-- What is read as segments are segments, and there is at least one. -/
theorem segmentsFrom_spec {segment s : List Char} (hdone : ∀ s ∈ done, IsSegment special s)
    (hsegment : ∀ c ∈ segment, isSlash special c = false) :
    segmentsFrom special done segment s ≠ [] ∧
      ∀ t ∈ segmentsFrom special done segment s, IsSegment special t := by
  have hplain {segment : List Char} (hsegment : ∀ c ∈ segment, isSlash special c = false) :
      ∀ c ∈ (segmentsFrom.encode segment).toList,
        Percent.inPath c = false ∧ isSlash special c = false := by
    intro c hc
    unfold segmentsFrom.encode at hc
    rw [String.toList_ofList] at hc
    rcases Percent.mem_encode hc with ⟨hs, hset⟩ | hescape
    · exact ⟨hset, hsegment c hs⟩
    · exact plain_of_mem_escapes hescape
  induction s generalizing done segment with
  | nil =>
    rw [segmentsFrom]
    exact ⟨addSegment_ne_nil, fun t ht => isSegment_of_mem_addSegment hdone (hplain hsegment) ht⟩
  | cons c rest ih =>
    rw [segmentsFrom]
    split
    · exact ih (fun t ht => isSegment_of_mem_addSegment hdone (hplain hsegment) ht)
        (List.forall_mem_nil _)
    · next hslash =>
      refine ih hdone fun d hd => ?_
      rcases List.mem_append.mp hd with hd | hd
      · exact hsegment d hd
      · obtain rfl := List.mem_singleton.mp hd
        simpa using hslash

theorem segmentPath_spec {s : List Char} {segments : List String}
    (h : segmentPath special s = .segments segments) :
    (∀ t ∈ segments, IsSegment special t) ∧ (segments = [] → special = false ∧ s = []) := by
  unfold segmentPath at h
  split at h
  · obtain rfl := Path.segments.inj h
    cases special with
    | false => exact ⟨List.forall_mem_nil _, fun _ => ⟨rfl, rfl⟩⟩
    | true =>
      refine ⟨fun t ht => ?_, fun hnil => by cases hnil⟩
      obtain rfl := List.mem_singleton.mp ht
      exact isSegment_empty
  · obtain rfl := Path.segments.inj h
    obtain ⟨hne, hall⟩ := segmentsFrom_spec (List.forall_mem_nil _) (List.forall_mem_nil _)
    exact ⟨hall, fun hnil => absurd hnil hne⟩

end Segments

/-! ## Schemes -/

def isSchemeChar (c : Char) : Bool := c.isAlphanum || c = '+' || c = '-' || c = '.'

structure IsScheme (s : String) : Prop where
  first : ∃ c rest, s.toList = c :: rest ∧ c.isAlpha = true
  plain : ∀ c ∈ s.toList, isSchemeChar c = true
  lower : s.toList.map Char.toLower = s.toList

theorem isSchemeChar_lt {c : Char} (h : isSchemeChar c = true) : c.toNat < 128 := by
  have hz : 'z'.toNat < 128 := by decide
  have hZ : 'Z'.toNat < 128 := by decide
  have h9 : '9'.toNat < 128 := by decide
  unfold isSchemeChar Char.isAlphanum Char.isAlpha Char.isUpper Char.isLower Char.isDigit at h
  simp only [Bool.or_eq_true, Bool.and_eq_true, decide_eq_true_eq] at h
  rcases h with (((((h | h) | h) | rfl) | rfl) | rfl)
  · exact Nat.lt_of_le_of_lt h.2 hZ
  · exact Nat.lt_of_le_of_lt h.2 hz
  · exact Nat.lt_of_le_of_lt h.2 h9
  all_goals decide

theorem scheme?_text {scheme : String} (h : IsScheme scheme) (rest : List Char) :
    scheme? (scheme.toList ++ ':' :: rest) = some (scheme, rest) := by
  obtain ⟨c, name, hname, hc⟩ := h.first
  have hcolon : ¬ isSchemeChar ':' = true := by decide
  have htake : (scheme.toList ++ ':' :: rest).takeWhile isSchemeChar = scheme.toList := by
    rw [List.takeWhile_append_of_pos h.plain, List.takeWhile_cons_of_neg hcolon, List.append_nil]
  have hdrop : (scheme.toList ++ ':' :: rest).dropWhile isSchemeChar = ':' :: rest := by
    rw [List.dropWhile_append_of_pos h.plain, List.dropWhile_cons_of_neg hcolon]
  have hhead : (scheme.toList ++ ':' :: rest).head? = some c := by
    rw [hname]
    rfl
  have hlower : scheme.toLower = scheme := by
    refine String.toList_inj.mp ?_
    exact String.toList_map.trans h.lower
  unfold isSchemeChar at htake hdrop
  unfold scheme?
  simp only [hhead, htake, hdrop, hc, if_true, String.ofList_toList, hlower]

theorem toLower_scheme {c : Char} (h : isSchemeChar c = true) :
    isSchemeChar c.toLower = true ∧ c.toLower.toLower = c.toLower ∧
      (c.isAlpha = true → c.toLower.isAlpha = true) :=
  Text.of_ascii (P := fun c => isSchemeChar c = true → isSchemeChar c.toLower = true ∧
    c.toLower.toLower = c.toLower ∧ (c.isAlpha = true → c.toLower.isAlpha = true))
      (by decide +kernel) (isSchemeChar_lt h) h

theorem isScheme_of_scheme? {s rest : List Char} {scheme : String}
    (h : scheme? s = some (scheme, rest)) : IsScheme scheme := by
  unfold scheme? at h
  extract_lets name at h
  have hname : ∀ c ∈ name, isSchemeChar c = true := fun c hc =>
    List.all_eq_true.mp List.all_takeWhile c hc
  split at h
  · next first after hhead _ =>
    split at h
    · next hfirst =>
      obtain ⟨rfl, -⟩ := Prod.mk.inj (Option.some.inj h)
      have htext : (String.ofList name).toLower.toList = name.map Char.toLower :=
        String.toList_map.trans (congrArg (List.map Char.toLower) String.toList_ofList)
      obtain ⟨tail, rfl⟩ : ∃ tail, s = first :: tail := List.head?_eq_some_iff.mp hhead
      have hcons : name = first :: tail.takeWhile isSchemeChar := by
        have hchar : isSchemeChar first = true := by
          unfold isSchemeChar Char.isAlphanum
          simp [hfirst]
        exact List.takeWhile_cons_of_pos hchar
      constructor
      · rw [htext, hcons]
        exact ⟨first.toLower, _, rfl, (toLower_scheme (hname first (by simp [hcons]))).2.2 hfirst⟩
      · intro c hc
        rw [htext] at hc
        obtain ⟨d, hd, rfl⟩ := List.mem_map.mp hc
        exact (toLower_scheme (hname d hd)).1
      · rw [htext, List.map_map]
        exact List.map_congr_left fun d hd => (toLower_scheme (hname d hd)).2.1
    · cases h
  · cases h

/-! ## Queries and fragments -/

/-- A part of a URL after its mark, if it is there. -/
def markText (mark : Char) : Option String → List Char
  | none => []
  | some s => mark :: s.toList

theorem head_marks {query fragment : Option String} {c : Char}
    (h : (markText '?' query ++ markText '#' fragment).head? = some c) : c = '?' ∨ c = '#' := by
  cases query with
  | some q => exact .inl (Option.some.inj h).symm
  | none =>
    cases fragment with
    | some f => exact .inr (Option.some.inj h).symm
    | none => cases h

def querySet (scheme : String) : Char → Bool :=
  if isSpecial scheme then Percent.inSpecialQuery else Percent.inQuery

/-- No character of a part is one that is encoded there. -/
def IsPlain (set : Char → Bool) (part : Option String) : Prop :=
  ∀ s, part = some s → ∀ c ∈ s.toList, set c = false

theorem inQuery_of_querySet {scheme : String} {c : Char} (h : querySet scheme c = false) :
    Percent.inQuery c = false := by
  unfold querySet at h
  split at h
  · unfold Percent.inSpecialQuery at h
    exact (Bool.or_eq_false_iff.mp h).1
  · exact h

theorem querySet_of_mem_escapes {scheme : String} {c : Char} (h : c ∈ Percent.escapes) :
    querySet scheme c = false := by
  have hescapes : ∀ c ∈ Percent.escapes,
      Percent.inSpecialQuery c = false ∧ Percent.inQuery c = false := Text.forall_mem (by decide)
  unfold querySet
  split
  · exact (hescapes c h).1
  · exact (hescapes c h).2

theorem isPlain_encode {set : Char → Bool} (hescapes : ∀ c ∈ Percent.escapes, set c = false)
    (s : List Char) : IsPlain set (some (String.ofList (Percent.encode set s))) := by
  intro t ht c hc
  obtain rfl := Option.some.inj ht
  rw [String.toList_ofList] at hc
  exact Percent.not_set_of_mem_encode (fun _ h => h) hescapes hc

theorem read_markText {mark : Char} {set : Char → Bool} {part : Option String}
    (h : IsPlain set part) : (if markText mark part = [] then none
      else some (String.ofList (Percent.encode set ((markText mark part).drop 1)))) = part := by
  cases part with
  | none => rfl
  | some s =>
    show some (String.ofList (Percent.encode set s.toList)) = some s
    rw [Percent.encode_of_plain (h s rfl), String.ofList_toList]

section Rest

variable {scheme : String} {authority : Option Authority} {path : List Char → Path}

/-- The parts after the path are cut off at their marks. -/
theorem withRest_text {pathText : List Char} {query fragment : Option String}
    (hpath : ∀ c ∈ pathText, c ≠ '?' ∧ c ≠ '#') (hquery : IsPlain (querySet scheme) query)
    (hfragment : IsPlain Percent.inFragment fragment) :
    withRest scheme authority path (pathText ++ (markText '?' query ++ markText '#' fragment)) =
      ⟨scheme, authority, path pathText, query, fragment⟩ := by
  have hpathCut : cut (fun c => c = '?' || c = '#')
      (pathText ++ (markText '?' query ++ markText '#' fragment)) =
        (pathText, markText '?' query ++ markText '#' fragment) := by
    refine cut_append (fun c hc => ?_) fun c hc => ?_
    · simp [hpath c hc]
    · rcases head_marks hc with rfl | rfl
      · rfl
      · rfl
  have hqueryCut : cut (· = '#') (markText '?' query ++ markText '#' fragment) =
      (markText '?' query, markText '#' fragment) := by
    refine cut_append (fun c hc => decide_eq_false ?_) fun c hc => ?_
    · rintro rfl
      cases query with
      | none => cases hc
      | some q =>
        rcases List.mem_cons.mp hc with hmark | hq
        · cases hmark
        · have hset := inQuery_of_querySet (hquery q rfl _ hq)
          exact absurd hset (by decide)
    · cases fragment with
      | none => cases hc
      | some f => exact decide_eq_true (Option.some.inj hc).symm
  have hqueryText := @read_markText '?' _ _ hquery
  have hfragmentText := @read_markText '#' _ _ hfragment
  unfold querySet at hqueryText
  unfold withRest
  rw [hpathCut]
  dsimp only
  rw [hqueryCut]
  simp only [hqueryText, hfragmentText]

theorem isPlain_query_withRest (s : List Char) :
    IsPlain (querySet scheme) (withRest scheme authority path s).query := by
  unfold withRest
  dsimp only
  split
  · exact fun t ht => by cases ht
  · exact isPlain_encode (fun c => querySet_of_mem_escapes) _

theorem isPlain_fragment_withRest (s : List Char) :
    IsPlain Percent.inFragment (withRest scheme authority path s).fragment := by
  unfold withRest
  dsimp only
  split
  · exact fun t ht => by cases ht
  · exact isPlain_encode (Text.forall_mem (by decide)) _

end Rest

/-! ## URLs -/

/-- A URL with segments as reading leaves it. -/
structure IsRead (u : Url) (segments : List String) : Prop where
  scheme : IsScheme u.scheme
  notFile : u.scheme ≠ "file"
  authority : ∀ a, u.authority = some a → a.IsReadFor u.scheme
  bare : u.authority = none → isSpecial u.scheme = false
  path : u.path = .segments segments
  each : ∀ s ∈ segments, IsSegment (isSpecial u.scheme) s
  /-- Only behind an authority of another scheme there may be no path at all. -/
  root : isSpecial u.scheme = true ∨ u.authority = none → segments ≠ []
  query : IsPlain (querySet u.scheme) u.query
  fragment : IsPlain Percent.inFragment u.fragment

def afterPath (u : Url) : List Char := markText '?' u.query ++ markText '#' u.fragment

theorem text_eq (u : Url) : u.text.toList = u.scheme.toList ++ ':' ::
    (u.beforePath.toList ++ (u.path.text.toList ++ u.afterPath)) := by
  unfold Url.text afterPath
  cases u.query with
  | none => cases u.fragment <;> simp [markText]
  | some q => cases u.fragment <;> simp [markText]

/-! ### Nothing in the text is dropped -/

theorem isVisible_of_not_inFragment {c : Char} (h : Percent.inFragment c = false) :
    IsVisible c := by
  obtain ⟨hcontrol, hmarks⟩ := Bool.or_eq_false_iff.mp h
  refine isVisible_of_not_control hcontrol ?_
  rintro rfl
  cases hmarks

theorem isVisible_of_not_inQuery {c : Char} (h : Percent.inQuery c = false) : IsVisible c := by
  obtain ⟨hcontrol, hmarks⟩ := Bool.or_eq_false_iff.mp h
  refine isVisible_of_not_control hcontrol ?_
  rintro rfl
  cases hmarks

theorem isVisible_of_not_inPath {c : Char} (h : Percent.inPath c = false) : IsVisible c :=
  isVisible_of_not_inFragment (Bool.or_eq_false_iff.mp h).1

/-- What ends an authority does not stand in one. -/
theorem Authority.mem_text {scheme : String} {a : Authority} (h : a.IsReadFor scheme) {c : Char}
    (hc : c ∈ a.text.toList) : IsVisible c ∧ endsAuthority true c = false := by
  have hhost {c : Char} (hc : IsHostChar c) : IsVisible c ∧ endsAuthority true c = false := by
    refine ⟨hc.1, ?_⟩
    unfold endsAuthority isSlash
    simp only [Bool.true_and, Bool.or_eq_false_iff, decide_eq_false_iff_not]
    refine ⟨⟨⟨?_, ?_⟩, ?_⟩, ?_⟩
    all_goals
      rintro rfl
      exact hc.2 (by decide)
  have huser {s : String} (hs : IsUserText s) {c : Char} (hc : c ∈ s.toList) :
      IsVisible c ∧ endsAuthority true c = false := by
    have hset := hs c hc
    refine ⟨isVisible_of_not_inPath (Bool.or_eq_false_iff.mp hset).1, ?_⟩
    unfold endsAuthority isSlash
    simp only [Bool.true_and, Bool.or_eq_false_iff, decide_eq_false_iff_not]
    refine ⟨⟨⟨?_, ?_⟩, ?_⟩, ?_⟩
    all_goals
      rintro rfl
      cases hset
  have hmarks : ∀ c ∈ ":@".toList, 0x20 < c.toNat ∧ endsAuthority true c = false :=
    Text.forall_mem (by decide)
  rw [Authority.text_eq] at hc
  rcases List.mem_append.mp hc with hc | hc
  · rcases List.mem_append.mp hc with hc | hc
    · unfold userText at hc
      split at hc
      · cases hc
      rcases List.mem_append.mp hc with hc | hc
      · rcases List.mem_append.mp hc with hc | hc
        · exact huser h.username hc
        · split at hc
          · cases hc
          · rcases List.mem_cons.mp hc with rfl | hc
            · exact hmarks ':' (by decide)
            · exact huser h.password hc
      · obtain rfl := List.mem_singleton.mp hc
        exact hmarks '@' (by decide)
    · exact hhost (Host.isHostChar_of_mem_text h.host_or hc)
  · exact hhost (isHostChar_of_mem_portText hc)

theorem isVisible_of_mem_scheme {scheme : String} (h : IsScheme scheme) {c : Char}
    (hc : c ∈ scheme.toList) : IsVisible c := by
  have hchar := h.plain c hc
  exact Text.of_ascii (P := fun c => isSchemeChar c = true → 0x20 < c.toNat) (by decide +kernel)
    (isSchemeChar_lt hchar) hchar

section Text

variable {u : Url} {segments : List String}

theorem mem_path_text (h : IsRead u segments) {c : Char} (hc : c ∈ u.path.text.toList) :
    Percent.inPath c = false := by
  rw [h.path, Path.text_segments] at hc
  obtain ⟨s, hs, hc⟩ := List.mem_flatMap.mp hc
  rcases List.mem_cons.mp hc with rfl | hc
  · decide
  · exact ((h.each s hs).plain c hc).1

theorem unmarked_path (h : IsRead u segments) : ∀ c ∈ u.path.text.toList, c ≠ '?' ∧ c ≠ '#' := by
  intro c hc
  have hset := mem_path_text h hc
  constructor
  all_goals
    rintro rfl
    cases hset

theorem mem_beforePath (h : IsRead u segments) {c : Char} (hc : c ∈ u.beforePath.toList) :
    IsVisible c := by
  have hmarks : ∀ c ∈ "/.".toList, 0x20 < c.toNat := Text.forall_mem (by decide)
  unfold beforePath at hc
  split at hc
  · next hauthority =>
    rw [String.toList_append] at hc
    rcases List.mem_append.mp hc with hc | hc
    · refine hmarks c (List.mem_cons.mpr (.inl ?_))
      rcases List.mem_cons.mp hc with hslash | hc
      · exact hslash
      · exact List.mem_singleton.mp hc
    · exact (Authority.mem_text (h.authority _ hauthority) hc).1
  · exact hmarks c hc
  · cases hc

theorem isVisible_of_mem_markText {mark c : Char} {part : Option String} (hmark : IsVisible mark)
    (h : ∀ s, part = some s → ∀ c ∈ s.toList, IsVisible c) (hc : c ∈ markText mark part) :
    IsVisible c := by
  cases part with
  | none => cases hc
  | some s =>
    rcases List.mem_cons.mp hc with rfl | hc
    · exact hmark
    · exact h s rfl c hc

theorem isVisible_of_mem_text (h : IsRead u segments) {c : Char} (hc : c ∈ u.text.toList) :
    IsVisible c := by
  rw [text_eq] at hc
  rcases List.mem_append.mp hc with hc | hc
  · exact isVisible_of_mem_scheme h.scheme hc
  rcases List.mem_cons.mp hc with rfl | hc
  · unfold IsVisible
    decide
  rcases List.mem_append.mp hc with hc | hc
  · exact mem_beforePath h hc
  rcases List.mem_append.mp hc with hc | hc
  · exact isVisible_of_not_inPath (mem_path_text h hc)
  rcases List.mem_append.mp hc with hc | hc
  · refine isVisible_of_mem_markText (by unfold IsVisible; decide) (fun q hq c hc => ?_) hc
    exact isVisible_of_not_inQuery (inQuery_of_querySet (h.query q hq c hc))
  · refine isVisible_of_mem_markText (by unfold IsVisible; decide) (fun f hf c hc => ?_) hc
    exact isVisible_of_not_inFragment (h.fragment f hf c hc)

theorem trimOuter_of_visible {s : List Char} (h : ∀ c ∈ s, IsVisible c) : trimOuter s = s := by
  have hkept {s : List Char} (h : ∀ c ∈ s, IsVisible c) : s.dropWhile isOuterBlank = s := by
    cases s with
    | nil => rfl
    | cons c rest =>
      refine List.dropWhile_cons_of_neg ?_
      have hc : ¬ c.toNat ≤ 0x20 := Nat.not_le.mpr (h c List.mem_cons_self)
      unfold isOuterBlank
      simp only [decide_eq_true_eq]
      exact hc
  unfold trimOuter
  rw [hkept h, hkept fun c hc => h c (List.mem_reverse.mp hc), List.reverse_reverse]

theorem filter_of_visible {s : List Char} (h : ∀ c ∈ s, IsVisible c) :
    s.filter (!isIgnored ·) = s := by
  refine List.filter_eq_self.mpr fun c hc => ?_
  have hvisible := h c hc
  have hignored : isIgnored c = false := by
    unfold isIgnored
    simp only [Bool.or_eq_false_iff, decide_eq_false_iff_not]
    refine ⟨⟨?_, ?_⟩, ?_⟩
    all_goals
      rintro rfl
      exact absurd hvisible (by unfold IsVisible; decide)
  rw [hignored]
  rfl

/-- The input that is left of a written URL is the URL. -/
theorem input_text (h : IsRead u segments) :
    (trimOuter u.text.toList).filter (!isIgnored ·) = u.text.toList := by
  have hvisible : ∀ c ∈ u.text.toList, IsVisible c := fun c => isVisible_of_mem_text h
  rw [trimOuter_of_visible hvisible, filter_of_visible hvisible]

/-! ### Reading -/

theorem endsAuthority_of_true {special : Bool} {c : Char} (h : endsAuthority true c = false) :
    endsAuthority special c = false := by
  unfold endsAuthority at h ⊢
  simp only [Bool.or_eq_false_iff] at h ⊢
  exact ⟨⟨isSlash_of_true h.1.1, h.1.2⟩, h.2⟩

theorem endsAuthority_rest (h : IsRead u segments) {special : Bool} {c : Char}
    (hc : c ∈ (u.path.text.toList ++ u.afterPath).head?) : endsAuthority special c = true := by
  have hmark (mark : Char) (hmark : endsAuthority false mark = true) :
      endsAuthority special mark = true := by
    cases special with
    | false => exact hmark
    | true =>
      unfold endsAuthority isSlash at hmark ⊢
      simp only [Bool.false_and, Bool.true_and, Bool.or_eq_true] at hmark ⊢
      tauto
  rw [h.path, Path.text_segments] at hc
  cases segments with
  | cons s segments =>
    obtain rfl := Option.some.inj hc
    exact hmark '/' rfl
  | nil =>
    rcases head_marks hc with rfl | rfl
    · exact hmark '?' rfl
    · exact hmark '#' rfl

theorem cut_authority (h : IsRead u segments) {a : Authority} (ha : u.authority = some a)
    (special : Bool) : cut (endsAuthority special)
      (a.text.toList ++ (u.path.text.toList ++ u.afterPath)) =
        (a.text.toList, u.path.text.toList ++ u.afterPath) :=
  cut_append
    (fun _ hc => endsAuthority_of_true (Authority.mem_text (h.authority a ha) hc).2)
    (fun _ hc => endsAuthority_rest h hc)

/-- The path of a written URL is read, and so are the parts after it. -/
theorem withRest_path (h : IsRead u segments) {special : Bool}
    (hspecial : isSpecial u.scheme = special) : withRest u.scheme u.authority (segmentPath special)
      (u.path.text.toList ++ u.afterPath) = u := by
  have hread : segmentPath special u.path.text.toList = u.path := by
    subst hspecial
    rw [h.path, segmentPath_text h.each fun hspecial => h.root (.inl hspecial)]
  unfold afterPath
  rw [withRest_text (unmarked_path h) h.query h.fragment, hread]

theorem dropWhile_slashes {a : Authority} (h : a.IsReadFor u.scheme)
    (hspecial : isSpecial u.scheme = true) (rest : List Char) :
    ('/' :: '/' :: (a.text.toList ++ rest)).dropWhile (isSlash true) = a.text.toList ++ rest := by
  have hhost : a.host.IsRead := by
    have hread := h.host
    rwa [if_pos hspecial] at hread
  have hne : a.text.toList ≠ [] := by
    rw [Authority.text_eq]
    intro hnil
    exact hhost.text_ne_nil (List.append_eq_nil_iff.mp (List.append_eq_nil_iff.mp hnil).1).2
  obtain ⟨c, tail, htext⟩ := List.exists_cons_of_ne_nil hne
  have hc : endsAuthority true c = false :=
    (Authority.mem_text h (by rw [htext]; exact List.mem_cons_self)).2
  have hslash : ¬ isSlash true c = true := by
    unfold endsAuthority at hc
    simp only [Bool.or_eq_false_iff] at hc
    simp [hc.1.1]
  rw [htext]
  exact List.dropWhile_cons_of_neg hslash

/-- Reads what follows a scheme other than `file`. -/
def parseAfter (scheme : String) (rest : List Char) : Except UrlError Url :=
  if isSpecial scheme then do
    let (before, rest) := cut (endsAuthority true) (rest.dropWhile (isSlash true))
    return withRest scheme (some (← readAuthority scheme before)) (segmentPath true) rest
  else
    match rest with
    | '/' :: '/' :: afterSlashes => do
      let (before, rest) := cut (endsAuthority false) afterSlashes
      return withRest scheme (some (← readAuthority scheme before)) (segmentPath false) rest
    | '/' :: _ => .ok (withRest scheme none (segmentPath false) rest)
    | rest =>
      .ok (withRest scheme none
        (fun s => .plain (String.ofList (Percent.encode Percent.isControl s))) rest)

theorem parse_eq {text scheme : String} {rest : List Char}
    (hscheme : scheme? ((trimOuter text.toList).filter (!isIgnored ·)) = some (scheme, rest))
    (hfile : scheme ≠ "file") : parse text = parseAfter scheme rest := by
  unfold parse
  dsimp only
  rw [hscheme]
  split
  · next heq => cases heq
  · next heq => exact absurd (Prod.mk.inj (Option.some.inj heq)).1 hfile
  · next heq =>
    obtain ⟨rfl, rfl⟩ := Prod.mk.inj (Option.some.inj heq)
    rfl

theorem parseAfter_authority (h : IsRead u segments) {a : Authority}
    (ha : u.authority = some a) :
    parseAfter u.scheme ('/' :: '/' :: (a.text.toList ++ (u.path.text.toList ++ u.afterPath))) =
      .ok u := by
  have hread := readAuthority_text (h.authority a ha)
  unfold parseAfter
  split
  · next hspecial =>
    rw [dropWhile_slashes (h.authority a ha) hspecial, cut_authority h ha]
    dsimp only
    rw [hread]
    show Except.ok (withRest u.scheme (some a) (segmentPath true) _) = _
    rw [← ha, withRest_path h hspecial]
  · next hspecial =>
    show (readAuthority u.scheme (cut (endsAuthority false) (a.text.toList ++ _)).1 >>= fun host =>
      pure (withRest u.scheme (some host) (segmentPath false)
        (cut (endsAuthority false) (a.text.toList ++ _)).2)) = _
    rw [cut_authority h ha, hread]
    show Except.ok (withRest u.scheme (some a) (segmentPath false) _) = _
    rw [← ha, withRest_path h (by simpa using hspecial)]

/-- A path that would begin with two slashes is led by the directory itself, which is dropped. -/
theorem segmentPath_dot (h : ∀ s ∈ segments, IsSegment false s) (hne : segments ≠ []) :
    segmentPath false ('/' :: '.' :: (Path.text (.segments segments)).toList) =
      .segments segments := by
  obtain ⟨s, rest, rfl⟩ := List.exists_cons_of_ne_nil hne
  rw [Path.text_segments]
  have hdot : segmentsFrom.encode ['.'] = "." := by decide
  have hsingle : isSingleDot "." = true := contains_toLower _ _
  have hdouble : isDoubleDot "." = false := contains_toLower _ _
  have hadd : addSegment [] (segmentsFrom.encode ['.']) false = [] := by
    unfold addSegment
    rw [hdot, hsingle, hdouble]
    rfl
  show Path.segments (segmentsFrom false (addSegment [] (segmentsFrom.encode ['.']) false) []
    (s.toList ++ rest.flatMap fun s => '/' :: s.toList)) = _
  rw [hadd, segmentsFrom_text (h s List.mem_cons_self) fun t ht => h t (List.mem_cons_of_mem s ht)]
  rfl

theorem parseAfter_slash {scheme : String} (hspecial : isSpecial scheme = false) {rest : List Char}
    (h : rest.head? ≠ some '/') : parseAfter scheme ('/' :: rest) =
      .ok (withRest scheme none (segmentPath false) ('/' :: rest)) := by
  unfold parseAfter
  rw [if_neg (by simp [hspecial])]
  split
  · next heq =>
    obtain ⟨-, rfl⟩ := List.cons.inj heq
    exact absurd rfl h
  · rfl
  · next hslash => exact absurd rfl (hslash rest)

/-- Without an authority the path is read wherever it is written out. -/
theorem withRest_bare (h : IsRead u segments) (hauthority : u.authority = none)
    {pathText : List Char} (hplain : ∀ c ∈ pathText, c ≠ '?' ∧ c ≠ '#')
    (hpath : segmentPath false pathText = u.path) :
    withRest u.scheme none (segmentPath false) (pathText ++ u.afterPath) = u := by
  unfold afterPath
  rw [withRest_text hplain h.query h.fragment, hpath, ← hauthority]

theorem parseAfter_slashes (h : IsRead u segments) (hauthority : u.authority = none)
    {next : String} {more : List String} (hcons : segments = "" :: next :: more) :
    parseAfter u.scheme (u.beforePath.toList ++ (u.path.text.toList ++ u.afterPath)) = .ok u := by
  have hspecial := h.bare hauthority
  have hbefore : u.beforePath = "/." := by
    unfold beforePath
    rw [hauthority, h.path, hcons]
    rfl
  have hsegments := h.each
  rw [hspecial] at hsegments
  have hpath : segmentPath false ('/' :: '.' :: u.path.text.toList) = u.path := by
    rw [h.path, segmentPath_dot hsegments (by simp [hcons])]
  have hplain : ∀ c ∈ '/' :: '.' :: u.path.text.toList, c ≠ '?' ∧ c ≠ '#' := by
    intro c hc
    rcases List.mem_cons.mp hc with rfl | hc
    · decide
    rcases List.mem_cons.mp hc with rfl | hc
    · decide
    · exact unmarked_path h c hc
  have hhead : ('.' :: (u.path.text.toList ++ u.afterPath)).head? ≠ some '/' := by simp
  rw [hbefore]
  exact (parseAfter_slash hspecial hhead).trans
    (congrArg Except.ok (withRest_bare h hauthority hplain hpath))

theorem parseAfter_segment (h : IsRead u segments) (hauthority : u.authority = none)
    {s : String} {more : List String} (hcons : segments = s :: more) (hs : s = "" → more = []) :
    parseAfter u.scheme (u.beforePath.toList ++ (u.path.text.toList ++ u.afterPath)) = .ok u := by
  have hspecial := h.bare hauthority
  have hbefore : u.beforePath = "" := by
    unfold beforePath
    rw [hauthority, h.path, hcons]
    split
    · next heq => cases heq
    · next heq =>
      obtain ⟨rfl, rfl⟩ := List.cons.inj (Path.segments.inj heq)
      cases hs rfl
    · rfl
  have hsegments := h.each
  rw [hspecial] at hsegments
  have hpath : segmentPath false u.path.text.toList = u.path := by
    rw [h.path, segmentPath_text hsegments (by simp)]
  let after := s.toList ++ ((more.flatMap fun s => '/' :: s.toList) ++ u.afterPath)
  have htext : u.path.text.toList ++ u.afterPath = '/' :: after := by
    rw [h.path, hcons, Path.text_segments, List.flatMap_cons, List.cons_append,
      List.cons_append, List.append_assoc]
  have hafter : after.head? ≠ some '/' := by
    intro hhead
    cases hchars : s.toList with
    | cons c tail =>
      have hc : after.head? = some c := by simp [after, hchars]
      obtain rfl := Option.some.inj (hc.symm.trans hhead)
      have hmem : '/' ∈ s.toList := by simp [hchars]
      exact absurd ((hsegments s (by simp [hcons])).plain _ hmem).2 (by decide)
    | nil =>
      obtain rfl := hs (String.toList_inj.mp hchars)
      have hmarked : u.afterPath.head? = some '/' := by simpa [after, hchars] using hhead
      rcases head_marks hmarked with hmark | hmark
      · cases hmark
      · cases hmark
  have hread := withRest_bare h hauthority (unmarked_path h) hpath
  rw [hbefore]
  show parseAfter u.scheme (u.path.text.toList ++ u.afterPath) = _
  rw [htext, parseAfter_slash hspecial hafter, ← htext, hread]

theorem parseAfter_bare (h : IsRead u segments) (hauthority : u.authority = none) :
    parseAfter u.scheme (u.beforePath.toList ++ (u.path.text.toList ++ u.afterPath)) = .ok u := by
  obtain ⟨s, more, hcons⟩ := List.exists_cons_of_ne_nil (h.root (.inr hauthority))
  cases more with
  | nil => exact parseAfter_segment h hauthority hcons fun _ => rfl
  | cons next more =>
    by_cases hs : s = ""
    · subst hs
      exact parseAfter_slashes h hauthority hcons
    · exact parseAfter_segment h hauthority hcons fun hempty => absurd hempty hs

/-- A URL that was read is read again from its text. -/
theorem parse_text (h : IsRead u segments) : parse u.text = .ok u := by
  have hscheme : scheme? ((trimOuter u.text.toList).filter (!isIgnored ·)) =
      some (u.scheme, u.beforePath.toList ++ (u.path.text.toList ++ u.afterPath)) := by
    rw [input_text h, text_eq]
    exact scheme?_text h.scheme _
  rw [parse_eq hscheme h.notFile]
  cases hauthority : u.authority with
  | none => exact parseAfter_bare h hauthority
  | some a =>
    have hbefore : u.beforePath.toList = '/' :: '/' :: a.text.toList := by
      unfold beforePath
      rw [hauthority]
      dsimp only
      rw [String.toList_append]
      rfl
    rw [hbefore]
    exact parseAfter_authority h hauthority

/-! ### What was read can be read again -/

theorem isRead_withRest {scheme : String} {authority : Option Authority} {s : List Char}
    (hscheme : IsScheme scheme) (hfile : scheme ≠ "file")
    (hauthority : ∀ a, authority = some a → a.IsReadFor scheme)
    (hbare : authority = none → isSpecial scheme = false ∧ s.head? = some '/')
    (hpath : (withRest scheme authority (segmentPath (isSpecial scheme)) s).path =
      .segments segments) :
    IsRead (withRest scheme authority (segmentPath (isSpecial scheme)) s) segments := by
  obtain ⟨hsegments, hroot⟩ := segmentPath_spec hpath
  refine ⟨hscheme, hfile, hauthority, fun hnone => (hbare hnone).1, hpath, hsegments, ?_,
    isPlain_query_withRest s, isPlain_fragment_withRest s⟩
  intro hneeded hnil
  obtain ⟨hspecial, htext⟩ := hroot hnil
  rcases hneeded with hspecial' | hnone
  · exact absurd (hspecial.symm.trans hspecial') Bool.false_ne_true
  · obtain ⟨tail, rfl⟩ := List.head?_eq_some_iff.mp (hbare hnone).2
    cases htext

theorem isRead_of_parseAfter {scheme : String} {rest : List Char} (hscheme : IsScheme scheme)
    (hfile : scheme ≠ "file") (h : parseAfter scheme rest = .ok u)
    (hpath : u.path = .segments segments) : IsRead u segments := by
  have hread {special : Bool} {before : List Char} (hspecial : isSpecial scheme = special)
      {rest : List Char} (h : (readAuthority scheme before >>= fun a =>
        pure (withRest scheme (some a) (segmentPath special) rest)) = Except.ok u) :
      IsRead u segments := by
    subst hspecial
    cases ha : readAuthority scheme before with
    | error e =>
      rw [ha] at h
      cases h
    | ok a =>
      rw [ha] at h
      obtain rfl := Except.ok.inj h
      refine isRead_withRest hscheme hfile (fun b hb => ?_) (fun hnone => by cases hnone) hpath
      obtain rfl := Option.some.inj hb
      exact isReadFor_of_readAuthority ha
  unfold parseAfter at h
  split at h
  · next hspecial => exact hread hspecial h
  next hspecial =>
  have hspecial : isSpecial scheme = false := by simpa using hspecial
  split at h
  · exact hread hspecial h
  · obtain rfl := Except.ok.inj h
    rw [← hspecial] at hpath ⊢
    exact isRead_withRest hscheme hfile (fun a ha => by cases ha) (fun _ => ⟨hspecial, rfl⟩) hpath
  · obtain rfl := Except.ok.inj h
    cases hpath

theorem scheme_of_file {text : String} {rest : List Char}
    (hscheme : scheme? ((trimOuter text.toList).filter (!isIgnored ·)) = some ("file", rest))
    (h : parse text = .ok u) : u.scheme = "file" := by
  unfold parse at h
  dsimp only at h
  rw [hscheme] at h
  split at h
  · next heq => cases heq
  · split at h
    · next afterSlashes _ =>
      split at h
      · cases hhost : fileHost (cut (endsAuthority true) afterSlashes).1 with
        | error e =>
          rw [hhost] at h
          cases h
        | ok host =>
          rw [hhost] at h
          obtain rfl := Except.ok.inj h
          rfl
      · obtain rfl := Except.ok.inj h
        rfl
    · obtain rfl := Except.ok.inj h
      rfl
  · next hother heq => exact absurd (Prod.mk.inj (Option.some.inj heq)).1.symm hother

/-- Whatever is read as a URL with segments can be read again from its text. -/
theorem isRead_of_parse {text : String} (h : parse text = .ok u) (hfile : u.scheme ≠ "file")
    (hpath : u.path = .segments segments) : IsRead u segments := by
  cases hscheme : scheme? ((trimOuter text.toList).filter (!isIgnored ·)) with
  | none =>
    unfold parse at h
    dsimp only at h
    rw [hscheme] at h
    cases h
  | some found =>
    obtain ⟨scheme, rest⟩ := found
    have hnotFile : scheme ≠ "file" := by
      rintro rfl
      exact hfile (scheme_of_file hscheme h)
    rw [parse_eq hscheme hnotFile] at h
    exact isRead_of_parseAfter (isScheme_of_scheme? hscheme) hnotFile h hpath

end Text

end Agents.Url
