import Agents.Http.Request
import Agents.Proofs.Url.Reading

/-! # Values stay in their segments

The values of path parameters are filled into the segments of an endpoint, and these are added to
the path of its base URL one by one. Whatever a value holds is encoded, so that nothing of it ends
its segment (`writtenSegment_plain`), and the URL is read again from its text as it was built
(`HttpRequest.build_keeps_segments`). What is left are the segments that mean a directory: one or
two dots alone are left out, and two dots among tabs take away the segment before theirs.
-/

namespace Agents

namespace Url

/-! ## Writing a segment -/

/-- A text as it is written as a segment. Tabs and line ends are dropped, the rest is encoded. -/
def writtenSegment (isSpecial : Bool) (text : String) : String :=
  String.ofList (Percent.encode
    (if isSpecial then Percent.inSpecialSegment else Percent.inSegment)
    (text.toList.filter (!isIgnored ·)))

/-- A text that means a directory once tabs and line ends are dropped. -/
def IsDots (text : String) : Prop :=
  text.toList.filter (!isIgnored ·) = ['.'] ∨ text.toList.filter (!isIgnored ·) = ['.', '.']

instance (text : String) : Decidable (IsDots text) := inferInstanceAs (Decidable (_ ∨ _))

section Written

variable {special : Bool} {text : String}

theorem inPath_of_not_inSegment {c : Char}
    (h : (if special then Percent.inSpecialSegment else Percent.inSegment) c = false) :
    Percent.inPath c = false ∧ isSlash special c = false := by
  have hsegment (h : Percent.inSegment c = false) : Percent.inPath c = false ∧ c ≠ '/' := by
    unfold Percent.inSegment at h
    simp only [Bool.or_eq_false_iff, decide_eq_false_iff_not] at h
    exact h.1
  cases special with
  | false =>
    obtain ⟨hpath, hslash⟩ := hsegment h
    exact ⟨hpath, by simp [isSlash, hslash]⟩
  | true =>
    have hparts : (Percent.inSegment c || c = '\\') = false := h
    obtain ⟨hset, hback⟩ := Bool.or_eq_false_iff.mp hparts
    obtain ⟨hpath, hslash⟩ := hsegment hset
    exact ⟨hpath, by simp [isSlash, hslash, of_decide_eq_false hback]⟩

theorem writtenSegment_plain : ∀ c ∈ (writtenSegment special text).toList,
    Percent.inPath c = false ∧ isSlash special c = false := by
  intro c hc
  unfold writtenSegment at hc
  rw [String.toList_ofList] at hc
  rcases Percent.mem_encode hc with ⟨-, hset⟩ | hescape
  · exact inPath_of_not_inSegment hset
  · exact plain_of_mem_escapes hescape

theorem decode_writtenSegment : Percent.decode (writtenSegment special text).toList =
    (text.toList.filter (!isIgnored ·)).flatMap String.utf8EncodeChar := by
  unfold writtenSegment
  rw [String.toList_ofList]
  refine Percent.decode_encode ?_ _
  cases special <;> decide

/-! ### Dots -/

theorem eq_of_toLower {c d : Char} (h : c.toLower = d) (hd : d ∈ ".%2".toList) : c = d := by
  have hascii : c.toNat < 128 → c.toLower ∈ ".%2".toList → c = c.toLower :=
    Text.of_ascii (P := fun c => c.toLower ∈ ".%2".toList → c = c.toLower) (by decide +kernel)
  subst h
  rcases Text.toLower_cases c with hc | hc
  · exact hascii hc hd
  · exact hc.symm

theorem hexValue?_of_toLower {c : Char} (h : c.toLower = 'e') : Percent.hexValue? c = some 14 := by
  have hascii : c.toNat < 128 → c.toLower = 'e' → Percent.hexValue? c = some 14 :=
    Text.of_ascii (P := fun c => c.toLower = 'e' → Percent.hexValue? c = some 14)
      (by decide +kernel)
  rcases Text.toLower_cases c with hc | hc
  · exact hascii hc h
  · rw [← hc, h]
    rfl

/-- A dot in any of its spellings is decoded as one. -/
theorem decode_dot {s rest : List Char} (h : s.map Char.toLower = '.' :: rest ∨
    s.map Char.toLower = '%' :: '2' :: 'e' :: rest) :
    ∃ tail, Percent.decode s = 0x2E :: Percent.decode tail ∧ tail.map Char.toLower = rest := by
  rcases h with h | h
  · obtain ⟨c, tail, rfl, hc, htail⟩ := List.map_eq_cons_iff.mp h
    obtain rfl : c = '.' := eq_of_toLower hc (by decide)
    exact ⟨tail, Percent.decode_cons (by decide) tail, htail⟩
  · obtain ⟨a, afterPercent, rfl, ha, hdigits⟩ := List.map_eq_cons_iff.mp h
    obtain ⟨b, afterTwo, rfl, hb, hdigit⟩ := List.map_eq_cons_iff.mp hdigits
    obtain ⟨c, tail, rfl, hc, htail⟩ := List.map_eq_cons_iff.mp hdigit
    obtain rfl : a = '%' := eq_of_toLower ha (by decide)
    obtain rfl : b = '2' := eq_of_toLower hb (by decide)
    refine ⟨tail, ?_, htail⟩
    have hvalue : Percent.hexValue? '2' = some 2 := rfl
    rw [Percent.decode, hvalue, hexValue?_of_toLower hc]
    rfl

theorem decode_of_isSingleDot {s : String} (h : isSingleDot s = true) :
    Percent.decode s.toList = [0x2E] := by
  have hlower := h
  unfold isSingleDot at hlower
  rw [contains_toLower, List.contains_iff_mem] at hlower
  have hdot : ∃ tail, Percent.decode s.toList = 0x2E :: Percent.decode tail ∧
      tail.map Char.toLower = [] := by
    refine decode_dot ?_
    rcases List.mem_cons.mp hlower with hlower | hlower
    · exact .inl hlower
    · exact .inr (List.mem_singleton.mp hlower)
  obtain ⟨tail, hdecode, htail⟩ := hdot
  obtain rfl := List.map_eq_nil_iff.mp htail
  rw [hdecode, Percent.decode]

theorem decode_of_isDoubleDot {s : String} (h : isDoubleDot s = true) :
    Percent.decode s.toList = [0x2E, 0x2E] := by
  have hlower := h
  unfold isDoubleDot at hlower
  rw [contains_toLower, List.contains_iff_mem] at hlower
  have hdots : ∃ rest, (rest = ".".toList ∨ rest = "%2e".toList) ∧ ∃ tail,
      Percent.decode s.toList = 0x2E :: Percent.decode tail ∧ tail.map Char.toLower = rest := by
    simp only [List.map_cons, List.map_nil, List.mem_cons, List.not_mem_nil, or_false] at hlower
    rcases hlower with hlower | hlower | hlower | hlower
    · exact ⟨".".toList, .inl rfl, decode_dot (.inl hlower)⟩
    · exact ⟨"%2e".toList, .inr rfl, decode_dot (.inl hlower)⟩
    · exact ⟨".".toList, .inl rfl, decode_dot (.inr hlower)⟩
    · exact ⟨"%2e".toList, .inr rfl, decode_dot (.inr hlower)⟩
  obtain ⟨rest, hrest, tail, hdecode, htail⟩ := hdots
  obtain ⟨last, hlast, hnil⟩ : ∃ last, Percent.decode tail = 0x2E :: Percent.decode last ∧
      last.map Char.toLower = [] := by
    refine decode_dot ?_
    rcases hrest with rfl | rfl
    · exact .inl htail
    · exact .inr htail
  obtain rfl := List.map_eq_nil_iff.mp hnil
  rw [hdecode, hlast, Percent.decode]

/-- A text that does not mean a directory is written as a segment. -/
theorem isSegment_writtenSegment (h : ¬ IsDots text) :
    IsSegment special (writtenSegment special text) := by
  refine ⟨writtenSegment_plain, ?_, ?_⟩
  · by_contra hdot
    have hdecode := decode_of_isSingleDot (s := writtenSegment special text) (by simpa using hdot)
    rw [decode_writtenSegment] at hdecode
    exact h (.inl (Text.encodeChar_injective hdecode))
  · by_contra hdots
    have hdecode := decode_of_isDoubleDot (s := writtenSegment special text) (by simpa using hdots)
    rw [decode_writtenSegment] at hdecode
    exact h (.inr (Text.encodeChar_injective hdecode))

end Written

/-! ## Adding segments -/

/-- The segments of a path without an empty last one. -/
def ownSegments (segments : List String) : List String :=
  if segments.getLast? = some "" then segments.dropLast else segments

/-- The texts that become segments. Those of directories are left out. -/
def segmentTexts (texts : List String) : List String :=
  texts.filter fun text => ¬ (text = "." ∨ text = "..")

/-- A path with more segments after its own. Without any the root stays. -/
def extended (segments more : List String) : List String :=
  if more = [] then popEmptySegment segments else ownSegments segments ++ more

section Pushing

variable {special : Bool} {segments texts : List String} {text : String}

theorem isDots_of_dots (h : text = "." ∨ text = "..") : IsDots text := by
  rcases h with rfl | rfl
  · exact .inl (by decide)
  · exact .inr (by decide)

theorem pushSegment_of_not_isDots (h : ¬ IsDots text) : pushSegment special segments text =
    (if segments = [""] then [] else segments) ++ [writtenSegment special text] := by
  unfold pushSegment
  rw [if_neg fun hdots => h (isDots_of_dots hdots)]
  exact addSegment_of_isSegment (isSegment_writtenSegment h)

theorem segmentTexts_cons_of_dots (h : text = "." ∨ text = "..") :
    segmentTexts (text :: texts) = segmentTexts texts :=
  List.filter_cons_of_neg fun hkept => of_decide_eq_true hkept h

theorem segmentTexts_cons (h : ¬ (text = "." ∨ text = "..")) :
    segmentTexts (text :: texts) = text :: segmentTexts texts :=
  List.filter_cons_of_pos (decide_eq_true h)

/-- One text after the other becomes a segment, as long as what is there is not taken for the
root. -/
theorem foldl_pushSegment (hdots : ∀ t ∈ texts, IsDots t → t = "." ∨ t = "..")
    (hroot : ∀ front back, (segmentTexts texts).map (writtenSegment special) = front ++ back →
      back ≠ [] → segments ++ front ≠ [""]) :
    texts.foldl (pushSegment special) segments =
      segments ++ (segmentTexts texts).map (writtenSegment special) := by
  induction texts generalizing segments with
  | nil => exact (List.append_nil _).symm
  | cons text texts ih =>
    have hrest : ∀ t ∈ texts, IsDots t → t = "." ∨ t = ".." :=
      fun t ht => hdots t (List.mem_cons_of_mem text ht)
    rw [List.foldl_cons]
    by_cases htext : text = "." ∨ text = ".."
    · rw [segmentTexts_cons_of_dots htext] at hroot ⊢
      have hpush : pushSegment special segments text = segments := if_pos htext
      rw [hpush]
      exact ih hrest hroot
    · rw [segmentTexts_cons htext, List.map_cons] at hroot ⊢
      have hplain : ¬ IsDots text := fun h => htext (hdots text List.mem_cons_self h)
      have hsegments : segments ≠ [""] := by
        have hfirst := hroot [] _ rfl (List.cons_ne_nil _ _)
        rwa [List.append_nil] at hfirst
      rw [pushSegment_of_not_isDots hplain, if_neg hsegments, ih hrest, List.append_assoc]
      · rfl
      · intro front back hback hne
        rw [List.append_assoc]
        exact hroot (writtenSegment special text :: front) back (by rw [hback]; rfl) hne

theorem foldl_pushSegment_root (hdots : ∀ t ∈ texts, IsDots t → t = "." ∨ t = "..")
    (hne : segmentTexts texts ≠ []) :
    texts.foldl (pushSegment special) [""] = texts.foldl (pushSegment special) [] := by
  induction texts with
  | nil => exact absurd rfl hne
  | cons text texts ih =>
    have hrest : ∀ t ∈ texts, IsDots t → t = "." ∨ t = ".." :=
      fun t ht => hdots t (List.mem_cons_of_mem text ht)
    rw [List.foldl_cons, List.foldl_cons]
    by_cases htext : text = "." ∨ text = ".."
    · rw [segmentTexts_cons_of_dots htext] at hne
      have hpush (segments : List String) : pushSegment special segments text = segments :=
        if_pos htext
      rw [hpush, hpush]
      exact ih hrest hne
    · have hplain : ¬ IsDots text := fun h => htext (hdots text List.mem_cons_self h)
      rw [pushSegment_of_not_isDots hplain, pushSegment_of_not_isDots hplain]
      rfl

theorem popEmptySegment_eq (h : segments ≠ [""]) :
    popEmptySegment segments = ownSegments segments := by
  match segments with
  | [] => rfl
  | [s] =>
    have hs : s ≠ "" := fun hs => h (by rw [hs])
    have hlast : ¬ [s].getLast? = some "" := fun hlast => hs (Option.some.inj hlast)
    exact (if_neg hlast).symm
  | _ :: _ :: _ => rfl

theorem foldl_popEmptySegment (hdots : ∀ t ∈ texts, IsDots t → t = "." ∨ t = "..")
    (hroot : ∀ front back, (segmentTexts texts).map (writtenSegment special) = front ++ back →
      back ≠ [] → ownSegments segments ++ front ≠ [""]) :
    texts.foldl (pushSegment special) (popEmptySegment segments) =
      extended segments ((segmentTexts texts).map (writtenSegment special)) := by
  unfold extended
  split
  · next hnone =>
    rw [foldl_pushSegment hdots, hnone, List.append_nil]
    intro front back hback hne
    rw [hnone] at hback
    exact absurd (List.append_eq_nil_iff.mp hback.symm).2 hne
  · next hsome =>
    by_cases hempty : segments = [""]
    · subst hempty
      have hown : ownSegments [""] = [] := rfl
      show texts.foldl (pushSegment special) [""] = _
      rw [foldl_pushSegment_root hdots fun hnil => hsome (by rw [hnil]; rfl)]
      exact foldl_pushSegment hdots hroot
    · rw [popEmptySegment_eq hempty]
      exact foldl_pushSegment hdots hroot

end Pushing

/-! ## URLs with more segments and pairs -/

section Parts

variable {special : Bool} {segments : List String} {u : Url}

theorem isSegment_pushSegment (h : ∀ s ∈ segments, IsSegment special s) (text : String) :
    (∀ s ∈ pushSegment special segments text, IsSegment special s) ∧
      (segments ≠ [] → pushSegment special segments text ≠ []) := by
  unfold pushSegment
  split
  · exact ⟨h, id⟩
  · refine ⟨fun s hs => ?_, fun _ => addSegment_ne_nil⟩
    refine isSegment_of_mem_addSegment (fun t ht => ?_) writtenSegment_plain hs
    split at ht
    · cases ht
    · exact h t ht

theorem isSegment_foldl (h : ∀ s ∈ segments, IsSegment special s) (texts : List String) :
    (∀ s ∈ texts.foldl (pushSegment special) segments, IsSegment special s) ∧
      (segments ≠ [] → texts.foldl (pushSegment special) segments ≠ []) := by
  induction texts generalizing segments with
  | nil => exact ⟨h, id⟩
  | cons text texts ih =>
    obtain ⟨hpush, hne⟩ := isSegment_pushSegment h text
    obtain ⟨hall, hfull⟩ := ih hpush
    exact ⟨hall, fun hsegments => hfull (hne hsegments)⟩

theorem isSegment_popEmptySegment (h : ∀ s ∈ segments, IsSegment special s) :
    (∀ s ∈ popEmptySegment segments, IsSegment special s) ∧
      (segments ≠ [] → popEmptySegment segments ≠ []) := by
  match segments with
  | [] => exact ⟨h, id⟩
  | [s] => exact ⟨h, id⟩
  | s :: t :: rest =>
    rw [popEmptySegment_eq (by simp)]
    unfold ownSegments
    split
    · refine ⟨fun r hr => h r ((List.dropLast_sublist _).subset hr), fun _ => ?_⟩
      rw [List.dropLast_cons_cons]
      exact List.cons_ne_nil _ _
    · exact ⟨h, id⟩

theorem IsRead.withPath (h : IsRead u segments) {path : List String}
    (hpath : (∀ s ∈ path, IsSegment (isSpecial u.scheme) s) ∧ (segments ≠ [] → path ≠ [])) :
    IsRead { u with path := .segments path } path where
  scheme := h.scheme
  notFile := h.notFile
  authority := h.authority
  bare := h.bare
  path := rfl
  each := hpath.1
  root hneeded := hpath.2 (h.root hneeded)
  query := h.query
  fragment := h.fragment

theorem querySet_of_ascii {scheme : String} {c : Char} (hascii : c.toNat < 128)
    (hvisible : 0x20 < c.toNat ∧ c ∉ "\"#<>\x27\x7f".toList) : querySet scheme c = false := by
  have hall := Text.of_ascii (P := fun c => 0x20 < c.toNat ∧ c ∉ "\"#<>\x27\x7f".toList →
    Percent.inSpecialQuery c = false ∧ Percent.inQuery c = false) (by decide +kernel) hascii
    hvisible
  unfold querySet
  split
  · exact hall.1
  · exact hall.2

/-- The query string of a form needs no encoding in a query. -/
theorem querySet_of_mem_encodePairs {scheme : String} {pairs : List (String × String)} {c : Char}
    (hc : c ∈ (Percent.encodePairs pairs).toList) : querySet scheme c = false := by
  have hvisible : ∀ c ∈ "&=+*-._".toList, c.toNat < 128 ∧ 0x20 < c.toNat ∧
      c ∉ "\"#<>\x27\x7f".toList := Text.forall_mem (by decide)
  have hmarks : ∀ c ∈ "&=+*-._".toList, querySet scheme c = false := fun c hc =>
    querySet_of_ascii (hvisible c hc).1 (hvisible c hc).2
  have hform {s : List Char} {c : Char} (hc : c ∈ Percent.encodeForm s) :
      querySet scheme c = false := by
    obtain ⟨d, -, hd⟩ := List.mem_flatMap.mp hc
    split at hd
    · next hplain =>
      obtain rfl := List.mem_singleton.mp hd
      rcases Bool.or_eq_true_iff.mp hplain with halpha | hmark
      · have hascii : c.toNat < 128 := isSchemeChar_lt (by simp [isSchemeChar, halpha])
        exact querySet_of_ascii hascii (Text.of_ascii (P := fun c => c.isAlphanum = true →
          0x20 < c.toNat ∧ c ∉ "\"#<>\x27\x7f".toList) (by decide +kernel) hascii halpha)
      · have hsubset : ∀ c ∈ "*-._".toList, c ∈ "&=+*-._".toList :=
          Text.forall_mem (by decide)
        exact hmarks c (hsubset c (List.contains_iff_mem.mp hmark))
    split at hd
    · obtain rfl := List.mem_singleton.mp hd
      exact hmarks '+' (by decide)
    · obtain ⟨b, -, hb⟩ := List.mem_flatMap.mp hd
      exact querySet_of_mem_escapes (Percent.mem_escapes hb)
  unfold Percent.encodePairs at hc
  have hmark : "&".toList = ['&'] := rfl
  rw [String.toList_intercalate, hmark] at hc
  rcases Host.mem_intercalate hc with rfl | ⟨piece, hpiece, hc⟩
  · exact hmarks '&' (by decide)
  · obtain ⟨text, htext, rfl⟩ := List.mem_map.mp hpiece
    obtain ⟨pair, -, rfl⟩ := List.mem_map.mp htext
    rw [String.toList_ofList] at hc
    rcases List.mem_append.mp hc with hc | hc
    · exact hform hc
    rcases List.mem_cons.mp hc with rfl | hc
    · exact hmarks '=' (by decide)
    · exact hform hc

section Pairs

variable (u : Url) (pairs : List (String × String))

@[simp] theorem scheme_withPairs : (u.withPairs pairs).scheme = u.scheme := by
  unfold withPairs
  split <;> rfl

@[simp] theorem authority_withPairs : (u.withPairs pairs).authority = u.authority := by
  unfold withPairs
  split <;> rfl

@[simp] theorem fragment_withPairs : (u.withPairs pairs).fragment = u.fragment := by
  unfold withPairs
  split <;> rfl

@[simp] theorem path_withPairs : (u.withPairs pairs).path = u.path := by
  unfold withPairs
  split <;> rfl

theorem query_withPairs (path : Path) :
    ({ u with path }.withPairs pairs).query = (u.withPairs pairs).query := by
  unfold withPairs
  split <;> rfl

end Pairs

theorem isPlain_query_withPairs (h : IsPlain (querySet u.scheme) u.query)
    (pairs : List (String × String)) : IsPlain (querySet u.scheme) (u.withPairs pairs).query := by
  unfold Url.withPairs
  split
  · exact h
  · intro q hq c hc
    obtain rfl := Option.some.inj hq
    rw [String.toList_append] at hc
    rcases List.mem_append.mp hc with hc | hc
    · split at hc
      · next before hbefore =>
        split at hc
        · cases hc
        · rw [String.toList_append] at hc
          rcases List.mem_append.mp hc with hc | hc
          · exact h before hbefore c hc
          · rw [List.mem_singleton.mp hc]
            exact querySet_of_ascii (by decide) (by decide)
      · cases hc
    · exact querySet_of_mem_encodePairs hc

theorem IsRead.withPairs (h : IsRead u segments) (pairs : List (String × String)) :
    IsRead (u.withPairs pairs) segments := by
  have hquery := isPlain_query_withPairs h.query pairs
  unfold Url.withPairs at hquery ⊢
  split
  · exact h
  · next hsome =>
    rw [if_neg hsome] at hquery
    exact { h with query := hquery }

/-! ## What no text can do -/

/-- The number of segments of a path. The root has none. -/
def depth (segments : List String) : Nat := if segments = [""] then 0 else segments.length

theorem addSegment_bounded (done : List String) (segment : String) :
    (addSegment done segment true).length ≤ done.length + 1 ∧
      ∀ s ∈ addSegment done segment true, s ∈ done ∨ s = "" ∨ s = segment := by
  unfold addSegment
  dsimp only
  split
  · constructor
    · simp only [List.length_append, List.length_dropLast, if_true, List.length_singleton]
      omega
    · intro s hs
      rcases List.mem_append.mp hs with hs | hs
      · exact .inl ((List.dropLast_sublist done).subset hs)
      · exact .inr (.inl (List.mem_singleton.mp hs))
  split
  · constructor
    · exact Nat.le_of_eq List.length_append
    · intro s hs
      rcases List.mem_append.mp hs with hs | hs
      · exact .inl hs
      · exact .inr (.inl (List.mem_singleton.mp hs))
  · constructor
    · exact Nat.le_of_eq List.length_append
    · intro s hs
      rcases List.mem_append.mp hs with hs | hs
      · exact .inl hs
      · exact .inr (.inr (List.mem_singleton.mp hs))

/-- A text adds at most one segment, which is how it is written or empty. -/
theorem pushSegment_bounded (special : Bool) (segments : List String) (text : String) :
    depth (pushSegment special segments text) ≤ depth segments + 1 ∧
      ∀ s ∈ pushSegment special segments text,
        s ∈ segments ∨ s = "" ∨ s = writtenSegment special text := by
  have hroot : (if segments = [""] then [] else segments).length = depth segments ∧
      ∀ s ∈ if segments = [""] then [] else segments, s ∈ segments := by
    unfold depth
    split
    · exact ⟨rfl, List.forall_mem_nil _⟩
    · exact ⟨rfl, fun s hs => hs⟩
  unfold pushSegment
  split
  · exact ⟨Nat.le_succ _, fun s hs => .inl hs⟩
  · obtain ⟨hlength, hmem⟩ := addSegment_bounded (if segments = [""] then [] else segments)
      (writtenSegment special text)
    have hdepth (segments : List String) : depth segments ≤ segments.length := by
      unfold depth
      split
      · exact Nat.zero_le _
      · exact Nat.le_refl _
    refine ⟨Nat.le_trans (hdepth _) (hroot.1 ▸ hlength), fun s hs => ?_⟩
    rcases hmem s hs with hold | hnew
    · exact .inl (hroot.2 s hold)
    · exact .inr hnew

theorem foldl_pushSegment_bounded (special : Bool) (segments texts : List String) :
    depth (texts.foldl (pushSegment special) segments) ≤ depth segments + texts.length ∧
      ∀ s ∈ texts.foldl (pushSegment special) segments,
        s ∈ segments ∨ s = "" ∨ ∃ text ∈ texts, s = writtenSegment special text := by
  induction texts generalizing segments with
  | nil => exact ⟨Nat.le_refl _, fun s hs => .inl hs⟩
  | cons text texts ih =>
    obtain ⟨hdepth, hmem⟩ := pushSegment_bounded special segments text
    obtain ⟨hdepths, hmems⟩ := ih (pushSegment special segments text)
    constructor
    · rw [List.length_cons, List.foldl_cons]
      omega
    · intro s hs
      rcases hmems s hs with hs | hempty | ⟨t, ht, htext⟩
      · rcases hmem s hs with hold | hempty | htext
        · exact .inl hold
        · exact .inr (.inl hempty)
        · exact .inr (.inr ⟨text, List.mem_cons_self, htext⟩)
      · exact .inr (.inl hempty)
      · exact .inr (.inr ⟨t, List.mem_cons_of_mem text ht, htext⟩)

theorem popEmptySegment_sublist (segments : List String) :
    (popEmptySegment segments).Sublist segments := by
  match segments with
  | [] => exact .slnil
  | [s] => exact .refl _
  | s :: t :: rest =>
    rw [popEmptySegment_eq (by simp)]
    unfold ownSegments
    split
    · exact List.dropLast_sublist _
    · exact .refl _

end Parts

end Url

namespace HttpRequest

/-! ## Filling a segment -/

/-- A piece of a segment: a text that begins no placeholder, or the name of a placeholder. -/
inductive Piece where
  | text (s : List Char)
  | placeholder (name : List Char)

def Piece.written : Piece → List Char
  | .text s => s
  | .placeholder name => '\x7b' :: (name ++ ['\x7d'])

def Piece.filled (values : List (String × String)) : Piece → List Char
  | .text s => s
  | .placeholder name => ((values.lookup (String.ofList name)).getD "").toList

def Piece.IsPlain : Piece → Prop
  | .text s => '\x7b' ∉ s
  | .placeholder name => name ≠ [] ∧ '\x7b' ∉ name ∧ '\x7d' ∉ name

section Filling

variable {values : List (String × String)}

theorem fill_text {s : List Char} (h : '\x7b' ∉ s) (rest : List Char) :
    fill values 0 (s ++ rest) = s ++ fill values 0 rest := by
  induction s with
  | nil => rfl
  | cons c s ih =>
    have hc : c ≠ '\x7b' := fun hc => h (hc ▸ List.mem_cons_self)
    have hnone : placeholder? (c :: (s ++ rest)) = none := by
      unfold placeholder?
      split
      · next heq => exact absurd (List.cons.inj heq).1 hc
      · rfl
    rw [List.cons_append, fill, hnone]
    exact congrArg (c :: ·) (ih fun hs => h (List.mem_cons_of_mem c hs))

theorem fill_skip (s rest : List Char) :
    fill values s.length (s ++ rest) = fill values 0 rest := by
  induction s with
  | nil => rfl
  | cons c s ih =>
    rw [List.length_cons, List.cons_append, fill]
    exact ih

theorem placeholder?_written {name : List Char} (h : (Piece.placeholder name).IsPlain)
    (rest : List Char) :
    placeholder? ('\x7b' :: (name ++ '\x7d' :: rest)) = some (name, rest) := by
  obtain ⟨hne, hopen, hclose⟩ := h
  let isName (c : Char) : Bool := c ≠ '\x7b' && c ≠ '\x7d'
  have hname : ∀ c ∈ name, isName c = true := by
    intro c hc
    have hopen' : c ≠ '\x7b' := fun h => hopen (h ▸ hc)
    have hclose' : c ≠ '\x7d' := fun h => hclose (h ▸ hc)
    simp [isName, hopen', hclose']
  have hend : ¬ isName '\x7d' = true := by decide
  have htake : (name ++ '\x7d' :: rest).takeWhile isName = name := by
    rw [List.takeWhile_append_of_pos hname, List.takeWhile_cons_of_neg hend, List.append_nil]
  have hdrop : (name ++ '\x7d' :: rest).dropWhile isName = '\x7d' :: rest := by
    rw [List.dropWhile_append_of_pos hname, List.dropWhile_cons_of_neg hend]
  obtain ⟨c, tail, rfl⟩ := List.exists_cons_of_ne_nil hne
  unfold placeholder?
  simp only [isName] at htake hdrop
  simp only [htake, hdrop]

/-- Every placeholder gives way to its value, and nothing else changes. -/
theorem fill_written {pieces : List Piece} (h : ∀ p ∈ pieces, p.IsPlain) :
    fill values 0 (pieces.flatMap Piece.written) = pieces.flatMap (Piece.filled values) := by
  induction pieces with
  | nil => rfl
  | cons p pieces ih =>
    have hrest := ih fun q hq => h q (List.mem_cons_of_mem p hq)
    rw [List.flatMap_cons, List.flatMap_cons]
    cases p with
    | text s =>
      have hplain : '\x7b' ∉ s := h _ List.mem_cons_self
      exact (fill_text hplain _).trans (congrArg (s ++ ·) hrest)
    | placeholder name =>
      have hplain : (Piece.placeholder name).IsPlain := h _ List.mem_cons_self
      let after := pieces.flatMap Piece.written
      have hwritten : (Piece.placeholder name).written ++ after =
          '\x7b' :: (name ++ '\x7d' :: after) := by simp [Piece.written]
      have hskip : fill values (name.length + 1) (name ++ '\x7d' :: after) =
          fill values 0 after := by
        have hlength : (name ++ ['\x7d']).length = name.length + 1 := by simp
        have hsplit : name ++ '\x7d' :: after = (name ++ ['\x7d']) ++ after := by simp
        rw [← hlength, hsplit, fill_skip]
      rw [hwritten, fill, placeholder?_written hplain]
      exact congrArg _ (hskip.trans hrest)

end Filling

/-! ## Requests -/

/-- The texts of an endpoint's segments with their placeholders filled. -/
def filled (path : String) (args : List Argument) : List String :=
  (segments path).map fun s => String.ofList (fill (texts .path args).reverse 0 s)

theorem filled_written {path : String} {written : List (List Piece)}
    (h : ∀ pieces ∈ written, ∀ p ∈ pieces, p.IsPlain)
    (hpath : segments path = written.map (·.flatMap Piece.written)) (args : List Argument) :
    filled path args = written.map fun pieces =>
      String.ofList (pieces.flatMap (Piece.filled (texts .path args).reverse)) := by
  rw [filled, hpath, List.map_map]
  exact List.map_congr_left fun pieces hpieces => congrArg _ (fill_written (h pieces hpieces))

/-- **Values stay in their segments.** Whatever the values are, the request goes to the scheme,
user, host and port of the base, its query is that of the base with the arguments for queries, and
its fragment is that of the base. The URL is read from its text as it was built. A segment of its
path is one of the base, an empty one, or a segment of the endpoint in which each placeholder gives
way to its value, written without tabs and line ends; and there are no more of them than the base
and the endpoint have. They are the segments of the base and then one for each segment of the
endpoint that is not filled with one or two dots alone, unless

- dots hide among tabs and line ends, which are dropped before dots are resolved, or
- an empty segment that is the first of the path is followed by another, which takes its place.

The path of a file is left out, since the letter of a drive has rules of its own in it. -/
theorem build_keeps_segments {e : Endpoint} {args : List Argument} {base : Url}
    {own : List String} (hbase : Url.parse e.baseUrl = .ok base)
    (hpath : base.path = .segments own) :
    ∃ request url path, build e args = .ok request ∧ request.url = url.text ∧
      url.scheme = base.scheme ∧ url.authority = base.authority ∧
      url.query = (base.withPairs (texts .query args)).query ∧ url.fragment = base.fragment ∧
      url.path = .segments path ∧
      (∀ written : List (List Piece), (∀ pieces ∈ written, ∀ p ∈ pieces, p.IsPlain) →
        segments e.path = written.map (·.flatMap Piece.written) →
        filled e.path args = written.map fun pieces =>
          String.ofList (pieces.flatMap (Piece.filled (texts .path args).reverse))) ∧
      (base.scheme ≠ "file" →
        Url.parse request.url = .ok url ∧
        Url.depth path ≤ Url.depth (Url.popEmptySegment own) + (segments e.path).length ∧
        (∀ s ∈ path, s ∈ own ∨ s = "" ∨ ∃ text ∈ filled e.path args,
          s = Url.writtenSegment (Url.isSpecial base.scheme) text) ∧
        ((∀ text ∈ filled e.path args, Url.IsDots text → text = "." ∨ text = "..") →
          ∀ added, added = (Url.segmentTexts (filled e.path args)).map
            (Url.writtenSegment (Url.isSpecial base.scheme)) →
          (∀ front back, added = front ++ back → back ≠ [] →
            Url.ownSegments own ++ front ≠ [""]) →
          path = Url.extended own added)) := by
  let path := (filled e.path args).foldl (Url.pushSegment (Url.isSpecial base.scheme))
    (Url.popEmptySegment own)
  let url := ({ base with path := .segments path } : Url).withPairs (texts .query args)
  have hsegments : base.withSegments? (filled e.path args) =
      some { base with path := .segments path } := by
    unfold Url.withSegments?
    rw [hpath]
  obtain ⟨request, hbuild, htext⟩ : ∃ request, build e args = .ok request ∧
      request.url = url.text := by
    unfold build
    rw [hbase]
    unfold filled at hsegments
    simp only [pure_bind, hsegments]
    exact ⟨_, rfl, rfl⟩
  refine ⟨request, url, path, hbuild, htext, Url.scheme_withPairs _ _, Url.authority_withPairs _ _,
    Url.query_withPairs base _ _, Url.fragment_withPairs _ _, Url.path_withPairs _ _,
    fun _ hplain hwritten => filled_written hplain hwritten args, fun hfile => ⟨?_, ?_, ?_, ?_⟩⟩
  · have hread := Url.isRead_of_parse hbase hfile hpath
    have hpopped := Url.isSegment_popEmptySegment hread.each
    have hpushed := Url.isSegment_foldl hpopped.1 (filled e.path args)
    have hurl : Url.IsRead url path :=
      (hread.withPath ⟨hpushed.1, fun hne => hpushed.2 (hpopped.2 hne)⟩).withPairs _
    rw [htext]
    exact Url.parse_text hurl
  · have hcount : (filled e.path args).length = (segments e.path).length := List.length_map _
    rw [← hcount]
    exact (Url.foldl_pushSegment_bounded _ _ _).1
  · intro s hs
    rcases (Url.foldl_pushSegment_bounded _ _ _).2 s hs with hold | hnew
    · exact .inl ((Url.popEmptySegment_sublist own).subset hold)
    · exact .inr hnew
  · rintro hdots added rfl hroot
    exact Url.foldl_popEmptySegment hdots hroot

/-! ### The weather of a city -/

def weather : Endpoint :=
  { method := "get", baseUrl := "https://api.example.com/v1/",
    path := "/cities/\x7bcity\x7d/weather" }

def cityArgument (name : String) : List Argument := [⟨"city", .path, .str name⟩]

/-- Slashes, dots and marks of a name are all in its segment. -/
theorem build_keeps_segments_weather : ∃ request url,
    build weather (cityArgument "../admin?a=%2F#é") = .ok request ∧
    request.url = "https://api.example.com/v1/cities/..%2Fadmin%3Fa=%252F%23%C3%A9/weather" ∧
    Url.parse request.url = .ok url ∧ url.query = none ∧ url.fragment = none ∧
    url.path = .segments ["v1", "cities", "..%2Fadmin%3Fa=%252F%23%C3%A9", "weather"] := by
  have hbase : Url.parse weather.baseUrl =
      .ok ⟨"https", some { host := .domain "api.example.com" }, .segments ["v1", ""], none,
        none⟩ := by decide +kernel
  obtain ⟨request, url, path, hbuild, htext, hscheme, hauthority, hquery, hfragment, hpath, -,
      hrest⟩ := @build_keeps_segments _ (cityArgument "../admin?a=%2F#é") _ _ hbase rfl
  obtain ⟨hparse, -, -, hkept⟩ := hrest (by decide)
  have hdots : ∀ text ∈ filled weather.path (cityArgument "../admin?a=%2F#é"),
      Url.IsDots text → text = "." ∨ text = ".." := by decide +kernel
  have hsegments : path = ["v1", "cities", "..%2Fadmin%3Fa=%252F%23%C3%A9", "weather"] := by
    rw [hkept hdots _ rfl fun front back _ _ => by simp [Url.ownSegments]]
    decide +kernel
  have hnone : url.query = none := hquery.trans (by decide +kernel)
  have hurl : url = ⟨"https", some { host := .domain "api.example.com" },
      .segments ["v1", "cities", "..%2Fadmin%3Fa=%252F%23%C3%A9", "weather"], none, none⟩ := by
    cases url
    dsimp only at hscheme hauthority hpath hnone hfragment
    rw [hscheme, hauthority, hpath, hnone, hfragment, hsegments]
  refine ⟨request, url, hbuild, ?_, hparse, hnone, hfragment, hpath.trans (by rw [hsegments])⟩
  rw [htext, hurl]
  decide +kernel

/-- Two dots alone are left out, and two dots with a tab between them take away the segment before
theirs. An empty segment behind the root is replaced by the next one. -/
theorem segments_lost_to_dots :
    ((build weather (cityArgument "..")).toOption.map HttpRequest.url =
      some "https://api.example.com/v1/cities/weather") ∧
    ((build weather (cityArgument ".\t.")).toOption.map HttpRequest.url =
      some "https://api.example.com/v1//weather") ∧
    ((build { weather with baseUrl := "https://api.example.com", path := "/\x7bcity\x7d/weather" }
      (cityArgument "")).toOption.map HttpRequest.url = some "https://api.example.com/weather") ∧
    (Url.parse "https://api.example.com/v1/cities/weather").toOption.map Url.path ≠
      some (.segments (Url.extended ["v1", ""]
        ((filled weather.path (cityArgument "..")).map (Url.writtenSegment true)))) := by
  decide +kernel

end HttpRequest

end Agents
