import Agents.Proofs.Http.Segments
import Agents.Proofs.Json.Ordered
import Agents.Proofs.Url.Form

/-! # Parameters are sent as they are

The parameters of a request that are not `null` are sorted by their locations. Those of the query are
written behind the query of the base as a form, and those of the body are its members. Where the
query is in the text of a URL is told by the first question mark and the first number sign
(`Url.sections`). Neither is written before the query, whatever the scheme of the base is
(`Url.sections_text`), and so the pairs that are read from the text are those of the base and the
parameters (`HttpRequest.build_sends_parameters`).
-/

namespace Agents

namespace Url

/-! ## URLs of any scheme -/

/-- What is known of a URL with segments that was read, also of that of a file: what is written
before its query holds no mark that ends it. -/
structure IsParsed (u : Url) (segments : List String) : Prop where
  scheme : ∀ c ∈ u.scheme.toList, isSchemeChar c = true
  authority : ∀ a, u.authority = some a → ∀ c ∈ a.text.toList, endsAuthority true c = false
  path : u.path = .segments segments
  each : ∀ s ∈ segments, IsSegment (isSpecial u.scheme) s
  query : IsPlain (querySet u.scheme) u.query

section Parsed

variable {u : Url} {segments : List String}

theorem IsRead.isParsed (h : IsRead u segments) : IsParsed u segments where
  scheme := h.scheme.plain
  authority a ha _ hc := (Authority.mem_text (h.authority a ha) hc).2
  path := h.path
  each := h.each
  query := h.query

theorem IsParsed.withPath (h : IsParsed u segments) {path : List String}
    (hpath : ∀ s ∈ path, IsSegment (isSpecial u.scheme) s) :
    IsParsed { u with path := .segments path } path where
  scheme := h.scheme
  authority := h.authority
  path := rfl
  each := hpath
  query := h.query

theorem IsParsed.withPairs (h : IsParsed u segments) (pairs : List (String × String)) :
    IsParsed (u.withPairs pairs) segments where
  scheme := by
    rw [scheme_withPairs]
    exact h.scheme
  authority := by
    rw [authority_withPairs]
    exact h.authority
  path := (path_withPairs u pairs).trans h.path
  each := by
    rw [scheme_withPairs]
    exact h.each
  query := by
    rw [scheme_withPairs]
    exact isPlain_query_withPairs h.query pairs

/-- The host of a file, which may be empty, is written without what ends an authority. -/
theorem mem_text_fileHost {s : List Char} {a : Authority} (h : fileHost s = .ok a) {c : Char}
    (hc : c ∈ a.text.toList) : endsAuthority true c = false := by
  have hempty {a : Authority} (ha : a = { host := .domain "" }) : c ∉ a.text.toList := by
    rw [ha, Authority.text_eq]
    exact List.not_mem_nil
  unfold fileHost at h
  split at h
  · exact absurd hc (hempty (Except.ok.inj h).symm)
  · cases hhost : Host.parse s with
    | error e =>
      rw [hhost] at h
      cases h
    | ok host =>
      rw [hhost] at h
      obtain rfl := Except.ok.inj h
      by_cases hlocal : host = .domain "localhost"
      · exact absurd hc (hempty (by rw [if_pos hlocal]))
      · have hread := Host.isRead_of_parse hhost
        have hauthority : Authority.IsReadFor "https" { host := host } :=
          ⟨isUserText_empty, isUserText_empty, hread, fun p hp => (by cases hp),
            fun hnil => absurd hnil hread.text_ne_nil⟩
        rw [if_neg hlocal] at hc
        exact (Authority.mem_text hauthority hc).2

/-- The URL of a file has a host, which may be empty, and segments. -/
theorem exists_of_file {text : String} {rest : List Char}
    (hscheme : scheme? ((trimOuter text.toList).filter (!isIgnored ·)) = some ("file", rest))
    (h : parse text = .ok u) : ∃ host a after, fileHost host = .ok a ∧
      u = withRest "file" (some a) (segmentPath true) after := by
  unfold parse at h
  dsimp only at h
  rw [hscheme] at h
  split at h
  · next heq => cases heq
  · split at h
    · next afterSlashes _ =>
      split at h
      · cases hhost : fileHost (cut (endsAuthority true) afterSlashes).1 with
        | error e =>
          rw [hhost] at h
          cases h
        | ok a =>
          rw [hhost] at h
          exact ⟨_, a, _, hhost, (Except.ok.inj h).symm⟩
      · exact ⟨[], _, _, rfl, (Except.ok.inj h).symm⟩
    · exact ⟨[], _, _, rfl, (Except.ok.inj h).symm⟩
  · next hother heq => exact absurd (Prod.mk.inj (Option.some.inj heq)).1.symm hother

theorem isParsed_of_file {host after : List Char} {a : Authority} (hhost : fileHost host = .ok a)
    (hpath : (withRest "file" (some a) (segmentPath true) after).path = .segments segments) :
    IsParsed (withRest "file" (some a) (segmentPath true) after) segments where
  scheme := Text.forall_mem (s := "file".toList) (by decide)
  authority b hb _ hc := by
    obtain rfl := Option.some.inj hb
    exact mem_text_fileHost hhost hc
  path := hpath
  each := (segmentPath_spec hpath).1
  query := isPlain_query_withRest after

theorem isParsed_of_parse {text : String} (h : parse text = .ok u)
    (hpath : u.path = .segments segments) : IsParsed u segments := by
  cases hscheme : scheme? ((trimOuter text.toList).filter (!isIgnored ·)) with
  | none =>
    unfold parse at h
    dsimp only at h
    rw [hscheme] at h
    cases h
  | some found =>
    obtain ⟨scheme, rest⟩ := found
    by_cases hfile : scheme = "file"
    · subst hfile
      obtain ⟨host, a, after, hhost, rfl⟩ := exists_of_file hscheme h
      exact isParsed_of_file hhost hpath
    · rw [parse_eq hscheme hfile] at h
      exact (isRead_of_parseAfter (isScheme_of_scheme? hscheme) hfile h hpath).isParsed

end Parsed

/-! ## Parts of a text -/

def afterMark? : List Char → Option String
  | [] => none
  | _ :: s => some (String.ofList s)

/-- The text of a URL up to its query, its query and its fragment. -/
def sections (text : String) : List Char × Option String × Option String :=
  let (whole, fragment) := cut (· = '#') text.toList
  let (front, query) := cut (· = '?') whole
  (front, afterMark? query, afterMark? fragment)

def frontText (u : Url) : List Char :=
  u.scheme.toList ++ ':' :: (u.beforePath.toList ++ u.path.text.toList)

theorem afterMark?_markText (mark : Char) (part : Option String) :
    afterMark? (markText mark part) = part := by
  cases part with
  | none => rfl
  | some s => exact congrArg some String.ofList_toList

section Written

variable {u : Url} {segments : List String} (h : IsParsed u segments)

include h

theorem unmarked_frontText {c : Char} (hc : c ∈ u.frontText) : c ≠ '?' ∧ c ≠ '#' := by
  have hplain (set : Char → Bool) {c : Char} (hset : set c = false) (hquery : set '?' = true)
      (hfragment : set '#' = true) : c ≠ '?' ∧ c ≠ '#' := by
    constructor
    all_goals
      rintro rfl
      simp_all
  rcases List.mem_append.mp hc with hc | hc
  · have hchar : (!isSchemeChar c) = false := by rw [h.scheme c hc]; rfl
    exact hplain (!isSchemeChar ·) hchar rfl rfl
  rcases List.mem_cons.mp hc with rfl | hc
  · decide
  rcases List.mem_append.mp hc with hc | hc
  · unfold beforePath at hc
    split at hc
    · next a hauthority =>
      have htext : ("//" ++ a.text).toList = '/' :: '/' :: a.text.toList := by simp
      rw [htext] at hc
      rcases List.mem_cons.mp hc with rfl | hc
      · decide
      rcases List.mem_cons.mp hc with rfl | hc
      · decide
      · exact hplain _ (h.authority a hauthority c hc) rfl rfl
    · exact Text.forall_mem (P := fun c => c ≠ '?' ∧ c ≠ '#') (by decide) c hc
    · cases hc
  · rw [h.path, Path.text_segments] at hc
    obtain ⟨s, hs, hc⟩ := List.mem_flatMap.mp hc
    rcases List.mem_cons.mp hc with rfl | hc
    · decide
    · exact hplain _ ((h.each s hs).plain c hc).1 rfl rfl

/-- A URL that was read is written so that its query and its fragment are found in its text. -/
theorem sections_text : sections u.text = (u.frontText, u.query, u.fragment) := by
  have htext : u.text.toList =
      (u.frontText ++ markText '?' u.query) ++ markText '#' u.fragment := by
    simp [text_eq, afterPath, frontText]
  have hmark (mark : Char) (part : Option String) :
      ∀ c ∈ (markText mark part).head?, decide (c = mark) = true := by
    intro c hc
    cases part with
    | none => cases hc
    | some s => exact decide_eq_true (Option.some.inj hc).symm
  have hwhole : cut (· = '#') u.text.toList =
      (u.frontText ++ markText '?' u.query, markText '#' u.fragment) := by
    rw [htext]
    refine cut_append (fun c hc => decide_eq_false ?_) (hmark '#' u.fragment)
    rcases List.mem_append.mp hc with hc | hc
    · exact (unmarked_frontText h hc).2
    · rintro rfl
      cases hquery : u.query with
      | none =>
        rw [hquery] at hc
        cases hc
      | some query =>
        rw [hquery] at hc
        rcases List.mem_cons.mp hc with hc | hc
        · cases hc
        · have hset := inQuery_of_querySet (h.query query hquery _ hc)
          cases hset
  have hfront : cut (· = '?') (u.frontText ++ markText '?' u.query) =
      (u.frontText, markText '?' u.query) :=
    cut_append (fun c hc => decide_eq_false (unmarked_frontText h hc).1) (hmark '?' u.query)
  unfold sections
  rw [hwhole]
  dsimp only
  rw [hfront]
  simp only [afterMark?_markText]

end Written

end Url

namespace HttpRequest

/-! ## Requests -/

/-- The parameters of a location that are not `null`, in order, with their values. -/
def sent (location : ParameterLocation) (parameters : List HttpParameter) (vars : Json.Fields) :
    List (String × Json) :=
  (parameters.filter fun p => p.location = location && !(p.value.resolve vars).isNull).map
    fun p => (p.name, p.value.resolve vars)

section Sent

variable (location : ParameterLocation) (parameters : List HttpParameter) (vars : Json.Fields)

theorem filter_arguments : (arguments parameters vars).filter (·.location = location) =
    (parameters.filter fun p => p.location = location && !(p.value.resolve vars).isNull).map
      fun p => ⟨p.name, p.location, p.value.resolve vars⟩ := by
  induction parameters with
  | nil => rfl
  | cons p rest ih =>
    unfold arguments at ih ⊢
    rw [List.map_cons, List.filter_cons, List.filter_cons]
    cases hnull : (p.value.resolve vars).isNull with
    | true => simpa [hnull] using ih
    | false =>
      by_cases hlocation : p.location = location
      · simp [hlocation, ih]
      · simpa [hlocation] using ih

theorem texts_arguments : texts location (arguments parameters vars) =
    (sent location parameters vars).map fun (name, v) => (name, v.valueText) := by
  rw [texts, filter_arguments, sent, List.map_map, List.map_map]
  rfl

theorem members_arguments :
    ((arguments parameters vars).filter (·.location = location)).map (fun a => (a.name, a.value)) =
      sent location parameters vars := by
  rw [filter_arguments, sent, List.map_map]
  rfl

theorem sent_congr {others : List HttpParameter} (hlocation : location ≠ .query)
    (h : others.filter (·.location ≠ .query) = parameters.filter (·.location ≠ .query)) :
    sent location others vars = sent location parameters vars := by
  have hkept (ps : List HttpParameter) :
      (ps.filter (·.location ≠ .query)).filter
          (fun p => p.location = location && !(p.value.resolve vars).isNull) =
        ps.filter fun p => p.location = location && !(p.value.resolve vars).isNull := by
    rw [List.filter_filter]
    refine List.filter_congr fun p _ => ?_
    by_cases hp : p.location = location
    · simp [hp, hlocation]
    · simp [hp]
  rw [sent, sent, ← hkept others, ← hkept parameters, h]

end Sent

/-- The URL of a request before its pairs are added. -/
def target (e : Endpoint) (args : List Argument) (base : Url) (own : List String) : Url :=
  { base with path := .segments ((filled e.path args).foldl
      (Url.pushSegment (Url.isSpecial base.scheme)) (Url.popEmptySegment own)) }

section Building

variable {e : Endpoint} {args : List Argument} {base : Url} {own : List String}
  (hbase : Url.parse e.baseUrl = .ok base) (hpath : base.path = .segments own)

include hbase hpath

/-- A base with segments is all that a request needs. -/
theorem exists_build : ∃ request, build e args = .ok request ∧
    request.url = ((target e args base own).withPairs (texts .query args)).text ∧
    request.body =
      if ((args.filter (·.location = .body)).map fun a => (a.name, a.value)).isEmpty then none
      else some (Json.ofMembers
        ((args.filter (·.location = .body)).map fun a => (a.name, a.value))) := by
  have hsegments : base.withSegments? (filled e.path args) = some (target e args base own) := by
    unfold Url.withSegments? target
    rw [hpath]
  unfold build
  rw [hbase]
  unfold filled at hsegments
  simp only [pure_bind, hsegments]
  exact ⟨_, rfl, rfl, rfl⟩

theorem sections_build {request : HttpRequest}
    (hurl : request.url = ((target e args base own).withPairs (texts .query args)).text) :
    Url.sections request.url = ((target e args base own).frontText,
      ((target e args base own).withPairs (texts .query args)).query, base.fragment) := by
  have hparsed := Url.isParsed_of_parse hbase hpath
  have hpopped := Url.isSegment_popEmptySegment hparsed.each
  have hpushed := Url.isSegment_foldl hpopped.1 (filled e.path args)
  have htarget : Url.IsParsed (target e args base own) _ := hparsed.withPath hpushed.1
  rw [hurl, Url.sections_text (htarget.withPairs _), Url.fragment_withPairs]
  have hfront : ((target e args base own).withPairs (texts .query args)).frontText =
      (target e args base own).frontText := by
    unfold Url.frontText Url.beforePath
    rw [Url.scheme_withPairs, Url.authority_withPairs, Url.path_withPairs]
  rw [hfront]
  rfl

end Building

/-- **Parameters are sent as they are.** Over a base that can carry a path the request is built,
whatever the parameters and the variables are. The pairs of its query are those of the base and then
the parameters of the query that are not `null`, in order, with their texts. What stands before the
query does not depend on them, and the fragment is that of the base. The body is the object in which
each name has the value of the last parameter of the body with that name that is not `null`; without
such parameters there is none. -/
theorem build_sends_parameters {e : Endpoint} {base : Url} {own : List String}
    (hbase : Url.parse e.baseUrl = .ok base) (hpath : base.path = .segments own)
    (parameters : List HttpParameter) (vars : Json.Fields) :
    ∃ request front query, build e (arguments parameters vars) = .ok request ∧
      Url.sections request.url = (front, query, base.fragment) ∧
      Url.pairsOf (query.getD "") = Url.pairsOf (base.query.getD "") ++
        (sent .query parameters vars).map (fun (name, v) => (name, v.valueText)) ∧
      (∀ others : List HttpParameter,
        others.filter (·.location ≠ .query) = parameters.filter (·.location ≠ .query) →
        ∃ other query', build e (arguments others vars) = .ok other ∧
          Url.sections other.url = (front, query', base.fragment)) ∧
      (sent .body parameters vars = [] → request.body = none) ∧
      (sent .body parameters vars ≠ [] → ∃ fields, request.body = some (.obj fields) ∧
        Json.Fields.Ordered fields ∧ ∀ name, Json.Fields.get? name fields =
          Json.Fields.last? name (sent .body parameters vars)) := by
  obtain ⟨request, hbuild, hurl, hbody⟩ :=
    @exists_build e (arguments parameters vars) base own hbase hpath
  have hsections := sections_build hbase hpath hurl
  rw [members_arguments] at hbody
  refine ⟨request, _, _, hbuild, hsections, ?_, fun others hothers => ?_, fun hnone => ?_,
    fun hsome => ?_⟩
  · rw [Url.pairsOf_withPairs, texts_arguments]
    rfl
  · obtain ⟨other, hbuild', hurl', -⟩ :=
      @exists_build e (arguments others vars) base own hbase hpath
    have hpaths : texts .path (arguments others vars) =
        texts .path (arguments parameters vars) := by
      rw [texts_arguments, texts_arguments, sent_congr .path parameters vars (by decide) hothers]
    have htarget : target e (arguments others vars) base own =
        target e (arguments parameters vars) base own := by
      unfold target filled
      rw [hpaths]
    have hsections' := sections_build hbase hpath hurl'
    rw [htarget] at hsections'
    exact ⟨other, _, hbuild', hsections'⟩
  · rw [hbody, hnone]
    rfl
  · rw [hbody, if_neg (by simpa using hsome)]
    exact ⟨_, rfl, Json.Fields.ordered_ofList _,
      fun name => Json.Fields.get?_ofList_eq_last? name _⟩

/-! ### A search -/

def search : Endpoint :=
  { method := "get", baseUrl := "https://api.example.com/find?lang=en&q#top", path := "" }

def searchVars : Json.Fields :=
  [("asked", .arr [.obj [("text", .str "first")], .obj [("text", .str "a&b=c+d %é#")]])]

/-- The second of these questions, which has the marks of queries in it, another one, and a body
with a name given twice. -/
def searchParameters : List HttpParameter :=
  [⟨"q", .query, .variable "asked" [.index 1, .key "text"]⟩, ⟨"skip", .query, .literal .null⟩,
    ⟨"n", .body, .literal (.ofNat 1)⟩, ⟨"q", .query, .literal (.obj [("?", .bool true)])⟩,
    ⟨"n", .body, .variable "asked" [.index 0, .key "text"]⟩, ⟨"n", .body, .variable "missing" []⟩]

/-- Marks in a value are read as parts of it, and what is `null` is not sent. -/
theorem build_sends_parameters_search : ∃ request front query,
    build search (arguments searchParameters searchVars) = .ok request ∧
    Url.sections request.url = (front, query, some "top") ∧
    Url.pairsOf (query.getD "") = [("lang", "en"), ("q", ""), ("q", "a&b=c+d %é#"),
      ("q", "\x7b\"?\":true\x7d")] ∧
    ∃ fields, request.body = some (.obj fields) ∧ Json.Fields.Ordered fields ∧
      Json.Fields.get? "n" fields = some (.str "first") := by
  have hbase : Url.parse search.baseUrl =
      .ok ⟨"https", some { host := .domain "api.example.com" }, .segments ["find"],
        some "lang=en&q", some "top"⟩ := by decide +kernel
  obtain ⟨request, front, query, hbuild, hsections, hpairs, -, -, hbody⟩ :=
    build_sends_parameters hbase rfl searchParameters searchVars
  have hsent : sent .body searchParameters searchVars =
      [("n", .ofNat 1), ("n", .str "first")] := rfl
  obtain ⟨fields, hfields, hordered, hget⟩ := hbody (by rw [hsent]; exact List.cons_ne_nil _ _)
  refine ⟨request, front, query, hbuild, hsections, ?_, fields, hfields, hordered, ?_⟩
  · have hquery : (sent .query searchParameters searchVars).map
        (fun (name, v) => (name, v.valueText)) =
        [("q", "a&b=c+d %é#"), ("q", "\x7b\"?\":true\x7d")] := by decide +kernel
    have hown : Url.pairsOf "lang=en&q" = [("lang", "en"), ("q", "")] := by decide +kernel
    rw [hpairs, hquery]
    exact congrArg (· ++ _) hown
  · rw [hget, hsent]
    rfl

end HttpRequest

end Agents
