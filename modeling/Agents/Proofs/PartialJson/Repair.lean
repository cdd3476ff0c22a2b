import Agents.Proofs.PartialJson.Container

/-! # Repair neither invents nor drops

The beginning of a document is repaired to a value that the document may have been before it was
finished, and everything that was followed by a comma or an opening bracket is in it as it finally
is (`repair_agrees`). When closing the beginning does not do, the last place to cut does, and no
other cut goes further (`repair_cut`).
-/

namespace Agents.PartialJson

open Json

/-! ## Where a text may be cut -/

/-- Whether a text ends inside of a string, when it begins inside of one or not. A backslash inside
of a string takes the next character with it. -/
def endsInString : (inside : Bool) → List Char → Bool
  | inside, [] => inside
  | false, c :: s => endsInString (c = '"') s
  | true, ['\\'] => true
  | true, '\\' :: _ :: s => endsInString true s
  | true, c :: s => endsInString (c ≠ '"') s

theorem run_inString (inside : Bool) (s : List Char) (cl : List Char) :
    (Scan.run ⟨inside, false, cl⟩ s).inString = endsInString inside s := by
  fun_induction endsInString inside s generalizing cl with
  | case1 => rfl
  | case2 c s ih =>
    obtain ⟨cl', hstep⟩ : ∃ cl', Scan.step ⟨false, false, cl⟩ c = ⟨c = '"', false, cl'⟩ := by
      unfold Scan.step
      by_cases hquote : c = '"'
      · exact ⟨cl, by simp [hquote]⟩
      · simp only [Bool.false_eq_true, if_false, hquote, decide_false]
        split_ifs <;> exact ⟨_, rfl⟩
    rw [Scan.run, List.foldl_cons, hstep]
    exact ih cl'
  | case3 => rfl
  | case4 c s ih => exact ih cl
  | case5 c s hlast hmore ih =>
    have hback : c ≠ '\\' := by
      rintro rfl
      cases s with
      | nil => exact hlast rfl rfl
      | cons d s => exact hmore d s rfl rfl
    have hstep : Scan.step ⟨true, false, cl⟩ c = ⟨c ≠ '"', false, cl⟩ := by
      by_cases hquote : c = '"' <;> simp [Scan.step, hback, hquote]
    rw [Scan.run, List.foldl_cons, hstep]
    exact ih cl

/-- A text and one of its beginnings after which stands a comma or an opening bracket outside of
strings. -/
def IsPassed (text front : List Char) : Prop :=
  ∃ m c, m ++ [c] <+: text ∧ (c = ',' ∨ c = '[' ∨ c = '\x7b') ∧ endsInString false m = false ∧
    front <+: m

theorem pairwise_cuts (s : Scan) (before text : List Char) :
    (cuts s before text).Pairwise (· <+: ·) := by
  induction text generalizing s before with
  | nil => exact .nil
  | cons c text ih =>
    rw [cuts]
    refine List.pairwise_append.mpr ⟨?_, ih _ _, fun a ha b hb => ?_⟩
    · split_ifs <;> simp
    · have hfront := (isPrefix_of_mem_cuts hb).1
      split_ifs at ha
      · cases ha
      · exact (List.mem_singleton.mp ha) ▸ hfront
      · rw [List.mem_singleton.mp ha]
        rw [List.reverse_cons] at hfront
        exact (List.prefix_append _ _).trans hfront
      · cases ha

/-- At every comma and at every opening bracket outside of strings the text may be cut. -/
theorem exists_mem_marks {text front : List Char} (h : IsPassed text front) :
    ∃ q ∈ marks text, front <+: q := by
  obtain ⟨m, c, ⟨rest, rfl⟩, hc, hm, hfront⟩ := h
  have hout : (Scan.run {} m).inString = false := (run_inString false m []).trans hm
  have hmem : ∃ q ∈ cuts (Scan.run {} m) (m.reverse ++ []) (c :: rest), m <+: q := by
    rw [cuts, hout, List.append_nil]
    rcases hc with rfl | rfl | rfl
    · exact ⟨m, by simp, List.prefix_rfl⟩
    · exact ⟨m ++ ['['], by simp, List.prefix_append _ _⟩
    · exact ⟨m ++ ['\x7b'], by simp, List.prefix_append _ _⟩
  obtain ⟨q, hq, hmq⟩ := hmem
  refine ⟨q, ?_, hfront.trans hmq⟩
  rw [List.append_assoc, marks, cuts_append]
  exact List.mem_append_right _ hq

/-! ## Documents that have begun -/

theorem value?_eq_some_iff {s : List Char} {v : Json} :
    value? s = some v ↔ document s = .ok v := by
  unfold value?
  cases document s <;> simp [Except.toOption]

section Document

variable {before y : List Char} {t : ParseTree} (hbefore : Blank before) (ht : t.Valid maxDepth)

include hbefore

theorem value?_open {s : Scan} (hy : Leaves y s) (hopen : s.closers ≠ []) :
    value? (before ++ y) = none := by
  by_contra h
  obtain ⟨v, hv⟩ := Option.ne_none_iff_exists'.mp h
  obtain ⟨spelling, -⟩ := exists_spelling (value?_eq_some_iff.mp hv)
  have hleaves : Leaves (before ++ y) {} := by
    rw [spelling.text_eq]
    exact (silent_blank spelling.blank_before).leaves.append
      ((leaves_tree spelling.valid).append (silent_blank spelling.blank_after).leaves)
  have hboth : Leaves (before ++ y) (s.over []) := (silent_blank hbefore).leaves.append hy
  have heq := hleaves.run.symm.trans hboth.run
  rw [Scan.over, List.append_nil] at heq
  exact hopen (congrArg Scan.closers heq).symm

include ht

theorem close_document (hy : y <+: t.text) (hne : y ≠ []) :
    close (before ++ y) = before ++ close y := by
  obtain ⟨s, hs⟩ := exists_leaves ht hy
  rw [close_append (silent_blank hbefore).leaves hs (starts_of_isPrefix ht hy hne),
    List.append_nil]

theorem value?_reads (hy : y <+: t.text) (hne : y ≠ []) {v : Json}
    (h : Reads maxDepth (close y) v) : value? (close (before ++ y)) = some v := by
  rw [value?_eq_some_iff, close_document hbefore ht hy hne, document_eq_ok_iff]
  refine ⟨[], ?_, blank_nil⟩
  rw [value_blank _ hbefore]
  simpa using h [] nofun

theorem value?_fails (hy : y <+: t.text) (hne : y ≠ []) (h : Fails maxDepth y) :
    value? (close (before ++ y)) = none := by
  by_contra hsome
  obtain ⟨v, hv⟩ := Option.ne_none_iff_exists'.mp hsome
  rw [value?_eq_some_iff, close_document hbefore ht hy hne, document_eq_ok_iff] at hv
  obtain ⟨rest, hvalue, hrest⟩ := hv
  rw [value_blank _ hbefore] at hvalue
  exact h [] nofun v rest (by simpa using hvalue) (halts_blank hrest)

end Document

/-! ## Repair -/

theorem isPrefix_of_isPassed {text front : List Char} (h : IsPassed text front) :
    front <+: text := by
  obtain ⟨m, c, hm, -, -, hfront⟩ := h
  exact (hfront.trans (List.prefix_append m [c])).trans hm

theorem marks_isPrefix {y text : List Char} (h : y <+: text) : marks y <+: marks text := by
  obtain ⟨z, rfl⟩ := h
  rw [marks, marks, cuts_append]
  exact List.prefix_append _ _

/-- The value keeps the parts that end in the text before a comma or an opening bracket. -/
def KeepsPassed (text before : List Char) (t : ParseTree) (v : Json) : Prop :=
  ∀ path front part, t.Part path front part → IsPassed text (before ++ front) →
    v.at? path = some part.value

section Document

variable {before y : List Char} {p : String} {t : ParseTree}

/-- What a text is repaired to: the value of a beginning of it once that is closed, where the
beginning is the whole text, or else ends at the last place to cut. -/
structure Repaired (y q : List Char) (t : ParseTree) (v : Json) : Prop where
  reads : Reads maxDepth (close q) v
  below : Below v t
  keeps : Keeps q t v
  source : q = y ∨ Fails maxDepth y ∧ q ∈ marks y ∧ ∀ q' ∈ marks y, q' <+: q

theorem repair_cut (hbefore : Blank before) (ht : t.Valid maxDepth) (hdistinct : t.Distinct)
    (hp : p.toList = before ++ y) (hy : y <+: t.text) (hne : y ≠ []) (hmarks : marks y ≠ [])
    (hnone : value? p.toList = none) (hfails : Fails maxDepth y) :
    ∃ q v, repair p = some v ∧ Repaired y q t v := by
  have hclose : value? (close p.toList) = none := hp ▸ value?_fails hbefore ht hy hne hfails
  have hall : marks p.toList = (marks y).map (before ++ ·) := by
    rw [hp, marks_append (silent_blank hbefore).leaves, (silent_blank hbefore).marks]
    rfl
  obtain hnil | ⟨l, q, hlast⟩ := (marks y).eq_nil_or_concat
  · exact absurd hnil hmarks
  rw [List.concat_eq_append] at hlast
  have hmem : q ∈ marks y := by simp [hlast]
  have hq : q ∈ marks t.text := (marks_isPrefix hy).subset hmem
  obtain ⟨v, hread, hbelow, hkeeps⟩ := closes_of_mem_marks ht hdistinct hq
  have hv := value?_reads hbefore ht (isPrefix_of_mem_marks hq) (ne_nil_of_mem_marks ht hq) hread
  have hreverse : (cuts {} [] p.toList).reverse =
      (before ++ q) :: (l.map (before ++ ·)).reverse := by
    show (marks p.toList).reverse = _
    rw [hall, hlast]
    simp
  refine ⟨q, v, ?_, hread, hbelow, hkeeps, .inr ⟨hfails, hmem, fun q' hq' => ?_⟩⟩
  · simp only [repair, hnone, hclose, hreverse, List.findSome?_cons, hv]
    rfl
  · -- no other cut goes further
    have hsorted : (marks y).Pairwise (· <+: ·) := pairwise_cuts {} [] y
    rw [hlast] at hsorted hq'
    rcases List.mem_append.mp hq' with hq' | hq'
    · exact (List.pairwise_append.mp hsorted).2.2 q' hq' q (by simp)
    · exact List.mem_singleton.mp hq' ▸ List.prefix_rfl

theorem Repaired.keepsPassed {q : List Char} {v : Json} (h : Repaired y q t v)
    (hbefore : Blank before) (hp : p.toList = before ++ y) :
    KeepsPassed p.toList before t v := by
  intro path front part hpart hpassed
  refine h.keeps path front part hpart ?_
  rcases h.source with rfl | ⟨-, -, hlast⟩
  · have hfront := isPrefix_of_isPassed hpassed
    rw [hp] at hfront
    exact (List.prefix_append_right_inj before).mp hfront
  · obtain ⟨cut, hcut, hfront⟩ := exists_mem_marks hpassed
    rw [hp, marks_append (silent_blank hbefore).leaves, (silent_blank hbefore).marks,
      List.nil_append] at hcut
    obtain ⟨q', hq', rfl⟩ := List.mem_map.mp hcut
    exact ((List.prefix_append_right_inj before).mp hfront).trans (hlast q' hq')

theorem exists_repaired {kind : Container} {lead : List Char} {entries : List (Entry ParseTree)}
    (hbefore : Blank before) (ht : (ParseTree.node kind lead entries).Valid maxDepth)
    (hdistinct : (ParseTree.node kind lead entries).Distinct) (hp : p.toList = before ++ y)
    (hy : y <+: (ParseTree.node kind lead entries).text) (hne : y ≠ [])
    (hproper : y ≠ (ParseTree.node kind lead entries).text) :
    ∃ q v, repair p = some v ∧ Repaired y q (.node kind lead entries) v := by
  obtain ⟨hlead, hentries⟩ := valid_node (d := 126) ht
  obtain ⟨s, hs, hopen⟩ := exists_leaves_ending hlead hentries
    (fun e he y hy => exists_leaves (hentries e he).2.2 hy) (exists_ending hy hne hproper)
  have hnone : value? p.toList = none := hp ▸ value?_open hbefore hs hopen
  rcases closes_or_fails ht hdistinct hy hne hproper with ⟨v, hread, hbelow, hkeeps⟩ | hfails
  · have hv := value?_reads hbefore ht hy hne hread
    rw [← hp] at hv
    refine ⟨y, v, ?_, hread, hbelow, hkeeps, .inl rfl⟩
    simp only [repair, hnone, hv]
    rfl
  · have hmarks : marks y ≠ [] := List.ne_nil_of_mem (opener_mem_marks hy hne)
    exact repair_cut hbefore ht hdistinct hp hy hne hmarks hnone hfails

theorem repair_begun {kind : Container} {lead : List Char} {entries : List (Entry ParseTree)}
    (hbefore : Blank before) (ht : (ParseTree.node kind lead entries).Valid maxDepth)
    (hdistinct : (ParseTree.node kind lead entries).Distinct) (hp : p.toList = before ++ y)
    (hy : y <+: (ParseTree.node kind lead entries).text) (hne : y ≠ [])
    (hproper : y ≠ (ParseTree.node kind lead entries).text) : ∃ v, repair p = some v ∧
      Below v (.node kind lead entries) ∧
      KeepsPassed p.toList before (.node kind lead entries) v := by
  obtain ⟨q, v, hv, hrepaired⟩ := exists_repaired hbefore ht hdistinct hp hy hne hproper
  exact ⟨v, hv, hrepaired.below, hrepaired.keepsPassed hbefore hp⟩

end Document

/-- A document that has come to its end is repaired to itself. -/
theorem repair_whole {text p : String} (s : Spelling text.toList) {b : List Char}
    (hp : p.toList = s.before ++ (s.tree.text ++ b)) (hb : b <+: s.after) :
    repair p = some s.tree.value := by
  let whole : Spelling p.toList :=
    ⟨s.before, s.tree, b, s.blank_before, s.valid, s.blank_after.mono hb, hp⟩
  simp only [repair, value?_eq_some_iff.mpr whole.document_eq]
  rfl

theorem repair_finished {text p : String} (s : Spelling text.toList) (hdistinct : s.tree.Distinct)
    {b : List Char} (hp : p.toList = s.before ++ (s.tree.text ++ b)) (hb : b <+: s.after) :
    ∃ v, repair p = some v ∧ Below v s.tree ∧ KeepsPassed p.toList s.before s.tree v :=
  ⟨s.tree.value, repair_whole s hp hb, .same _, fun _ _ _ hpart _ => hpart.at?_value hdistinct⟩

theorem exists_node {d : Nat} {t : ParseTree} (ht : t.Valid d)
    (h : (∃ items, t.value = .arr items) ∨ ∃ fields, t.value = .obj fields) :
    ∃ kind lead entries, t = .node kind lead entries := by
  cases t with
  | node kind lead entries => exact ⟨kind, lead, entries, rfl⟩
  | scalar text json =>
    exfalso
    cases ht with
    | scalar hscalar =>
      rcases h with ⟨items, h⟩ | ⟨fields, h⟩ <;>
        rw [ParseTree.value] at h <;> subst h <;> cases hscalar

/-- Every text that is read as an array or an object spells it in a tree, and of every beginning of
the text that has come to the first bracket, `repair` makes a value that the final one may be before
it is finished, and that has, as they finally are, all the parts that end before the last comma or
opening bracket outside of strings. -/
theorem repair_agrees {text : String} {final : Json} (hparse : Json.parse text = .ok final)
    (hcontainer : (∃ items, final = .arr items) ∨ ∃ fields, final = .obj fields) :
    Nonempty (Spelling text.toList) ∧ ∀ s : Spelling text.toList, s.tree.value = final ∧
      (s.tree.Distinct → ∀ p : String, p.toList <+: text.toList →
        s.before.length < p.toList.length → ∃ v, repair p = some v ∧ Below v s.tree ∧
          KeepsPassed p.toList s.before s.tree v) := by
  have hdocument := parse_eq_ok_iff.mp hparse
  obtain ⟨spelling, -⟩ := exists_spelling hdocument
  refine ⟨⟨spelling⟩, fun s => ?_⟩
  have hvalue : s.tree.value = final := by
    have heq := s.document_eq
    rw [hdocument] at heq
    exact (Except.ok.inj heq).symm
  refine ⟨hvalue, fun hdistinct p hp hlength => ?_⟩
  obtain ⟨kind, lead, entries, hnode⟩ := exists_node s.valid (hvalue ▸ hcontainer)
  rw [s.text_eq] at hp
  rcases prefix_append_or hp with hshort | ⟨y, hy, hrest⟩
  · exact absurd hshort.length_le (not_le.mpr hlength)
  rcases prefix_append_or hrest with hbegun | ⟨b, rfl, hb⟩
  · by_cases hwhole : y = s.tree.text
    · exact repair_finished s hdistinct (b := []) (by rw [hy, hwhole, List.append_nil])
        List.nil_prefix
    · have hne : y ≠ [] := by
        rintro rfl
        rw [hy] at hlength
        simp at hlength
      have hvalid := s.valid
      rw [hnode] at hvalid hdistinct hbegun hwhole ⊢
      exact repair_begun s.blank_before hvalid hdistinct hy hbegun hne hwhole
  · exact repair_finished s hdistinct hy hb

/-- A list of a number and an object with one member. -/
def draft : String := "[1,\x7b\"a\":\"b\"\x7d]"

def draftTree : ParseTree :=
  .node .list [] [
    ⟨"", [], .scalar ['1'] (.ofNat 1), []⟩,
    ⟨"", [], .node .object [] [
      ⟨"a", ['"', 'a', '"', ':'], .scalar ['"', 'b', '"'] (.str "b"), []⟩], []⟩]

def draftBegun : String := "[1,\x7b\"a\":\"b"

theorem valid_draftTree : draftTree.Valid maxDepth := by
  have hname : IsHead .object ['"', 'a', '"', ':'] "a" :=
    @IsHead.object [] ['a'] ['a'] [] [] blank_nil rfl blank_nil blank_nil
  have hnumber : IsScalar ['1'] (.ofNat 1) := .number rfl
  have hstring : IsScalar ['"', 'b', '"'] (.str "b") := @IsScalar.string ['b'] ['b'] rfl
  have hmember : (ParseTree.node .object []
      [⟨"a", ['"', 'a', '"', ':'], .scalar ['"', 'b', '"'] (.str "b"), []⟩]).Valid 126 :=
    .node (d := 125) blank_nil (by simpa [Blank] using hname) (by simpa using .scalar hstring)
  refine .node (d := 126) blank_nil ?_ ?_
  · simpa [Blank] using IsHead.list (b := []) blank_nil
  · simpa using ⟨.scalar hnumber, hmember⟩

theorem distinct_draftTree : draftTree.Distinct := by
  have hmember : (ParseTree.node .object []
      [⟨"a", ['"', 'a', '"', ':'], .scalar ['"', 'b', '"'] (.str "b"), []⟩]).Distinct :=
    .node (by simp) (by simpa using .scalar)
  exact .node nofun (by simpa using ⟨.scalar, hmember⟩)

def draftSpelling : Spelling draft.toList :=
  ⟨[], draftTree, [], blank_nil, valid_draftTree, blank_nil, by decide +kernel⟩

/-- The number ends before the last comma, so it is kept. -/
theorem repair_agrees_draft : Json.parse draft = .ok draftTree.value ∧
    ∃ v, repair draftBegun = some v ∧ Below v draftTree ∧ v.at? [.index 0] = some (.ofNat 1) := by
  have hparse : Json.parse draft = .ok draftTree.value :=
    parse_eq_ok_iff.mpr draftSpelling.document_eq
  obtain ⟨-, hall⟩ := repair_agrees hparse (.inl ⟨_, rfl⟩)
  obtain ⟨v, hv, hbelow, hkeeps⟩ := (hall draftSpelling).2 distinct_draftTree draftBegun
    (by decide +kernel) (by decide +kernel)
  refine ⟨hparse, v, hv, hbelow, hkeeps [.index 0] ['[', '1'] (.scalar ['1'] (.ofNat 1)) ?_ ?_⟩
  · exact @ParseTree.Part.entry .list [] [] _ _ _ _ _ .here
  · exact ⟨['[', '1'], ',', by decide +kernel, .inl rfl, rfl, List.prefix_rfl⟩

end Agents.PartialJson
