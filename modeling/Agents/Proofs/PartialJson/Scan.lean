import Agents.PartialJson.Repair
import Agents.Proofs.Json.Reading
import Mathlib.Data.List.DropRight

/-! # What the beginning of a document leaves open

What a text opens and closes is the same wherever it stands outside of strings (`Leaves`), and so
are the places where it may be cut (`marks_append`); over the whole text of a tree as much is closed
as is opened (`leaves_tree`). A proper beginning of a container ends after its bracket, in the head
of an entry, in its value, or after it (`exists_ending`).
-/

namespace Agents.PartialJson

open Json

/-! ## Scanning -/

/-- The same with these brackets missing after its own. -/
def Scan.over (s : Scan) (base : List Char) : Scan := { s with closers := s.closers ++ base }

/-- Outside of strings the text leads here; what was open before it stays open. -/
def Leaves (text : List Char) (s : Scan) : Prop :=
  ∀ base, Scan.run { closers := base } text = s.over base

theorem Leaves.run {text : List Char} {s : Scan} (h : Leaves text s) : Scan.run {} text = s := by
  have hrun := h []
  rwa [Scan.over, List.append_nil] at hrun

theorem leaves_nil : Leaves [] {} := fun _ => rfl

theorem Leaves.append {a b cl : List Char} {s : Scan} (ha : Leaves a { closers := cl })
    (hb : Leaves b s) : Leaves (a ++ b) (s.over cl) := by
  intro base
  have hbase : Scan.over { closers := cl } base = { closers := cl ++ base } := rfl
  rw [Scan.run_append, ha base, hbase, hb (cl ++ base), Scan.over, Scan.over, Scan.over,
    List.append_assoc]

def marks (text : List Char) : List (List Char) := cuts {} [] text

/-- Where the cuts are depends only on what stands inside of strings. -/
theorem cuts_eq_map {s s' : Scan} (hstring : s.inString = s'.inString)
    (hescaped : s.escaped = s'.escaped) (before text : List Char) :
    cuts s before text = (cuts s' [] text).map (before.reverse ++ ·) := by
  induction text generalizing s s' before with
  | nil => rfl
  | cons c text ih =>
    have hstep : (s.step c).inString = (s'.step c).inString ∧
        (s.step c).escaped = (s'.step c).escaped := by
      unfold Scan.step
      rw [hstring, hescaped]
      split_ifs <;> simp_all
    rw [cuts, cuts, ih hstep.1 hstep.2, ih (s := s'.step c) rfl rfl [c], hstring, List.map_append,
      List.map_map]
    congr 1
    · split_ifs <;> simp
    · refine List.map_congr_left fun q _ => ?_
      simp

theorem cuts_append (s : Scan) (before a b : List Char) :
    cuts s before (a ++ b) = cuts s before a ++ cuts (s.run a) (a.reverse ++ before) b := by
  induction a generalizing s before with
  | nil => rfl
  | cons c a ih =>
    rw [List.cons_append, cuts, cuts, ih]
    simp [Scan.run]

theorem marks_append {a cl : List Char} (ha : Leaves a { closers := cl }) (b : List Char) :
    marks (a ++ b) = marks a ++ (marks b).map (a ++ ·) := by
  have hcuts : cuts { closers := cl } a.reverse b = (marks b).map (a ++ ·) := by
    rw [@cuts_eq_map { closers := cl } {} rfl rfl a.reverse b, List.reverse_reverse, marks]
  rw [marks, cuts_append, ha.run, List.append_nil, hcuts]
  rfl

/-! ## Silent pieces of text -/

/-- A piece of text outside of which nothing shows: it opens and closes nothing, and is not to be
cut. -/
structure Silent (text : List Char) : Prop where
  leaves : Leaves text {}
  marks : marks text = []

theorem silent_nil : Silent [] := ⟨leaves_nil, rfl⟩

theorem Silent.append {a b : List Char} (ha : Silent a) (hb : Silent b) : Silent (a ++ b) where
  leaves := ha.leaves.append hb.leaves
  marks := by rw [marks_append ha.leaves, ha.marks, hb.marks]; rfl

def isMark (c : Char) : Bool :=
  c = '"' || c = '\x7b' || c = '[' || c = '\x7d' || c = ']' || c = ','

theorem isMark_eq_false {c : Char} (h : isMark c = false) :
    c ≠ '"' ∧ c ≠ '\x7b' ∧ c ≠ '[' ∧ c ≠ '\x7d' ∧ c ≠ ']' ∧ c ≠ ',' := by
  simpa [isMark, and_assoc] using h

theorem silent_singleton {c : Char} (hc : isMark c = false) : Silent [c] := by
  obtain ⟨hquote, hbrace, hbracket, hclose, hclose', hcomma⟩ := isMark_eq_false hc
  constructor
  · intro base
    simp [Scan.run, Scan.step, Scan.over, hquote, hbrace, hbracket, hclose, hclose']
  · simp [marks, cuts, hbrace, hbracket, hcomma]

theorem silent_of_forall {s : List Char} (h : ∀ c ∈ s, isMark c = false) : Silent s := by
  induction s with
  | nil => exact silent_nil
  | cons c s ih =>
    exact (silent_singleton (h c List.mem_cons_self)).append
      (ih fun d hd => h d (List.mem_cons_of_mem c hd))

theorem silent_blank {b : List Char} (hb : Blank b) : Silent b := by
  refine silent_of_forall fun c hc => ?_
  rcases eq_of_isBlank (hb c hc) with rfl | rfl | rfl | rfl <;> rfl

theorem isMark_of_isNumeric {c : Char} (h : isNumeric c = true) : isMark c = false := by
  by_contra hmark
  simp only [isMark, Bool.not_eq_false, Bool.or_eq_true, decide_eq_true_eq, or_assoc] at hmark
  rcases hmark with rfl | rfl | rfl | rfl | rfl | rfl <;> exact absurd h (by decide)

theorem silent_numeric {s : List Char} (h : AllNumeric s) : Silent s :=
  silent_of_forall fun c hc => isMark_of_isNumeric (h c hc)

/-! ## Strings -/

theorem step_inString {st st' : StringState} {c : Char} (hquote : c = '"' → st.isEscaped = true)
    (hescape : st'.isEscaped = (!st.isEscaped && c = '\\')) (cl : List Char) :
    Scan.step ⟨true, st.isEscaped, cl⟩ c = ⟨true, st'.isEscaped, cl⟩ := by
  unfold Scan.step
  rw [hescape]
  cases h : st.isEscaped with
  | true => simp
  | false =>
    have hc : c ≠ '"' := fun hc => by
      rw [hquote hc] at h
      cases h
    by_cases hback : c = '\\' <;> simp [hback, hc]

/-- The whole of a string is scanned up to its quote, and nowhere cut. -/
theorem scan_spells {st : StringState} {raw cs : List Char} (h : Spells st raw cs)
    (cl before : List Char) : Scan.run ⟨true, st.isEscaped, cl⟩ raw = ⟨true, false, cl⟩ ∧
      cuts ⟨true, st.isEscaped, cl⟩ before raw = [] := by
  induction h generalizing before with
  | stop => exact ⟨rfl, rfl⟩
  | @go st st' c front raw cs hread hquote hescape hrest ih =>
    have hstep := step_inString hquote hescape cl
    rw [Scan.run, List.foldl_cons, hstep, cuts, hstep]
    exact ⟨(ih before).1, (ih (c :: before)).2⟩

theorem silent_quoted {raw cs : List Char} (h : Spells .plain raw cs) :
    Silent ('"' :: (raw ++ ['"'])) where
  leaves base := by
    have hraw := (scan_spells h base []).1
    show Scan.run ⟨true, StringState.isEscaped .plain, base⟩ (raw ++ ['"']) = _
    rw [Scan.run_append, hraw]
    rfl
  marks := by
    have hraw := (scan_spells h [] ['"']).1
    show cuts ⟨true, StringState.isEscaped .plain, []⟩ ['"'] (raw ++ ['"']) = []
    rw [cuts_append, (scan_spells h [] ['"']).2, hraw]
    rfl

/-- A quote ends a string here, or it is an error, whatever follows. -/
theorem string_quote {st : StringState} (h : st.isEscaped = false) :
    (st = .plain) ∨ ∀ r result, string st ('"' :: r) ≠ .ok result := by
  cases st with
  | plain => exact .inl rfl
  | escape => cases h
  | hex leading digits value =>
    refine .inr fun r result heq => ?_
    simp only [string, hexValue?_eq_none (.inl rfl)] at heq
    split at heq <;> cases heq
  | pairBackslash high =>
    refine .inr fun r result heq => ?_
    rw [string, if_neg (by decide)] at heq
    cases heq
  | pairLetter high => cases h

/-- What becomes of a beginning of a string when it is ended with a quote: a beginning of the
characters, or an error, whatever follows. -/
def Ended (st : StringState) (text cs : List Char) : Prop :=
  (∃ cs', cs' <+: cs ∧ ∀ r, string st (text ++ '"' :: r) = .ok (cs', r)) ∨
    ∀ r result, string st (text ++ '"' :: r) ≠ .ok result

theorem ended_nil {st : StringState} (h : st.isEscaped = false) (cs : List Char) :
    Ended st [] cs := by
  rcases string_quote h with rfl | herror
  · exact .inl ⟨[], List.nil_prefix, fun r => rfl⟩
  · exact .inr herror

theorem Ended.cons {st st' : StringState} {c : Char} {front : Option Char} {text cs : List Char}
    (hread : ∀ rest, string st (c :: rest) = emit front (string st' rest))
    (h : Ended st' text cs) : Ended st (c :: text) (front.toList ++ cs) := by
  rcases h with ⟨cs', hcs', hr⟩ | herror
  · refine .inl ⟨front.toList ++ cs', (List.prefix_append_right_inj _).mpr hcs', fun r => ?_⟩
    rw [List.cons_append, hread, hr]
    rfl
  · refine .inr fun r result h => ?_
    obtain ⟨cs, rest⟩ := result
    rw [List.cons_append, hread] at h
    obtain ⟨cs', hok, -⟩ := emit_eq_ok h
    exact herror r _ hok

/-- The beginning of a string leaves it open, and can be ended after a dangling backslash has been
dropped. -/
theorem exists_escaped {st : StringState} {raw cs x : List Char} (h : Spells st raw cs)
    (hx : x <+: raw) : ∃ e, (∀ cl, Scan.run ⟨true, st.isEscaped, cl⟩ x = ⟨true, e, cl⟩) ∧
      (x = [] → e = st.isEscaped) ∧
      ((x = [] → st.isEscaped = false) → Ended st (if e then x.dropLast else x) cs) := by
  induction h generalizing x with
  | stop =>
    obtain rfl := List.prefix_nil.mp hx
    exact ⟨false, fun cl => rfl, fun _ => rfl, fun _ => ended_nil rfl _⟩
  | @go st st' c front raw cs hread hquote hescape _ ih =>
    cases x with
    | nil =>
      refine ⟨st.isEscaped, fun cl => rfl, fun _ => rfl, fun h => ?_⟩
      rw [h rfl]
      exact ended_nil (h rfl) _
    | cons d x =>
    obtain ⟨rfl, hrest⟩ := List.cons_prefix_cons.mp hx
    obtain ⟨e, hscan, hnil, hended⟩ := ih hrest
    refine ⟨e, fun cl => ?_, nofun, fun _ => ?_⟩
    · rw [Scan.run, List.foldl_cons, step_inString hquote hescape]
      exact hscan cl
    · by_cases hdangling : x = [] ∧ e = true
      · -- the backslash is the last character
        obtain ⟨rfl, rfl⟩ := hdangling
        have hst : st.isEscaped = false := by
          have hst' := hescape.symm.trans (hnil rfl).symm
          simp only [Bool.and_eq_true, Bool.not_eq_true'] at hst'
          exact hst'.1
        exact ended_nil hst _
      · have hdrop : (if e = true then (d :: x).dropLast else d :: x) =
            d :: (if e = true then x.dropLast else x) := by
          cases e with
          | false => rfl
          | true => simp [List.dropLast_cons_of_ne_nil (fun h => hdangling ⟨h, rfl⟩)]
        rw [hdrop]
        refine (hended fun h => ?_).cons hread
        rw [← hnil h]
        exact Bool.eq_false_iff.mpr fun he => hdangling ⟨h, he⟩

theorem leaves_quoted {raw cs x : List Char} (h : Spells .plain raw cs) (hx : x <+: raw) :
    ∃ e, Leaves ('"' :: x) ⟨true, e, []⟩ ∧ (x = [] → e = false) ∧
      Ended .plain (if e then x.dropLast else x) cs := by
  obtain ⟨e, hscan, hnil, hended⟩ := exists_escaped h hx
  exact ⟨e, hscan, hnil, hended fun _ => rfl⟩

/-! ## Trees -/

theorem silent_head {kind : Container} {head : List Char} {name : String}
    (h : IsHead kind head name) : Silent head := by
  cases h with
  | list hb => exact silent_blank hb
  | @object b raw cs b' b'' hb hname hb' hb'' =>
    have hquoted := silent_quoted (spells_of_quoted hname)
    have hcolon : Silent [':'] := silent_singleton rfl
    have hall := (silent_blank hb).append (hquoted.append
      ((silent_blank hb').append (hcolon.append (silent_blank hb''))))
    simpa using hall

theorem silent_scalar {text : List Char} {json : Json} (h : IsScalar text json) : Silent text := by
  cases h with
  | number h => exact silent_numeric (number_text h).1
  | string h => exact silent_quoted (spells_of_quoted h)
  | _ => exact silent_of_forall (by simp [isMark])

/-! ## Containers -/

theorem leaves_opener (kind : Container) : Leaves [kind.opener] { closers := [kind.closer] } := by
  cases kind <;> exact fun _ => rfl

theorem leaves_comma : Leaves [','] {} := fun _ => rfl

theorem leaves_closer (kind : Container) {text : List Char}
    (h : Leaves text { closers := [kind.closer] }) : Leaves (text ++ [kind.closer]) {} := by
  intro base
  rw [Scan.run_append, h base]
  cases kind <;> rfl

theorem leaves_text {e : Entry ParseTree} {kind : Container} (hhead : IsHead kind e.head e.name)
    (hafter : Blank e.after) (htree : Leaves e.tree.text {}) : Leaves e.text {} :=
  (silent_head hhead).leaves.append (htree.append (silent_blank hafter).leaves)

theorem leaves_ahead {done : List (Entry ParseTree)} (h : ∀ e ∈ done, Leaves e.text {}) :
    Leaves (ahead done) {} := by
  induction done with
  | nil => exact leaves_nil
  | cons e done ih =>
    rw [ahead, List.flatMap_cons]
    exact ((h e List.mem_cons_self).append leaves_comma).append
      (ih fun e' he' => h e' (List.mem_cons_of_mem e he'))

theorem leaves_opening {kind : Container} {lead : List Char} (hlead : Blank lead)
    {done : List (Entry ParseTree)} (h : ∀ e ∈ done, Leaves e.text {}) :
    Leaves (opening kind lead done) { closers := [kind.closer] } :=
  (leaves_opener kind).append ((silent_blank hlead).leaves.append (leaves_ahead h))

theorem leaves_joined {entries : List (Entry ParseTree)} (h : ∀ e ∈ entries, Leaves e.text {}) :
    Leaves (ParseTree.joined entries) {} := by
  rcases entries.eq_nil_or_concat with rfl | ⟨done, e, rfl⟩
  · exact leaves_nil
  · rw [List.concat_eq_append] at h ⊢
    obtain ⟨hdone, he⟩ := List.forall_mem_append.mp h
    rw [ParseTree.joined_append, ParseTree.joined_cons]
    exact (leaves_ahead hdone).append ((he e List.mem_cons_self).append leaves_nil)

theorem leaves_tree {d : Nat} {t : ParseTree} (h : t.Valid d) : Leaves t.text {} := by
  induction h with
  | scalar h => exact (silent_scalar h).leaves
  | @node d kind lead entries hlead hentries htrees ih =>
    have hjoined : Leaves (ParseTree.joined entries) {} := leaves_joined fun e he =>
      leaves_text (hentries e he).1 (hentries e he).2 (ih e he)
    have hclosed := leaves_closer kind
      ((leaves_opener kind).append ((silent_blank hlead).leaves.append hjoined))
    simpa [ParseTree.text_node] using hclosed

/-! ## Beginnings -/

/-- Where a proper beginning of the text of a container ends. -/
inductive Ending (kind : Container) (lead : List Char) (entries : List (Entry ParseTree)) :
    List Char → Prop where
  | lead {b : List Char} (hb : b <+: lead) : Ending kind lead entries (kind.opener :: b)
  | head {done rest : List (Entry ParseTree)} {e : Entry ParseTree} {x : List Char}
      (h : entries = done ++ e :: rest) (hx : x <+: e.head) :
      Ending kind lead entries (opening kind lead done ++ x)
  | tree {done rest : List (Entry ParseTree)} {e : Entry ParseTree} {y : List Char}
      (h : entries = done ++ e :: rest) (hy : y <+: e.tree.text) (hne : y ≠ [])
      (hproper : y ≠ e.tree.text) :
      Ending kind lead entries (opening kind lead done ++ (e.head ++ y))
  | after {done rest : List (Entry ParseTree)} {e : Entry ParseTree} {b : List Char}
      (h : entries = done ++ e :: rest) (hb : b <+: e.after) :
      Ending kind lead entries (opening kind lead done ++ (e.head ++ (e.tree.text ++ b)))

/-- A beginning of the entries of a container ends in one of them. -/
theorem exists_of_prefix_joined {entries : List (Entry ParseTree)} {z : List Char}
    (hne : entries ≠ []) (h : z <+: ParseTree.joined entries) :
    ∃ done e rest x, entries = done ++ e :: rest ∧ x <+: e.text ∧ z = ahead done ++ x := by
  induction entries generalizing z with
  | nil => exact absurd rfl hne
  | cons e rest ih =>
    cases rest with
    | nil => exact ⟨[], e, [], z, rfl, by simpa [ParseTree.joined_cons, trail] using h, rfl⟩
    | cons e' rest =>
      have hjoined : ParseTree.joined (e :: e' :: rest) =
          ahead [e] ++ ParseTree.joined (e' :: rest) := ParseTree.joined_append [e] e' rest
      rw [hjoined] at h
      rcases prefix_append_or h with h | ⟨z, rfl, hz⟩
      · have hahead : ahead [e] = e.text ++ [','] := by simp [ahead]
        rw [hahead] at h
        rcases List.prefix_concat_iff.mp h with rfl | h
        · exact ⟨[e], e', rest, [], rfl, List.nil_prefix, by simp [ahead]⟩
        · exact ⟨[], e, e' :: rest, z, rfl, h, rfl⟩
      · obtain ⟨done, e'', rest', x, heq, hx, rfl⟩ := ih (by simp) hz
        exact ⟨e :: done, e'', rest', x, by rw [heq]; rfl, hx, by simp [ahead]⟩

/-- Every proper beginning of the text of a container has one of these endings. -/
theorem exists_ending {kind : Container} {lead : List Char} {entries : List (Entry ParseTree)}
    {y : List Char} (h : y <+: (ParseTree.node kind lead entries).text) (hne : y ≠ [])
    (hproper : y ≠ (ParseTree.node kind lead entries).text) : Ending kind lead entries y := by
  rw [ParseTree.text_node] at h hproper
  cases y with
  | nil => exact absurd rfl hne
  | cons c y =>
  obtain ⟨rfl, hy⟩ := List.cons_prefix_cons.mp h
  rcases prefix_append_or hy with hy | ⟨z, rfl, hz⟩
  · exact .lead hy
  rcases List.prefix_concat_iff.mp hz with rfl | hz
  · exact absurd rfl hproper
  rcases entries.eq_nil_or_concat with rfl | ⟨init, last, hlast⟩
  · obtain rfl := List.prefix_nil.mp hz
    exact .lead (by simp)
  have hentries : entries ≠ [] := by simp [hlast]
  obtain ⟨done, e, rest, x, hsplit, hx, rfl⟩ := exists_of_prefix_joined hentries hz
  have hopening (s : List Char) : kind.opener :: (lead ++ (ahead done ++ s)) =
      opening kind lead done ++ s := by simp [opening]
  rw [hopening]
  rcases prefix_append_or hx with hx | ⟨z, rfl, hvalue⟩
  · exact .head hsplit hx
  rcases prefix_append_or hvalue with hz | ⟨b, rfl, hb⟩
  · by_cases hzero : z = []
    · subst hzero
      exact .head hsplit (by simp)
    by_cases hwhole : z = e.tree.text
    · subst hwhole
      have hending : Ending kind lead entries
          (opening kind lead done ++ (e.head ++ (e.tree.text ++ []))) :=
        .after hsplit List.nil_prefix
      simpa using hending
    · exact .tree hsplit hz hzero hwhole
  · exact .after hsplit hb

end Agents.PartialJson
