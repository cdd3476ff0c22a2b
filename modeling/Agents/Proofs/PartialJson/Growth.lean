import Agents.Proofs.PartialJson.Repair
import Agents.Proofs.PartialJson.Shown

/-! # Repaired documents grow

While a document is being written, `repair` shows more and more of it: whatever a shorter beginning
shows, a longer one shows, too, unless the longer one breaks off inside of that very number or
string, where it cannot be read (`repair_grows`). Such a scalar spoils all containers around it
(`fails_of_stuck`), so the text is cut, and the last cut loses the scalar and nothing else
(`begun_cut`, `not_begun_of_mem_marks`).
-/

namespace Agents.PartialJson

open Json

/-! ## Scalars that break off -/

/-- The words of JSON, which are not read before their last letter. -/
inductive IsWord : Json → Prop where
  | nullWord : IsWord .null
  | boolWord (b : Bool) : IsWord (.bool b)

/-- What has been written of a number or a string and cannot be read: a number after a sign, a point
or an `e`, or one that is out of range; a string inside of a `\u` escape. -/
inductive Unreadable : Json → List Char → Prop where
  | mark {n : Number} {y : List Char} (h : ¬ EndsInDigit y) : Unreadable (.num n) y
  | range {n : Number} {y : List Char} {unread : Nat}
      (h : number y = .error ⟨.numberOutOfRange, unread⟩) : Unreadable (.num n) y
  | escape {s : String} {x : List Char} (h : InEscape x) : Unreadable (.str s) ('"' :: x)

theorem exists_number {d : Nat} {text y : List Char} {n : Number} {v : Json}
    (h : number text = .ok (n, [])) (hy : y <+: text) (hne : y ≠ []) (hread : Reads d y v) :
    ∃ n', number y = .ok (n', []) := by
  obtain ⟨c, text, rfl, hc⟩ := head_of_number h
  cases y with
  | nil => exact absurd rfl hne
  | cons e y =>
  obtain ⟨rfl, -⟩ := List.cons_prefix_cons.mp hy
  have hvalue := hread [] nofun
  rw [List.append_nil, value_number d hc] at hvalue
  cases hnumber : number (e :: y) with
  | error fault =>
    rw [hnumber] at hvalue
    cases hvalue
  | ok result =>
    obtain ⟨n', left⟩ := result
    rw [hnumber] at hvalue
    cases hvalue
    exact ⟨n', rfl⟩

theorem fails_number_iff {d : Nat} {text y : List Char} {n : Number}
    (h : number text = .ok (n, [])) (hy : y <+: text) (hne : y ≠ []) (hproper : y ≠ text) :
    Fails d y ↔ Unreadable (.num n) y := by
  have hclose : close y = y := close_numeric (fun c hc => (number_text h).1 c (hy.subset hc)) hne
  constructor
  · intro hfails
    by_contra hreadable
    have hend : EndsInDigit y := by
      by_contra hend
      exact hreadable (.mark hend)
    obtain ⟨n', hread⟩ := (number_begun h hy hne).mpr
      ⟨hend, fun unread hrange => hreadable (.range hrange)⟩
    refine hfails.not_reads (v := .num n') ?_
    rw [hclose]
    exact (IsScalar.number hread).reads d
  · intro hunreadable
    rcases closes_or_fails_number (d := d) h hy hne hproper with ⟨v, hread, -⟩ | hfails
    · exfalso
      rw [hclose] at hread
      obtain ⟨hend, hrange⟩ := (number_begun h hy hne).mp (exists_number h hy hne hread)
      cases hunreadable with
      | mark hmark => exact hmark hend
      | range hread => exact hrange _ hread
    · exact hfails

theorem run_quoted {x cs : List Char} (hx : Spells .plain x cs) :
    Scan.run {} ('"' :: x) = ⟨true, false, []⟩ :=
  (scan_spells hx [] []).1

theorem fails_string_iff {d : Nat} {raw cs x : List Char} (h : Spells .plain raw cs)
    (hx : x <+: raw) : Fails d ('"' :: x) ↔ InEscape x := by
  obtain ⟨e, hleaves, hnil, hended⟩ := leaves_quoted h hx
  have hclose := close_quoted hleaves hnil
  have hreads {x' cs' : List Char} (heq : (if e then x.dropLast else x) = x')
      (hx' : Spells .plain x' cs') : ¬ Fails d ('"' :: x) := by
    have hscalar : IsScalar ('"' :: (x' ++ ['"'])) (.str (String.ofList cs')) :=
      .string (hx'.read [])
    refine fun hfails => hfails.not_reads (v := .str (String.ofList cs')) ?_
    rw [hclose, heq]
    exact hscalar.reads d
  constructor
  · intro hfails
    cases string_begun h hx with
    | between hspells =>
      obtain rfl : e = false :=
        congrArg Scan.escaped (hleaves.run.symm.trans (run_quoted hspells))
      exact absurd hfails (hreads rfl hspells)
    | @backslash front cs' hback hfront =>
      have hrun : Scan.run {} ('"' :: x) = ⟨true, true, []⟩ := by
        rw [hback, ← List.cons_append, Scan.run_append, run_quoted hfront]
        rfl
      obtain rfl : e = true := congrArg Scan.escaped (hleaves.run.symm.trans hrun)
      exact absurd hfails (hreads (by simp [hback]) hfront)
    | escape hescape => exact hescape
  · intro hescape
    rcases hended with ⟨cs', -, hread⟩ | herror
    · exfalso
      have hspells := spells_of_quoted (hread [])
      cases e with
      | false => exact hescape.not_spells.1 hspells
      | true => exact hescape.not_spells.2 hspells
    · exact fails_quoted hclose herror

/-- What has been written of a scalar is not read exactly if it is a word, or unreadable. -/
theorem fails_scalar_iff {d : Nat} {text y : List Char} {json : Json} (h : IsScalar text json)
    (hy : y <+: text) (hne : y ≠ []) (hproper : y ≠ text) :
    Fails d y ↔ IsWord json ∨ Unreadable json y := by
  have hword (hfails : Fails d y) (hjson : IsWord json) :
      Fails d y ↔ IsWord json ∨ Unreadable json y :=
    iff_of_true hfails (.inl hjson)
  cases h with
  | nullWord => exact hword (fails_word (value_null d) rfl hy hne hproper) .nullWord
  | trueWord => exact hword (fails_word (value_true d) rfl hy hne hproper) (.boolWord true)
  | falseWord => exact hword (fails_word (value_false d) rfl hy hne hproper) (.boolWord false)
  | number h =>
    rw [fails_number_iff h hy hne hproper]
    exact (or_iff_right nofun).symm
  | @string raw cs h =>
    cases y with
    | nil => exact absurd rfl hne
    | cons c x =>
    obtain ⟨rfl, hx⟩ := List.cons_prefix_cons.mp hy
    rcases List.prefix_concat_iff.mp hx with rfl | hx
    · exact absurd rfl hproper
    rw [fails_string_iff (spells_of_quoted h) hx]
    constructor
    · exact fun h => .inr (.escape h)
    · rintro (hjson | hunreadable)
      · cases hjson
      · cases hunreadable with
        | escape h => exact h

/-! ## Texts that break off -/

/-- The text ends inside of the scalar at a path, of which this much has been written. -/
def EndsInside (t : ParseTree) (y : List Char) (path : List Step) (json : Json)
    (begun : List Char) : Prop :=
  ∃ start text, t.Part path (start ++ text) (.scalar text json) ∧ y = start ++ begun ∧
    begun <+: text ∧ begun ≠ [] ∧ begun ≠ text

def Stuck (t : ParseTree) (y : List Char) (path : List Step) : Prop :=
  ∃ json begun, EndsInside t y path json begun ∧ (IsWord json ∨ Unreadable json begun)

theorem Stuck.entry {kind : Container} {lead y : List Char} {done rest : List (Entry ParseTree)}
    {e : Entry ParseTree} {path : List Step} (h : Stuck e.tree y path) :
    Stuck (.node kind lead (done ++ e :: rest)) (opening kind lead done ++ (e.head ++ y))
      (kind.step done.length e.name :: path) := by
  obtain ⟨json, begun, ⟨start, text, hpart, rfl, hbegun⟩, hstuck⟩ := h
  have hentry := @part_entry (.scalar text json) path kind lead start done rest e hpart
  exact ⟨json, begun, ⟨_, text, hentry, by simp, hbegun⟩, hstuck⟩

/-- Wherever the text breaks off, the whole of it cannot be read. -/
theorem fails_of_stuck {d : Nat} {t : ParseTree} {y : List Char} {path : List Step}
    (ht : t.Valid d) (h : Stuck t y path) : Fails d y := by
  obtain ⟨json, begun, ⟨start, text, hpart, rfl, hbegun, hne, hproper⟩, hstuck⟩ := h
  refine part_induction (motive := fun t _ start part => ∀ d, t.Valid d →
    part = .scalar text json → Fails d (start ++ begun)) ?_ ?_ hpart d ht rfl
  · rintro _ d ht rfl
    cases ht with
    | scalar h => exact (fails_scalar_iff h hbegun hne hproper).mpr hstuck
  · rintro kind lead done rest e path start _ hpart ih d ht rfl
    cases ht with
    | @node d _ _ _ hlead hentries htrees =>
    have hentry : start ++ begun <+: e.tree.text :=
      ((List.prefix_append_right_inj start).mpr hbegun).trans (front_isPrefix hpart)
    rw [List.append_assoc, List.append_assoc]
    exact fails_tree hlead (valid_node (.node hlead hentries htrees)).2 hentry (by simp [hne])
      (ih d (htrees e (by simp)) rfl)

/-! ## The last place to cut -/

/-- Where something of a tree begins, as much is open as before it. -/
theorem leaves_start {d : Nat} {t part : ParseTree} {path : List Step} {start : List Char}
    (h : t.Part path (start ++ part.text) part) (ht : t.Valid d) :
    ∃ cl, Leaves start { closers := cl } := by
  refine part_induction (motive := fun t _ start _ => ∀ d, t.Valid d →
    ∃ cl, Leaves start { closers := cl }) (fun _ _ _ => ⟨[], leaves_nil⟩) ?_ h d ht
  intro kind lead done rest e path start part _ ih d ht
  cases ht with
  | @node d _ _ _ hlead hentries htrees =>
  obtain ⟨cl, hleaves⟩ := ih d (htrees e (by simp))
  obtain ⟨hdone, ⟨hhead, -, -⟩, -⟩ :=
    validEntries_split (valid_node (.node hlead hentries htrees)).2
  exact ⟨_, (leaves_opening_of_valid hlead hdone).append
    ((silent_head hhead).leaves.append hleaves)⟩

theorem not_begun_of_mem_marks {d : Nat} {t : ParseTree} {y q begun : List Char}
    {path : List Step} {json : Json} (h : EndsInside t y path json begun) (ht : t.Valid d)
    (hdistinct : t.Distinct) (hq : q ∈ marks y) : ¬ Begun t q.length path := by
  obtain ⟨start, text, hpart, rfl, hbegun, -, -⟩ := h
  rintro ⟨start', part', hpart', hlt⟩
  obtain ⟨cl, hleaves⟩ := @leaves_start d t (.scalar text json) path start hpart ht
  obtain ⟨hfront, rfl⟩ := part_unique hpart hpart' hdistinct
  obtain rfl : start = start' := List.append_cancel_right hfront
  have hnone : marks begun = [] := by
    obtain ⟨d, hvalid⟩ := exists_valid hpart ht
    cases hvalid with
    | scalar h => exact List.prefix_nil.mp ((silent_scalar h).marks ▸ marks_isPrefix hbegun)
  rw [marks_append hleaves, hnone, List.map_nil, List.append_nil] at hq
  have hle := (isPrefix_of_mem_marks hq).length_le
  omega

theorem mem_marks_opening {d : Nat} {kind : Container} {lead : List Char}
    {done mid : List (Entry ParseTree)} {e : Entry ParseTree} (hlead : Blank lead)
    (hvalid : ValidEntries d kind (done ++ e :: mid)) (u : List Char) :
    opening kind lead done ++ e.text ∈ marks (opening kind lead (done ++ e :: mid) ++ u) := by
  obtain ⟨hdone, ⟨hhead, hafter, htree⟩, -⟩ := validEntries_split hvalid
  have hleaves : Leaves (opening kind lead done ++ e.text) { closers := [kind.closer] } :=
    (leaves_opening_of_valid hlead hdone).append (leaves_text hhead hafter (leaves_tree htree))
  have htext : opening kind lead (done ++ e :: mid) ++ u =
      (opening kind lead done ++ e.text) ++ ',' :: (ahead mid ++ u) := by
    simp [opening, ahead]
  have hcomma : [] ∈ marks (',' :: (ahead mid ++ u)) := by simp [marks, cuts]
  rw [htext, marks_append hleaves]
  refine List.mem_append_right _ (List.mem_map.mpr ⟨[], hcomma, List.append_nil _⟩)

/-- What has begun of a finished entry has begun where the text may be cut after it. -/
theorem begun_done {d n : Nat} {kind : Container} {lead : List Char}
    {done mid rest : List (Entry ParseTree)} {e : Entry ParseTree} {path : List Step}
    (hlead : Blank lead) (hvalid : ValidEntries d kind (done ++ e :: mid)) (u : List Char)
    (h : Begun e.tree n path) : ∃ q ∈ marks (opening kind lead (done ++ e :: mid) ++ u),
      Begun (.node kind lead (done ++ e :: rest)) q.length
        (kind.step done.length e.name :: path) := by
  refine ⟨_, mem_marks_opening hlead hvalid u,
    begun_node.mpr (.inr ⟨done, e, rest, path, rfl, rfl,
      h.of_text (validEntries_split hvalid).2.1.2.2 ?_⟩)⟩
  simp [Entry.text]
  omega

/-- What has begun where the text of an entry may be cut has begun where the container may be. -/
theorem begun_tree {d : Nat} {kind : Container} {lead y q : List Char}
    {done rest : List (Entry ParseTree)} {e : Entry ParseTree} {path : List Step}
    (hlead : Blank lead) (hvalid : ValidEntries d kind (done ++ e :: rest)) (hq : q ∈ marks y)
    (h : Begun e.tree q.length path) : ∃ q ∈ marks (opening kind lead done ++ (e.head ++ y)),
      Begun (.node kind lead (done ++ e :: rest)) q.length
        (kind.step done.length e.name :: path) := by
  obtain ⟨hdone, ⟨hhead, -, -⟩, -⟩ := validEntries_split hvalid
  have hleaves : Leaves (opening kind lead done ++ e.head) { closers := [kind.closer] } :=
    (leaves_opening_of_valid hlead hdone).append (silent_head hhead).leaves
  refine ⟨opening kind lead done ++ e.head ++ q, ?_,
    begun_node.mpr (.inr ⟨done, e, rest, path, rfl, rfl, h.mono ?_⟩)⟩
  · rw [← List.append_assoc, marks_append hleaves]
    exact List.mem_append_right _ (List.mem_map_of_mem hq)
  · simp
    omega

/-- Whatever has begun of a text that cannot be read has begun before a place to cut, if the text
does not break off in it. -/
theorem begun_cut {d : Nat} {t : ParseTree} (h : t.Valid d) (hdistinct : t.Distinct) {y : List Char}
    (hy : y <+: t.text) (hne : y ≠ []) (hproper : y ≠ t.text) (hfails : Fails d y)
    {path : List Step} (hbegun : Begun t y.length path) :
    Stuck t y path ∨ ∃ q ∈ marks y, Begun t q.length path := by
  induction h generalizing y path with
  | @scalar d text json h =>
    obtain ⟨rfl, -⟩ := begun_scalar.mp hbegun
    exact .inl ⟨json, y, ⟨[], text, .here, rfl, hy, hne, hproper⟩,
      (fails_scalar_iff h hy hne hproper).mp hfails⟩
  | @node d kind lead entries hlead hentries htrees ih =>
    have hvalid := (valid_node (.node hlead hentries htrees)).2
    have hopener := opener_mem_marks hy hne
    cases exists_ending hy hne hproper with
    | @lead b hb => exact absurd (reads_gap (hlead.mono hb)) hfails.not_reads
    | @head done rest e x hsplit hx =>
      have hlength := hx.length_le
      subst hsplit
      rcases (begun_while (fun e' rest' _ => by simp [opening, ahead, Entry.text]; omega)).mp hbegun
        with ⟨rfl, -⟩ | ⟨path, rfl, start, part, -, hlt⟩ | ⟨done', e', mid, path, rfl, rfl, hentry⟩
      · exact .inr ⟨_, hopener, begun_nil _ (Nat.succ_pos 0)⟩
      · simp at hlt
        omega
      · have hdone := (validEntries_split hvalid).1
        rw [List.append_assoc, List.cons_append]
        exact .inr (begun_done hlead hdone _ hentry)
    | @tree done rest e y hsplit hvalue hstarted hpart =>
      have hlength := hvalue.length_le
      subst hsplit
      rcases (begun_while (fun e' rest' _ => by simp [opening, ahead, Entry.text]; omega)).mp hbegun
        with ⟨rfl, -⟩ | ⟨path, rfl, hentry⟩ | ⟨done', e', mid, path, rfl, rfl, hentry⟩
      · exact .inr ⟨_, hopener, begun_nil _ (Nat.succ_pos 0)⟩
      · have htree := (validEntries_split hvalid).2.1.2.2
        have hdistinct' := distinct_tree hdistinct
        have hentry' : Begun e.tree y.length path := hentry.mono (by simp; omega)
        have hfails' : Fails d y := by
          rcases closes_or_fails htree hdistinct' hvalue hstarted hpart with
            ⟨w, hread, -⟩ | hfails'
          · exact absurd (reads_tree hlead hvalid hvalue hstarted hread) hfails.not_reads
          · exact hfails'
        rcases ih e (by simp) hdistinct' hvalue hstarted hpart hfails' hentry' with
          hstuck | ⟨q, hq, hcut⟩
        · exact .inl hstuck.entry
        · exact .inr (begun_tree hlead hvalid hq hcut)
      · have hdone := (validEntries_split hvalid).1
        rw [List.append_assoc done', List.cons_append]
        exact .inr (begun_done hlead hdone _ hentry)
    | @after done rest e b hsplit hb =>
      subst hsplit
      exact absurd (reads_done hlead hvalid hb) hfails.not_reads

/-! ## What repair shows -/

theorem EndsInside.length_lt {t : ParseTree} {y begun : List Char} {path : List Step} {json : Json}
    (h : EndsInside t y path json begun) : y.length < t.text.length := by
  obtain ⟨start, text, hpart, rfl, hbegun, -, hproper⟩ := h
  have hfront := (front_isPrefix hpart).length_le
  have hshort : begun.length < text.length :=
    hbegun.length_le.lt_of_ne fun h => hproper (hbegun.eq_of_length h)
  rw [List.length_append] at hfront ⊢
  omega

/-- The value of a repaired text has a part at every path where one has begun, except where the text
breaks off. -/
theorem Repaired.reaches_iff {t : ParseTree} {y q : List Char} {v : Json} (h : Repaired y q t v)
    (ht : t.Valid maxDepth) (hdistinct : t.Distinct) (hy : y <+: t.text) (hne : y ≠ [])
    (hproper : y ≠ t.text) (path : List Step) :
    Reaches v path ↔ Begun t y.length path ∧ ¬ Stuck t y path := by
  rcases h.source with rfl | ⟨hfails, hq, hlast⟩
  · rw [shows_begun ht hdistinct hy hne v h.reads]
    exact (and_iff_left fun hstuck => (fails_of_stuck ht hstuck).not_reads h.reads).symm
  · have hinit := isPrefix_of_mem_marks hq
    have hcut := ne_nil_of_mem_marks ht ((marks_isPrefix hy).subset hq)
    rw [shows_begun ht hdistinct (hinit.trans hy) hcut v h.reads]
    constructor
    · rintro hbegun
      refine ⟨hbegun.mono hinit.length_le, ?_⟩
      rintro ⟨json, begun, hends, -⟩
      exact not_begun_of_mem_marks hends ht hdistinct hq hbegun
    · rintro ⟨hbegun, hstuck⟩
      rcases begun_cut ht hdistinct hy hne hproper hfails hbegun with hstuck' | ⟨q', hq', hbegun⟩
      · exact absurd hstuck' hstuck
      · exact hbegun.mono (hlast q' hq').length_le

/-- A document that has come to its first bracket is repaired to a value with a part at every path
where one has begun, except where the text breaks off. -/
theorem repair_shows {text p : String} (s : Spelling text.toList) (hdistinct : s.tree.Distinct)
    (hcontainer : (∃ items, s.tree.value = .arr items) ∨ ∃ fields, s.tree.value = .obj fields)
    (hp : p.toList <+: text.toList) (hlength : s.before.length < p.toList.length) :
    ∃ y, p.toList = s.before ++ y ∧ ∃ v, repair p = some v ∧
      ∀ path, Reaches v path ↔ Begun s.tree y.length path ∧ ¬ Stuck s.tree y path := by
  obtain ⟨kind, lead, entries, hnode⟩ := exists_node s.valid hcontainer
  have hfinished {b : List Char} (hp : p.toList = s.before ++ (s.tree.text ++ b))
      (hb : b <+: s.after) : ∃ y, p.toList = s.before ++ y ∧ ∃ v, repair p = some v ∧
        ∀ path, Reaches v path ↔ Begun s.tree y.length path ∧ ¬ Stuck s.tree y path := by
    refine ⟨_, hp, s.tree.value, repair_whole s hp hb, fun path => ?_⟩
    have hlong : s.tree.text.length ≤ (s.tree.text ++ b).length := by simp
    rw [reaches_value_iff s.valid hdistinct hlong]
    refine (and_iff_left ?_).symm
    rintro ⟨json, begun, hends, -⟩
    exact absurd hends.length_lt (not_lt.mpr hlong)
  rw [s.text_eq] at hp
  rcases prefix_append_or hp with hshort | ⟨y, hy, hrest⟩
  · exact absurd hshort.length_le (not_le.mpr hlength)
  rcases prefix_append_or hrest with hbegun | ⟨b, rfl, hb⟩
  swap
  · exact hfinished hy hb
  by_cases hwhole : y = s.tree.text
  · exact hfinished (b := []) (by rw [hy, hwhole, List.append_nil]) List.nil_prefix
  have hne : y ≠ [] := by
    rintro rfl
    rw [hy] at hlength
    simp at hlength
  have hvalid := s.valid
  refine ⟨y, hy, ?_⟩
  rw [hnode] at hvalid hdistinct hbegun hwhole ⊢
  obtain ⟨q, v, hv, hrepaired⟩ :=
    exists_repaired s.blank_before hvalid hdistinct hy hbegun hne hwhole
  exact ⟨v, hv, hrepaired.reaches_iff hvalid hdistinct hbegun hne hwhole⟩

/-! ## Growth -/

/-- The text breaks off inside of the number or the string at a path, and what has been written of
that cannot be read. -/
def BreaksOff (t : ParseTree) (y : List Char) (path : List Step) : Prop :=
  ∃ json begun, EndsInside t y path json begun ∧ Unreadable json begun

/-- A longer text does not break off in a word that a shorter one shows. -/
theorem Stuck.breaksOff {t : ParseTree} {y z : List Char} {path : List Step} (h : Stuck t z path)
    (hdistinct : t.Distinct) (hy : y <+: z) (hbegun : Begun t y.length path)
    (hstuck : ¬ Stuck t y path) : BreaksOff t z path := by
  obtain ⟨json, begun, hends, hword | hunreadable⟩ := h
  swap
  · exact ⟨json, begun, hends, hunreadable⟩
  exfalso
  obtain ⟨start, text, hpart, rfl, hinit, hne, hproper⟩ := hends
  obtain ⟨start', part, hpart', hlt⟩ := hbegun
  obtain ⟨hfront, rfl⟩ := part_unique hpart hpart' hdistinct
  obtain rfl : start = start' := List.append_cancel_right hfront
  rcases prefix_append_or hy with hshort | ⟨x, rfl, hx⟩
  · exact absurd hshort.length_le (not_le.mpr hlt)
  refine hstuck ⟨json, x, ⟨start, text, hpart, rfl, hx.trans hinit, ?_, ?_⟩, .inl hword⟩
  · rintro rfl
    simp at hlt
  · rintro rfl
    exact hproper (hinit.eq_of_length_le hx.length_le)

/-- Of every text that is read as an array or an object, and of any two of its beginnings that have
come to the first bracket, the value of the longer one has a part wherever that of the shorter one
has, except at a path whose number or string the longer one breaks off in: there it has none. -/
theorem repair_grows {text : String} {final : Json} (hparse : Json.parse text = .ok final)
    (hcontainer : (∃ items, final = .arr items) ∨ ∃ fields, final = .obj fields) :
    Nonempty (Spelling text.toList) ∧ ∀ s : Spelling text.toList, s.tree.value = final ∧
      (s.tree.Distinct → ∀ p q : String, p.toList <+: q.toList → q.toList <+: text.toList →
        s.before.length < p.toList.length → ∃ v w, repair p = some v ∧ repair q = some w ∧
          ∀ path, Reaches v path →
            (Reaches w path ↔ ¬ BreaksOff s.tree (q.toList.drop s.before.length) path)) := by
  have hdocument := parse_eq_ok_iff.mp hparse
  obtain ⟨spelling, -⟩ := exists_spelling hdocument
  refine ⟨⟨spelling⟩, fun s => ?_⟩
  have hvalue : s.tree.value = final := by
    have heq := s.document_eq
    rw [hdocument] at heq
    exact (Except.ok.inj heq).symm
  refine ⟨hvalue, fun hdistinct p q hpq hq hlength => ?_⟩
  rw [← hvalue] at hcontainer
  obtain ⟨y, hy, v, hv, hreaches⟩ := repair_shows s hdistinct hcontainer (hpq.trans hq) hlength
  obtain ⟨z, hz, w, hw, hreaches'⟩ :=
    repair_shows s hdistinct hcontainer hq (hlength.trans_le hpq.length_le)
  have hyz : y <+: z := by
    rw [hy, hz] at hpq
    exact (List.prefix_append_right_inj s.before).mp hpq
  refine ⟨v, w, hv, hw, fun path hpath => ?_⟩
  obtain ⟨hbegun, hstuck⟩ := (hreaches path).mp hpath
  rw [hreaches', hz, List.drop_left]
  constructor
  · rintro ⟨-, hnot⟩ ⟨json, begun, hends, hunreadable⟩
    exact hnot ⟨json, begun, hends, .inr hunreadable⟩
  · exact fun hwhole => ⟨hbegun.mono hyz.length_le, fun hstuck' =>
      hwhole (hstuck'.breaksOff hdistinct hyz hbegun hstuck)⟩

/-- The number of the list is still there when the object has begun. -/
theorem repair_grows_draft : Json.parse draft = .ok draftTree.value ∧
    (∃ v, repair "[1" = some v ∧ Reaches v [.index 0]) ∧
      ∃ w, repair draftBegun = some w ∧ Reaches w [.index 0] := by
  have hparse : Json.parse draft = .ok draftTree.value :=
    parse_eq_ok_iff.mpr draftSpelling.document_eq
  obtain ⟨-, hall⟩ := repair_grows hparse (.inl ⟨_, rfl⟩)
  obtain ⟨v, w, hv, hw, hgrows⟩ := (hall draftSpelling).2 distinct_draftTree "[1" draftBegun
    (by decide +kernel) (by decide +kernel) (by decide +kernel)
  have hshown : Reaches v [.index 0] := by
    have hall : (repair "[1").all (fun v => decide (Reaches v [.index 0])) = true := by
      decide +kernel
    rw [hv] at hall
    exact of_decide_eq_true hall
  refine ⟨hparse, ⟨v, hv, hshown⟩, w, hw, (hgrows [.index 0] hshown).mpr ?_⟩
  -- the text does not end in the number
  rintro ⟨json, begun, ⟨start, text, hpart, hy, hinit, -⟩, -⟩
  have hnumber : draftTree.Part [.index 0] ['[', '1'] (.scalar ['1'] (.ofNat 1)) :=
    @ParseTree.Part.entry .list [] [] _ _ _ _ _ .here
  have hlength := congrArg List.length (part_unique hpart hnumber distinct_draftTree).1
  have hend := congrArg List.length hy
  have hle := hinit.length_le
  have hlong : (draftBegun.toList.drop draftSpelling.before.length).length = 10 := by
    decide +kernel
  rw [hlong, List.length_append] at hend
  simp at hlength
  omega

/-- The only member of an object is lost while its string is inside of an escape. -/
theorem member_lost_in_escape :
    (Json.parse "\x7b\"a\":\"x\\u0041\"\x7d").isOk = true ∧
      "\x7b\"a\":\"x".toList <+: "\x7b\"a\":\"x\\u00".toList ∧
      "\x7b\"a\":\"x\\u00".toList <+: "\x7b\"a\":\"x\\u0041\"\x7d".toList ∧
      (∃ v, repair "\x7b\"a\":\"x" = some v ∧ Reaches v [.member "a"]) ∧
      ∃ w, repair "\x7b\"a\":\"x\\u00" = some w ∧ ¬ Reaches w [.member "a"] := by
  have hshown : (repair "\x7b\"a\":\"x").map (fun v => decide (Reaches v [.member "a"])) =
      some true := by decide +kernel
  have hlost : (repair "\x7b\"a\":\"x\\u00").map (fun w => decide (Reaches w [.member "a"])) =
      some false := by decide +kernel
  obtain ⟨v, hv, hreaches⟩ := Option.map_eq_some_iff.mp hshown
  obtain ⟨w, hw, hnone⟩ := Option.map_eq_some_iff.mp hlost
  exact ⟨by decide +kernel, by decide +kernel, by decide +kernel,
    ⟨v, hv, of_decide_eq_true hreaches⟩, w, hw, of_decide_eq_false hnone⟩

/-- An element is lost behind the point of its number. -/
example : (repair "[1").map (fun v => decide (Reaches v [.index 0])) = some true ∧
    (repair "[1.").map (fun w => decide (Reaches w [.index 0])) = some false := by
  decide +kernel

end Agents.PartialJson
