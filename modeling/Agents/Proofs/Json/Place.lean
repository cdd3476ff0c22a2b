import Agents.Proofs.Json.Rereading

/-! # Places of a document

A value may stand behind the beginning of a document that `Awaits` one: of every container that is
still open there is the bracket, then complete entries, and then what stands before the value of the
next entry. Such a beginning says already at which place of the document the value will be, and
every document that begins like this has a part at that place, which begins just there
(`Awaits.exists_at`).

A string in its quotes ends where it was meant to end, whatever is in it. So when it stands where a
value may stand it is the part of the document at that place, and with another string instead the
document is the same but for this part (`Spelling.exists_exchanged`).
-/

namespace Agents.Json

/-! ## Parts by their numbers -/

namespace ParseTree

/-- The part of a tree at a place: each number is that of an entry, from the outermost container
on. -/
def part? : List Nat → ParseTree → Option ParseTree
  | [], t => some t
  | i :: place, .node _ _ entries => entries[i]?.bind fun e => part? place e.tree
  | _ :: _, .scalar _ _ => none

def set : List Nat → ParseTree → (new : ParseTree) → ParseTree
  | [], _, new => new
  | i :: place, .node kind lead entries, new =>
    .node kind lead (entries.modify i fun e => { e with tree := set place e.tree new })
  | _ :: _, .scalar text value, _ => .scalar text value

def steps : List Nat → ParseTree → List Step
  | [], _ => []
  | i :: place, .node kind _ entries =>
    (entries[i]?.map fun e => kind.step i e.name :: steps place e.tree).getD []
  | _ :: _, .scalar _ _ => []

def quoted (s : String) : ParseTree := .scalar (quote s).toList (.str s)

theorem valid_quoted (d : Nat) (s : String) : (quoted s).Valid d := .scalar (isScalar_quote s)

/-- Neither of two places is inside of the other. -/
def Apart (p q : List Nat) : Prop := ¬ p <+: q ∧ ¬ q <+: p

theorem Apart.symm {p q : List Nat} (h : Apart p q) : Apart q p := ⟨h.2, h.1⟩

theorem apart_cons_iff {i j : Nat} {p q : List Nat} :
    Apart (i :: p) (j :: q) ↔ i = j → Apart p q := by
  unfold Apart
  rw [List.cons_prefix_cons, List.cons_prefix_cons]
  constructor
  · rintro ⟨hpq, hqp⟩ rfl
    exact ⟨fun h => hpq ⟨rfl, h⟩, fun h => hqp ⟨rfl, h⟩⟩
  · exact fun h => ⟨fun ⟨hij, hpq⟩ => (h hij).1 hpq, fun ⟨hji, hqp⟩ => (h hji.symm).2 hqp⟩

section Lenses

variable {p q : List Nat} {t new part : ParseTree}

theorem part?_set_self (h : t.part? p = some part) : (t.set p new).part? p = some new := by
  induction p generalizing t with
  | nil => rfl
  | cons i p ih =>
    cases t with
    | scalar text value => cases h
    | node kind lead entries =>
      obtain ⟨e, he, hpart⟩ := Option.bind_eq_some_iff.mp h
      simp only [set, part?, List.getElem?_modify_eq, he]
      exact ih hpart

/-- Everything that is apart from a part stays when the part is replaced. -/
theorem part?_set_of_apart (h : Apart p q) : (t.set p new).part? q = t.part? q := by
  induction p generalizing q t with
  | nil => exact absurd (List.nil_prefix) h.1
  | cons i p ih =>
    cases q with
    | nil => exact absurd (List.nil_prefix) h.2
    | cons j q =>
      cases t with
      | scalar text value => rfl
      | node kind lead entries =>
        simp only [set, part?, List.getElem?_modify]
        by_cases hij : i = j
        · subst hij
          cases entries[i]? with
          | none => rfl
          | some e => simpa using ih (apart_cons_iff.mp h rfl)
        · simp [hij]

/-- The part of a tree at a place is what its path leads to in the value. -/
theorem at?_steps (h : t.part? p = some part) (ht : t.Distinct) :
    t.value.at? (t.steps p) = some part.value := by
  induction p generalizing t with
  | nil =>
    cases h
    rfl
  | cons i p ih =>
    cases t with
    | scalar text value => cases h
    | node kind lead entries =>
      obtain ⟨e, he, hpart⟩ := Option.bind_eq_some_iff.mp h
      cases ht with
      | node hnames htrees =>
        have hentry : (entries.map Entry.member)[i]? = some (e.name, e.tree.value) := by
          simp [he, Entry.member]
        simp only [steps, he, Option.map_some, Option.getD_some]
        rw [value_node, at?_build (map_fst_member _ ▸ hnames) hentry]
        exact ih hpart (htrees e (List.mem_of_getElem? he))

def fill (t : ParseTree) (strings : List (List Nat × String)) : ParseTree :=
  strings.foldr (fun (place, s) t => t.set place (quoted s)) t

variable {strings : List (List Nat × String)}

theorem fill_cons (t : ParseTree) (place : List Nat) (s : String) :
    t.fill ((place, s) :: strings) = (t.fill strings).set place (quoted s) := rfl

theorem part?_fill_of_apart (h : ∀ x ∈ strings, Apart x.1 q) :
    (t.fill strings).part? q = t.part? q := by
  induction strings with
  | nil => rfl
  | cons x strings ih =>
    obtain ⟨hx, hstrings⟩ := List.forall_mem_cons.mp h
    rw [fill_cons, part?_set_of_apart hx, ih hstrings]

/-- Strings at places that are apart do not disturb one another. -/
theorem part?_fill (hapart : (strings.map (·.1)).Pairwise Apart)
    (hplaces : ∀ x ∈ strings, ∃ part, t.part? x.1 = some part) :
    ∀ x ∈ strings, (t.fill strings).part? x.1 = some (quoted x.2) := by
  induction strings with
  | nil => exact nofun
  | cons x strings ih =>
    rw [List.map_cons, List.pairwise_cons, List.forall_mem_map] at hapart
    obtain ⟨⟨part, hpart⟩, hplaces⟩ := List.forall_mem_cons.mp hplaces
    rw [List.forall_mem_cons]
    constructor
    · have hfirst := part?_fill_of_apart (t := t) fun y hy => (hapart.1 y hy).symm
      exact part?_set_self (hfirst.trans hpart)
    · intro y hy
      rw [fill_cons, part?_set_of_apart (hapart.1 y hy)]
      exact ih hapart.2 hplaces y hy

end Lenses

/-! ## Parts in the text -/

/-- A part of a tree at a place, with the text of the tree before it and after it. -/
inductive At : ParseTree → List Nat → (front : List Char) → ParseTree → (back : List Char) → Prop
  | here {t : ParseTree} : At t [] [] t []
  | entry {kind : Container} {lead : List Char} {done rest : List (Entry ParseTree)}
      {e : Entry ParseTree} {place : List Nat} {front back : List Char} {part : ParseTree}
      (h : At e.tree place front part back) :
      At (.node kind lead (done ++ e :: rest)) (done.length :: place)
        (opening kind lead done ++ (e.head ++ front)) part
        (back ++ (e.after ++ (trail rest ++ [kind.closer])))

section At

variable {d : Nat} {t part : ParseTree} {place : List Nat} {front back r : List Char}

theorem text_split (kind : Container) (lead : List Char) (done rest : List (Entry ParseTree))
    (e : Entry ParseTree) : (node kind lead (done ++ e :: rest)).text =
      opening kind lead done ++
        (e.head ++ (e.tree.text ++ (e.after ++ (trail rest ++ [kind.closer])))) := by
  simp [text_node, joined_append, joined_cons, opening, Entry.text]

theorem At.text_eq (h : At t place front part back) : t.text = front ++ (part.text ++ back) := by
  induction h with
  | here => simp
  | entry h ih =>
    rw [text_split, ih]
    simp

theorem At.part?_eq (h : At t place front part back) : t.part? place = some part := by
  induction h with
  | here => rfl
  | entry h ih => simpa [part?] using ih

theorem set_node (kind : Container) (lead : List Char) (done rest : List (Entry ParseTree))
    (e : Entry ParseTree) (place : List Nat) (new : ParseTree) :
    (node kind lead (done ++ e :: rest)).set (done.length :: place) new =
      node kind lead (done ++ { e with tree := e.tree.set place new } :: rest) := by
  have hlt : done.length < (done ++ e :: rest).length := by simp
  rw [set, List.modify_eq_take_cons_drop hlt]
  simp

theorem At.set (h : At t place front part back) (new : ParseTree) :
    At (t.set place new) place front new back := by
  induction h with
  | here => exact .here
  | @entry kind lead done rest e place front back part h ih =>
    rw [set_node]
    exact .entry ih

theorem At.valid_part (h : At t place front part back) (ht : t.Valid d) : ∃ d', part.Valid d' := by
  induction h generalizing d with
  | here => exact ⟨d, ht⟩
  | entry h ih =>
    cases ht with
    | node hlead hentries htrees => exact ih (htrees _ (by simp))

theorem At.valid_set (h : At t place front part back) (ht : t.Valid d) {new : ParseTree}
    (hnew : ∀ d, new.Valid d) : (t.set place new).Valid d := by
  induction h generalizing d with
  | here => exact hnew d
  | @entry kind lead done rest e place front back part h ih =>
    rw [set_node]
    cases ht with
    | node hlead hentries htrees =>
      have htree := ih (htrees e (by simp))
      obtain ⟨hdone, he⟩ := List.forall_mem_append.mp hentries
      obtain ⟨hdone', he'⟩ := List.forall_mem_append.mp htrees
      obtain ⟨he, hrest⟩ := List.forall_mem_cons.mp he
      obtain ⟨-, hrest'⟩ := List.forall_mem_cons.mp he'
      exact .node hlead
        (List.forall_mem_append.mpr ⟨hdone, List.forall_mem_cons.mpr ⟨he, hrest⟩⟩)
        (List.forall_mem_append.mpr ⟨hdone', List.forall_mem_cons.mpr ⟨htree, hrest'⟩⟩)

theorem halts_trail {kind : Container} (rest : List (Entry ParseTree)) (r : List Char) :
    Halts (trail rest ++ kind.closer :: r) := by
  cases rest with
  | nil => exact halts_cons (isNumeric_closer kind) r
  | cons e rest => exact halts_cons rfl _

theorem At.halts (h : At t place front part back) (ht : t.Valid d) (hr : Halts r) :
    Halts (back ++ r) := by
  induction h generalizing d r with
  | here => exact hr
  | @entry kind lead done rest e place front back part h ih =>
    cases ht with
    | node hlead hentries htrees =>
      rw [List.append_assoc, List.append_assoc, List.append_assoc]
      exact ih (htrees e (by simp)) (halts_of_blank (hentries e (by simp)).2 (halts_trail rest r))

theorem At.apart {place' : List Nat} {mid back' : List Char} {part' : ParseTree}
    (h : At t place front part back) (h' : At t place' (front ++ (part.text ++ mid)) part' back')
    (hne : part'.text ≠ []) : Apart place place' := by
  induction h generalizing place' mid back' with
  | @here t =>
    -- nothing of the tree is left behind the whole tree
    have hlength := congrArg List.length h'.text_eq
    have hpositive := List.length_pos_iff.mpr hne
    simp only [List.nil_append, List.length_append] at hlength
    omega
  | @entry kind lead done rest e place front back part h ih =>
    generalize htree : node kind lead (done ++ e :: rest) = t' at h'
    generalize hfront : opening kind lead done ++ (e.head ++ front) ++ (part.text ++ mid) =
      front₂ at h'
    cases h' with
    | here => cases hfront
    | @entry kind' lead' done' rest' e' place' front' back' part' h' =>
      rw [apart_cons_iff]
      intro hlength
      obtain ⟨rfl, rfl, hentries⟩ := ParseTree.node.inj htree
      obtain ⟨rfl, hsame⟩ := List.append_inj hentries hlength
      obtain ⟨rfl, rfl⟩ := List.cons.inj hsame
      have hinside : front ++ (part.text ++ mid) = front' := by simpa using hfront
      exact ih (hinside ▸ h')

end At

end ParseTree

/-! ## Beginnings -/

open ParseTree

/-- A value may stand behind this beginning of a document, with at most so many containers inside
one another, and it is at this place of the document then. -/
inductive Awaits : Nat → List Char → (place : List Nat) → Prop
  | here {d : Nat} {b : List Char} (hb : Blank b) : Awaits d b []
  | entry {d : Nat} {kind : Container} {b lead head : List Char} {name : String}
      {done : List (Entry ParseTree)} {front : List Char} {place : List Nat} (hb : Blank b)
      (hlead : Blank lead) (hdone : ValidEntries d kind done) (hhead : IsHead kind head name)
      (h : Awaits d front place) :
      Awaits (d + 1) (b ++ (opening kind lead done ++ (head ++ front))) (done.length :: place)

section Matching

variable {kind : Container} {d : Nat}

theorem blank_append_cons_inj {b b' s s' : List Char} {c c' : Char} (hb : Blank b)
    (hb' : Blank b') (hc : isBlank c = false) (hc' : isBlank c' = false)
    (h : b ++ c :: s = b' ++ c' :: s') : b = b' ∧ c :: s = c' :: s' := by
  have hskip := congrArg skipBlanks h
  rw [skipBlanks_append hb, skipBlanks_append hb', skipBlanks_cons hc, skipBlanks_cons hc']
    at hskip
  rw [hskip] at h
  exact ⟨List.append_cancel_right h, hskip⟩

theorem blank_append_inj {b b' s s' : List Char} (hb : Blank b) (hb' : Blank b') (hs : Starts s)
    (hs' : Starts s') (h : b ++ s = b' ++ s') : b = b' ∧ s = s' := by
  obtain ⟨c, t, rfl, hc⟩ := hs
  obtain ⟨c', t', rfl, hc'⟩ := hs'
  exact blank_append_cons_inj hb hb' (isBlank_of_isStart hc) (isBlank_of_isStart hc') h

theorem IsHead.blank_append {b head : List Char} {name : String} (hb : Blank b)
    (h : IsHead kind head name) : IsHead kind (b ++ head) name := by
  cases h with
  | list hb₁ => exact .list (hb.append hb₁)
  | object hb₁ hname hb₂ hb₃ =>
    rw [← List.append_assoc]
    exact .object (hb.append hb₁) hname hb₂ hb₃

/-- What stands before the value of an entry ends where the value begins. -/
theorem IsHead.append_inj {head head' s s' : List Char} {name name' : String}
    (h : IsHead kind head name) (h' : IsHead kind head' name') (hs : Starts s) (hs' : Starts s')
    (heq : head ++ s = head' ++ s') : head = head' ∧ s = s' := by
  obtain ⟨b, hb, hread⟩ := h.readHead hs
  obtain ⟨b', hb', hread'⟩ := h'.readHead hs'
  rw [heq, hread'] at hread
  obtain ⟨-, hrest⟩ := Prod.mk.inj (Option.some.inj hread)
  obtain ⟨-, rfl⟩ := blank_append_inj hb' hb hs' hs hrest
  exact ⟨List.append_cancel_right heq, rfl⟩

/-- One value cannot be read in two ways. -/
theorem text_append_inj {t t' : ParseTree} {r r' : List Char} (ht : t.Valid d) (ht' : t'.Valid d)
    (hr : Halts r) (hr' : Halts r') (h : t.text ++ r = t'.text ++ r') :
    t.text = t'.text ∧ r = r' := by
  have hread := ht.reads r hr
  rw [h, ht'.reads r' hr'] at hread
  obtain ⟨-, rfl⟩ := Prod.mk.inj (Except.ok.inj hread)
  exact ⟨List.append_cancel_right h, rfl⟩

theorem isBlank_closer (kind : Container) : isBlank kind.closer = false := by
  cases kind <;> rfl

theorem isBlank_opener (kind : Container) : isBlank kind.opener = false := by
  cases kind <;> rfl

theorem trail_cons (e : Entry ParseTree) (rest : List (Entry ParseTree)) :
    trail (e :: rest) = ',' :: joined (e :: rest) := by
  rw [joined_cons]
  simp [trail]

section Entries

variable {lead lead' r y : List Char} {entries done : List (Entry ParseTree)}

theorem exists_first_of_text {head : List Char} {name : String} (hlead : Blank lead)
    (hentries : ValidEntries d kind entries) (hhead : IsHead kind head name) (hy : Starts y)
    (h : lead ++ (joined entries ++ kind.closer :: r) = head ++ y) :
    ∃ e rest, entries = e :: rest ∧ lead ++ e.head = head ∧
      e.tree.text ++ (e.after ++ (trail rest ++ kind.closer :: r)) = y := by
  cases entries with
  | nil =>
    obtain ⟨c, s, hskip, hc⟩ := hhead.opens hy
    rw [← h, joined_nil, List.nil_append, skipBlanks_append hlead,
      skipBlanks_cons (isBlank_closer kind)] at hskip
    cases hskip
    exact absurd rfl hc
  | cons e rest =>
    obtain ⟨hehead, -, hetree⟩ := hentries e List.mem_cons_self
    rw [joined_cons] at h
    have hsplit : (lead ++ e.head) ++
        (e.tree.text ++ (e.after ++ (trail rest ++ kind.closer :: r))) = head ++ y := by
      simpa [Entry.text] using h
    obtain ⟨hpos, hrest⟩ :=
      (hehead.blank_append hlead).append_inj hhead (hetree.starts.append _) hy hsplit
    exact ⟨e, rest, rfl, hpos, hrest⟩

/-- Complete entries in the beginning of a container are its first entries. -/
theorem exists_entry_of_text {head : List Char} {name : String} (hlead : Blank lead)
    (hentries : ValidEntries d kind entries) (hlead' : Blank lead')
    (hdone : ValidEntries d kind done) (hhead : IsHead kind head name) (hy : Starts y)
    (h : lead ++ (joined entries ++ kind.closer :: r) = lead' ++ (ahead done ++ (head ++ y))) :
    ∃ done' e rest, entries = done' ++ e :: rest ∧ done'.length = done.length ∧
      lead ++ (ahead done' ++ e.head) = lead' ++ (ahead done ++ head) ∧
      e.tree.text ++ (e.after ++ (trail rest ++ kind.closer :: r)) = y := by
  induction done generalizing lead lead' entries with
  | nil =>
    obtain ⟨e, rest, rfl, hpos, hrest⟩ := exists_first_of_text (y := y) hlead hentries
      (hhead.blank_append hlead') hy (by simpa [ahead] using h)
    exact ⟨[], e, rest, rfl, rfl, by simpa [ahead] using hpos, hrest⟩
  | cons e₁ done ih =>
    obtain ⟨⟨hhead₁, hafter₁, htree₁⟩, hdone⟩ := List.forall_mem_cons.mp hdone
    rw [ahead_cons] at h
    obtain ⟨e, rest, rfl, hpos, hrest⟩ := exists_first_of_text hlead hentries
      (hhead₁.blank_append hlead') (htree₁.starts.append _) (by simpa using h)
    obtain ⟨⟨-, hafter, htree⟩, hentries⟩ := List.forall_mem_cons.mp hentries
    obtain ⟨htext, hmore⟩ := text_append_inj htree htree₁
      (halts_of_blank hafter (halts_trail rest r)) (halts_of_blank hafter₁ (halts_cons rfl _)) hrest
    cases rest with
    | nil =>
      -- the container would end where a comma stands
      obtain ⟨-, hcloser⟩ := blank_append_cons_inj hafter hafter₁ (isBlank_closer kind) rfl hmore
      exact absurd (List.cons.inj hcloser).1.symm kind.comma_ne_closer
    | cons e' rest =>
      rw [trail_cons, List.cons_append] at hmore
      obtain ⟨hblank, hnext⟩ := blank_append_cons_inj hafter hafter₁ rfl rfl hmore
      obtain ⟨done', e'', rest', hsplit, hlength, hpos', hvalue⟩ :=
        ih blank_nil hentries blank_nil hdone (List.cons.inj hnext).2
      refine ⟨e :: done', e'', rest', by rw [hsplit, List.cons_append], by simp [hlength], ?_,
        hvalue⟩
      rw [List.nil_append, List.nil_append] at hpos'
      rw [ahead_cons, ahead_cons, hpos', htext, hblank, ← List.append_assoc, hpos,
        List.append_assoc]

end Entries

end Matching

theorem IsScalar.ne_opener {text : List Char} {value : Json} (h : IsScalar text value)
    (kind : Container) (s : List Char) : text ≠ kind.opener :: s := by
  intro htext
  cases h with
  | number h =>
    obtain ⟨c, t, hc, hdigit⟩ := head_of_number h
    obtain ⟨rfl, -⟩ := List.cons.inj (hc.symm.trans htext)
    cases kind <;> exact absurd hdigit (by decide)
  | _ => cases kind <;> cases htext

theorem Awaits.exists_starts {d : Nat} {front x : List Char} {place : List Nat}
    (h : Awaits d front place) (hx : Starts x) :
    ∃ b y, Blank b ∧ Starts y ∧ front ++ x = b ++ y := by
  cases h with
  | here hb => exact ⟨front, x, hb, hx, rfl⟩
  | entry hb =>
    exact ⟨_, _, hb, ⟨_, _, rfl, isStart_opener _⟩, List.append_assoc _ _ _⟩

/-- Whatever document begins like this, it has a part at the place, which begins just there. -/
theorem Awaits.exists_at {d : Nat} {front x lead r : List Char} {place : List Nat} {t : ParseTree}
    (h : Awaits d front place) (hx : Starts x) (ht : t.Valid d) (hlead : Blank lead)
    (htext : lead ++ (t.text ++ r) = front ++ x) :
    ∃ front' part back, t.At place front' part back ∧ lead ++ front' = front := by
  induction h generalizing t lead r with
  | here hb =>
    obtain ⟨rfl, -⟩ := blank_append_inj hlead hb (ht.starts.append r) hx htext
    exact ⟨[], t, [], .here, List.append_nil _⟩
  | @entry d kind b lead' head name done front place hb hlead' hdone hhead h ih =>
    obtain ⟨c, s, hstart, hc⟩ := ht.starts
    have hsplit : lead ++ c :: (s ++ r) =
        b ++ kind.opener :: (lead' ++ (ahead done ++ (head ++ (front ++ x)))) := by
      rw [hstart] at htext
      simpa [opening] using htext
    obtain ⟨rfl, hopener⟩ := blank_append_cons_inj hlead hb (isBlank_of_isStart hc)
      (isBlank_opener kind) hsplit
    obtain ⟨rfl, hinside⟩ := List.cons.inj hopener
    cases ht with
    | scalar hscalar =>
      exact absurd hstart (hscalar.ne_opener kind s)
    | @node _ kind' lead₂ entries hlead₂ hentries htrees =>
      rw [text_node] at hstart
      obtain rfl : kind' = kind := by
        cases kind <;> cases kind' <;> first | rfl | cases hstart
      obtain ⟨-, rfl⟩ := List.cons.inj hstart
      obtain ⟨b', y, hb', hy, hbegins⟩ := h.exists_starts hx
      rw [hbegins] at hinside
      have hvalid : ValidEntries d kind' entries :=
        fun e he => ⟨(hentries e he).1, (hentries e he).2, htrees e he⟩
      obtain ⟨done', e, rest, rfl, hlength, hpos, hvalue⟩ := exists_entry_of_text (y := y)
        hlead₂ hvalid hlead' hdone (hhead.append hb') hy (by simpa using hinside)
      obtain ⟨front', part, back, hat, rfl⟩ := ih (htrees e (by simp)) hb'
        (by rw [hvalue, hbegins])
      refine ⟨_, part, _, hlength ▸ At.entry hat, ?_⟩
      have hpos' : lead₂ ++ (ahead done' ++ (e.head ++ front')) =
          lead' ++ (ahead done ++ (head ++ (b' ++ front'))) := by
        simpa using congrArg (· ++ front') hpos
      simp [opening, hpos']

/-! ## Strings in a document -/

section Strings

variable {s : String} {text front back : List Char} {place : List Nat}

theorem value_quoted (d : Nat) (s : String) (back : List Char) :
    value d ((quote s).toList ++ back) = .ok (.str s, back) := by
  rw [toList_quote, List.cons_append, List.append_assoc, List.singleton_append, value_quote,
    string_escape]
  simp [Except.map]

theorem parse_quote (s : String) : parse (quote s) = .ok (.str s) := by
  refine parse_eq_ok_iff.mpr (document_eq_ok_iff.mpr ⟨[], ?_, blank_nil⟩)
  simpa using value_quoted maxDepth s []

/-- Where a value may stand, a string in its quotes is the part of the document. -/
theorem Spelling.exists_at (spelling : Spelling text)
    (hsplit : text = front ++ ((quote s).toList ++ back)) (h : Awaits maxDepth front place) :
    ∃ front' back', spelling.tree.At place front' (quoted s) back' ∧
      spelling.before ++ front' = front ∧ back' ++ spelling.after = back := by
  have hstarts : Starts ((quote s).toList ++ back) := by
    rw [toList_quote]
    exact ⟨_, _, rfl, rfl⟩
  have hspelled := hsplit.symm.trans spelling.text_eq
  obtain ⟨front', part, back', hat, rfl⟩ := h.exists_at hstarts spelling.valid
    spelling.blank_before hspelled.symm
  obtain ⟨d, hpart⟩ := hat.valid_part spelling.valid
  have htext : part.text ++ (back' ++ spelling.after) = (quote s).toList ++ back := by
    rw [hat.text_eq] at hspelled
    simpa using hspelled.symm
  have hread := hpart.reads _ (hat.halts spelling.valid (halts_blank spelling.blank_after))
  rw [htext, value_quoted] at hread
  obtain ⟨hvalue, hback⟩ := Prod.mk.inj (Except.ok.inj hread)
  rw [← hback] at htext
  have hquote := List.append_cancel_right htext
  cases hpart with
  | scalar hscalar =>
    obtain rfl : Json.str s = _ := hvalue
    obtain rfl : _ = (quote s).toList := hquote
    exact ⟨front', back', hat, rfl, hback.symm⟩
  | @node d kind lead entries =>
    rw [text_node, toList_quote] at hquote
    cases kind <;> cases hquote

/-- With another string in its place the document is the same but for this part. -/
theorem Spelling.exists_exchanged (spelling : Spelling text)
    (hsplit : text = front ++ ((quote s).toList ++ back)) (h : Awaits maxDepth front place)
    (s' : String) : ∃ spelling' : Spelling (front ++ ((quote s').toList ++ back)),
      spelling'.tree = spelling.tree.set place (quoted s') := by
  obtain ⟨front', back', hat, rfl, rfl⟩ := spelling.exists_at hsplit h
  refine ⟨⟨spelling.before, spelling.tree.set place (quoted s'), spelling.after,
    spelling.blank_before, hat.valid_set spelling.valid fun d => valid_quoted d s',
    spelling.blank_after, ?_⟩, rfl⟩
  rw [(hat.set _).text_eq]
  simp [quoted, ParseTree.text]

end Strings

end Agents.Json
