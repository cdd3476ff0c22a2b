import Agents.Proofs.Json.Unfinished
import Agents.Proofs.PartialJson.Container

/-! # What is shown of an unfinished document

A part of a document has `Begun` when the text has come to its first character. The value that is
read from a closed beginning has a part at every path where one has begun, and nowhere else
(`shows_begun`): this follows the way the beginning ends, with one lemma for each `Ending`. That a
path leads to one part only (`part_unique`) is what makes the two sides comparable.
-/

namespace Agents.PartialJson

open Json

/-! ## Parts that have begun -/

/-- Whether a path leads to a part of the value. -/
def Reaches (v : Json) (path : List Step) : Prop := ∃ part, v.at? path = some part

instance (v : Json) (path : List Step) : Decidable (Reaches v path) :=
  decidable_of_iff (v.at? path).isSome Option.isSome_iff_exists

/-- Whether the part at a path begins within this many characters of the text. -/
def Begun (t : ParseTree) (n : Nat) (path : List Step) : Prop :=
  ∃ start part, t.Part path (start ++ part.text) part ∧ start.length < n

theorem Begun.mono {t : ParseTree} {n m : Nat} {path : List Step} (h : Begun t n path)
    (hle : n ≤ m) : Begun t m path := by
  obtain ⟨start, part, hpart, hlt⟩ := h
  exact ⟨start, part, hpart, hlt.trans_le hle⟩

section Parts

variable {t part part' : ParseTree} {path : List Step} {front front' : List Char}

theorem exists_start (h : t.Part path front part) : ∃ start, front = start ++ part.text := by
  induction h with
  | here => exact ⟨[], rfl⟩
  | @entry kind lead done rest e path front part h ih =>
    obtain ⟨start, rfl⟩ := ih
    exact ⟨opening kind lead done ++ (e.head ++ start), by simp⟩

/-- An induction along a path, over the text before the part that it leads to. -/
theorem part_induction {motive : ParseTree → List Step → List Char → ParseTree → Prop}
    (here : ∀ t, motive t [] [] t)
    (entry : ∀ (kind : Container) (lead : List Char) (done rest : List (Entry ParseTree))
      (e : Entry ParseTree) (path : List Step) (start : List Char) (part : ParseTree),
      e.tree.Part path (start ++ part.text) part → motive e.tree path start part →
      motive (.node kind lead (done ++ e :: rest)) (kind.step done.length e.name :: path)
        (opening kind lead done ++ (e.head ++ start)) part)
    {start : List Char} (h : t.Part path (start ++ part.text) part) :
    motive t path start part := by
  generalize hfront : start ++ part.text = front at h
  induction h generalizing start with
  | here =>
    obtain rfl : start = [] := List.append_left_eq_self.mp hfront
    exact here _
  | @entry kind lead done rest e path front part h ih =>
    obtain ⟨start', rfl⟩ := exists_start h
    obtain rfl : start = opening kind lead done ++ (e.head ++ start') :=
      List.append_cancel_right (hfront.trans (by simp))
    exact entry kind lead done rest e path start' part h (ih rfl)

theorem front_isPrefix (h : t.Part path front part) : front <+: t.text := by
  induction h with
  | here => exact List.prefix_rfl
  | @entry kind lead done rest e path front part h ih =>
    obtain ⟨z, hz⟩ := ih
    refine ⟨z ++ (e.after ++ (trail rest ++ [kind.closer])), ?_⟩
    rw [ParseTree.text_node, ParseTree.joined_append, ParseTree.joined_cons, Entry.text, ← hz]
    simp [opening]

theorem exists_valid {d : Nat} (h : t.Part path front part) (ht : t.Valid d) :
    ∃ d, part.Valid d := by
  induction h generalizing d with
  | here => exact ⟨d, ht⟩
  | entry h ih =>
    cases ht with
    | node _ _ htrees => exact ih (htrees _ (by simp))

theorem part_entry {kind : Container} {lead start : List Char} {done rest : List (Entry ParseTree)}
    {e : Entry ParseTree} (h : e.tree.Part path (start ++ part.text) part) :
    (ParseTree.node kind lead (done ++ e :: rest)).Part (kind.step done.length e.name :: path)
      (opening kind lead done ++ (e.head ++ start) ++ part.text) part := by
  simpa using @ParseTree.Part.entry kind lead done rest e path _ part h

theorem part_step {step : Step} (h : t.Part (step :: path) front part) :
    ∃ kind lead done rest e front', t = .node kind lead (done ++ e :: rest) ∧
      step = kind.step done.length e.name ∧
      front = opening kind lead done ++ (e.head ++ front') ∧ e.tree.Part path front' part := by
  cases h with
  | entry h => exact ⟨_, _, _, _, _, _, rfl, rfl, rfl, h⟩

theorem eq_of_step {kind : Container} {done done' rest rest' : List (Entry ParseTree)}
    {e e' : Entry ParseTree} (hsplit : done ++ e :: rest = done' ++ e' :: rest')
    (hnames : kind = .object → ((done ++ e :: rest).map (·.name)).Nodup)
    (hstep : kind.step done.length e.name = kind.step done'.length e'.name) :
    done = done' ∧ e = e' := by
  cases kind with
  | list =>
    obtain ⟨rfl, hrest⟩ := List.append_inj hsplit (Step.index.inj hstep)
    exact ⟨rfl, (List.cons.inj hrest).1⟩
  | object =>
    have hname : e.name = e'.name := Step.member.inj hstep
    have hnodup := hnames rfl
    rcases eq_or_before_or_after hsplit with ⟨rfl, rfl, -⟩ | ⟨mid, rfl, rfl⟩ | ⟨mid, rfl⟩
    · exact ⟨rfl, rfl⟩
    · simp [List.nodup_append, List.nodup_cons, hname] at hnodup
    · simp [List.nodup_append, List.nodup_cons, hname] at hnodup

theorem part_unique (h : t.Part path front part) (h' : t.Part path front' part')
    (ht : t.Distinct) : front = front' ∧ part = part' := by
  induction h generalizing front' part' with
  | here =>
    cases h'
    exact ⟨rfl, rfl⟩
  | @entry kind lead done rest e path front part h ih =>
    obtain ⟨kind', lead', done', rest', e', front', htree, hstep, rfl, hpart⟩ := part_step h'
    obtain ⟨rfl, rfl, hsplit⟩ := ParseTree.node.inj htree
    cases ht with
    | node hnames htrees =>
    obtain ⟨rfl, rfl⟩ := eq_of_step hsplit hnames hstep
    obtain ⟨rfl, rfl⟩ := ih hpart (htrees e (by simp))
    exact ⟨rfl, rfl⟩

end Parts

/-! ## Containers -/

theorem begun_nil (t : ParseTree) {n : Nat} (hn : 0 < n) : Begun t n [] := ⟨[], t, .here, hn⟩

theorem begun_scalar {text : List Char} {json : Json} {n : Nat} {path : List Step} :
    Begun (.scalar text json) n path ↔ path = [] ∧ 0 < n := by
  constructor
  · rintro ⟨start, part, hpart, hlt⟩
    generalize hfront : start ++ part.text = front at hpart
    cases hpart
    exact ⟨rfl, by omega⟩
  · rintro ⟨rfl, hn⟩
    exact begun_nil _ hn

/-- What has begun of a container: itself, and what has of its entries. -/
theorem begun_node {kind : Container} {lead : List Char} {entries : List (Entry ParseTree)}
    {n : Nat} {path : List Step} : Begun (.node kind lead entries) n path ↔
      (path = [] ∧ 0 < n) ∨ ∃ done e rest path', entries = done ++ e :: rest ∧
        path = kind.step done.length e.name :: path' ∧
        Begun e.tree (n - (opening kind lead done ++ e.head).length) path' := by
  constructor
  · rintro ⟨start, part, hpart, hlt⟩
    cases path with
    | nil => exact .inl ⟨rfl, by omega⟩
    | cons step path =>
      obtain ⟨kind, lead, done, rest, e, front, htree, rfl, hfront, hentry⟩ := part_step hpart
      obtain ⟨rfl, rfl, rfl⟩ := ParseTree.node.inj htree
      obtain ⟨start', rfl⟩ := exists_start hentry
      simp only [← List.append_assoc] at hfront
      obtain rfl := List.append_cancel_right hfront
      refine .inr ⟨done, e, rest, path, rfl, rfl, start', part, hentry, ?_⟩
      rw [List.length_append] at hlt
      omega
  · rintro (⟨rfl, hn⟩ | ⟨done, e, rest, path, rfl, rfl, start, part, hpart, hlt⟩)
    · exact begun_nil _ hn
    · refine ⟨opening kind lead done ++ (e.head ++ start), part, part_entry hpart, ?_⟩
      rw [← List.append_assoc, List.length_append]
      omega

/-- Once a tree is written to its end, all its parts have begun. -/
theorem Begun.of_text {t : ParseTree} {n m : Nat} {d : Nat} {path : List Step}
    (h : Begun t n path) (ht : t.Valid d) (hm : t.text.length ≤ m) : Begun t m path := by
  obtain ⟨start, part, hpart, -⟩ := h
  have hfront := (front_isPrefix hpart).length_le
  obtain ⟨d, hvalid⟩ := exists_valid hpart ht
  have hpos := List.length_pos_iff.mpr (text_ne_nil hvalid)
  rw [List.length_append] at hfront
  exact ⟨start, part, hpart, by omega⟩

theorem reaches_value_iff {t : ParseTree} {n d : Nat} {path : List Step} (ht : t.Valid d)
    (hdistinct : t.Distinct) (hn : t.text.length ≤ n) :
    Reaches t.value path ↔ Begun t n path := by
  constructor
  · rintro ⟨w, hw⟩
    obtain ⟨front, part, hpart, -⟩ := ht.exists_part hw
    obtain ⟨start, rfl⟩ := exists_start hpart
    exact Begun.of_text ⟨start, part, hpart, Nat.lt_succ_self _⟩ ht hn
  · rintro ⟨start, part, hpart, -⟩
    exact ⟨part.value, hpart.at?_value hdistinct⟩

theorem reaches_nil (v : Json) : Reaches v [] := ⟨v, rfl⟩

theorem reaches_build {kind : Container} {ms : List (String × Json)}
    (hnames : kind = .object → (ms.map (·.1)).Nodup) {path : List Step} :
    Reaches (kind.build ms) path ↔ path = [] ∨ ∃ (i : Nat) (name : String) (w : Json) (path' : _),
      ms[i]? = some (name, w) ∧ path = kind.step i name :: path' ∧ Reaches w path' := by
  constructor
  · rintro ⟨part, hpart⟩
    cases path with
    | nil => exact .inl rfl
    | cons step path =>
      obtain ⟨i, name, w, hi, rfl, hw⟩ := exists_entry_of_at? hpart
      exact .inr ⟨i, name, w, path, hi, rfl, part, hw⟩
  · rintro (rfl | ⟨i, name, w, path, hi, rfl, part, hpart⟩)
    · exact reaches_nil _
    · exact ⟨part, (at?_build hnames hi path).trans hpart⟩

section Containers

variable {d n : Nat} {kind : Container} {lead : List Char}
  {entries done rest : List (Entry ParseTree)} {e : Entry ParseTree} {path : List Step}

theorem not_begun_later (done : List (Entry ParseTree)) {mid : List (Entry ParseTree)}
    {e' : Entry ParseTree} (hshort : ∀ e₁ rest', mid ++ e' :: rest = e₁ :: rest' →
      n ≤ (opening kind lead done ++ e₁.head).length) :
    ¬ Begun e'.tree (n - (opening kind lead (done ++ mid) ++ e'.head).length) path := by
  rintro ⟨start, part, -, hlt⟩
  cases mid with
  | nil =>
    have hbound := hshort e' rest rfl
    simp at hlt hbound
    omega
  | cons e₁ mid =>
    have hbound := hshort e₁ (mid ++ e' :: rest) rfl
    simp [opening, ahead, Entry.text] at hlt hbound
    omega

theorem reaches_empty (hn : 0 < n)
    (hshort : ∀ e rest, entries = e :: rest → n ≤ (opening kind lead [] ++ e.head).length) :
    Reaches (kind.build []) path ↔ Begun (.node kind lead entries) n path := by
  rw [reaches_build (by simp), begun_node]
  constructor
  · rintro (rfl | ⟨i, name, w, path', hi, -⟩)
    · exact .inl ⟨rfl, hn⟩
    · simp at hi
  · rintro (⟨rfl, -⟩ | ⟨done, e, rest, path', rfl, -, hbegun⟩)
    · exact .inl rfl
    · exact absurd hbegun (not_begun_later [] hshort)

/-- While an entry is being written there have begun the container, parts of this entry, and those
of the entries before it. -/
theorem begun_while (hshort : ∀ e' rest', rest = e' :: rest' →
      n ≤ (opening kind lead (done ++ [e]) ++ e'.head).length) :
    Begun (.node kind lead (done ++ e :: rest)) n path ↔ (path = [] ∧ 0 < n) ∨
      (∃ path', path = kind.step done.length e.name :: path' ∧
        Begun e.tree (n - (opening kind lead done ++ e.head).length) path') ∨
      ∃ done' e' mid path', done = done' ++ e' :: mid ∧
        path = kind.step done'.length e'.name :: path' ∧
        Begun e'.tree (n - (opening kind lead done' ++ e'.head).length) path' := by
  rw [begun_node]
  refine or_congr_right ⟨?_, ?_⟩
  · rintro ⟨done', e', rest', path', hsplit, hpath, hbegun⟩
    rcases eq_or_before_or_after hsplit with ⟨rfl, rfl, rfl⟩ | ⟨mid, rfl, rfl⟩ | ⟨mid, hmid⟩
    · exact .inl ⟨path', hpath, hbegun⟩
    · have hlater : done ++ e :: mid = (done ++ [e]) ++ mid := by simp
      rw [hlater] at hbegun
      exact absurd hbegun (not_begun_later (done ++ [e]) hshort)
    · exact .inr ⟨done', e', mid, path', hmid, hpath, hbegun⟩
  · rintro (⟨path', hpath, hbegun⟩ | ⟨done', e', mid, path', rfl, hpath, hbegun⟩)
    · exact ⟨done, e, rest, path', rfl, hpath, hbegun⟩
    · exact ⟨done', e', mid ++ e :: rest, path', by simp, hpath, hbegun⟩

/-- A container of finished entries and one that is not reaches what has begun of it. -/
theorem reaches_entry {w : Json} (hvalid : ValidEntries d kind (done ++ e :: rest))
    (hdistinct : (ParseTree.node kind lead (done ++ e :: rest)).Distinct)
    (hlow : (opening kind lead done ++ e.head).length ≤ n)
    (hshort : ∀ e' rest', rest = e' :: rest' →
      n ≤ (opening kind lead (done ++ [e]) ++ e'.head).length)
    (hw : ∀ path, Reaches w path ↔
      Begun e.tree (n - (opening kind lead done ++ e.head).length) path) :
    Reaches (kind.build (done.map Entry.member ++ [(e.name, w)])) path ↔
      Begun (.node kind lead (done ++ e :: rest)) n path := by
  cases hdistinct with
  | node hnames htrees =>
  have hdone {done' mid : List (Entry ParseTree)} {e' : Entry ParseTree} {path : List Step}
      (h : done = done' ++ e' :: mid) : Reaches e'.tree.value path ↔
        Begun e'.tree (n - (opening kind lead done' ++ e'.head).length) path := by
    refine reaches_value_iff (hvalid e' (by simp [h])).2.2 (htrees e' (by simp [h])) ?_
    subst h
    simp [opening, ahead, Entry.text] at hlow ⊢
    omega
  rw [reaches_build (nodup_members hnames w), begun_while hshort]
  constructor
  · rintro (rfl | ⟨i, name, v, path', hi, rfl, hreach⟩)
    · refine .inl ⟨rfl, ?_⟩
      simp [opening] at hlow
      omega
    right
    rcases lt_trichotomy i done.length with hlt | rfl | hgt
    · rw [List.getElem?_append_left (by simpa using hlt), List.getElem?_map] at hi
      obtain ⟨e', he', hmember⟩ := Option.map_eq_some_iff.mp hi
      cases hmember
      obtain ⟨done', mid, hsplit, rfl⟩ := exists_split he'
      exact .inr ⟨done', e', mid, path', hsplit, rfl, (hdone hsplit).mp hreach⟩
    · have hlast : (name, v) = (e.name, w) := by simpa using hi.symm
      cases hlast
      exact .inl ⟨path', rfl, (hw path').mp hreach⟩
    · rw [List.getElem?_eq_none (by simp; omega)] at hi
      cases hi
  · rintro (⟨rfl, -⟩ | ⟨path', rfl, hbegun⟩ | ⟨done', e', mid, path', hmid, rfl, hbegun⟩)
    · exact .inl rfl
    · exact .inr ⟨done.length, e.name, w, path', by simp, rfl, (hw path').mpr hbegun⟩
    · refine .inr ⟨done'.length, e'.name, e'.tree.value, path', ?_, rfl, (hdone hmid).mpr hbegun⟩
      simp [hmid, Entry.member]

end Containers

/-! ## Reading a closed beginning -/

theorem reaches_flat {v : Json} (harr : ∀ items, v ≠ .arr items) (hobj : ∀ fields, v ≠ .obj fields)
    {path : List Step} : Reaches v path ↔ path = [] := by
  constructor
  · rintro ⟨part, hpart⟩
    cases path with
    | nil => rfl
    | cons step path =>
      cases v with
      | arr items => exact absurd rfl (harr items)
      | obj fields => exact absurd rfl (hobj fields)
      | _ => cases step <;> cases hpart
  · rintro rfl
    exact reaches_nil v

theorem reaches_below {text : List Char} {json v : Json} (h : IsScalar text json)
    (hv : Below v (.scalar text json)) {path : List Step} : Reaches v path ↔ path = [] := by
  cases hv with
  | same => cases h <;> exact reaches_flat (fun _ h => by cases h) fun _ h => by cases h
  | str => exact reaches_flat (fun _ h => by cases h) fun _ h => by cases h
  | num => exact reaches_flat (fun _ h => by cases h) fun _ h => by cases h

theorem Fails.not_reads {d : Nat} {y : List Char} {v : Json} (h : Fails d y) :
    ¬ Reads d (close y) v := fun hread => h [] nofun v [] (hread [] nofun) nofun

/-- Closed, the beginning is read as a value with a part at every path where one has begun, and at
no other path, if it is read at all. -/
def Shows (d : Nat) (t : ParseTree) (y : List Char) : Prop :=
  ∀ v, Reads d (close y) v → ∀ path, Reaches v path ↔ Begun t y.length path

theorem shows_of_reads {d : Nat} {t : ParseTree} {y : List Char} {v : Json}
    (hread : Reads d (close y) v) (h : ∀ path, Reaches v path ↔ Begun t y.length path) :
    Shows d t y := by
  intro w hw
  rw [hw.unique hread]
  exact h

theorem shows_of_fails {d : Nat} {t : ParseTree} {y : List Char} (h : Fails d y) : Shows d t y :=
  fun _ hread => absurd hread h.not_reads

theorem shows_text {d : Nat} {t : ParseTree} (h : t.Valid d) (hdistinct : t.Distinct) :
    Shows d t t.text := by
  have hclose : close t.text = t.text := close_self (endsSolid_tree h) (leaves_tree h)
  exact shows_of_reads (hclose.symm ▸ h.reads) fun path => reaches_value_iff h hdistinct le_rfl

theorem shows_scalar {d : Nat} {text y : List Char} {json : Json} (h : IsScalar text json)
    (hy : y <+: text) (hne : y ≠ []) (hproper : y ≠ text) : Shows d (.scalar text json) y := by
  rcases closes_or_fails_scalar h hy hne hproper with ⟨v, hread, hbelow, -⟩ | hfails
  · refine shows_of_reads hread fun path => ?_
    rw [reaches_below h hbelow, begun_scalar]
    exact (and_iff_left (List.length_pos_iff.mpr hne)).symm
  · exact shows_of_fails hfails

section Containers

variable {d : Nat} {kind : Container} {lead : List Char}
  {entries done rest : List (Entry ParseTree)} {e : Entry ParseTree}

theorem shows_gap {b : List Char} (hb : Blank b) (hshort : ∀ e rest, entries = e :: rest →
      (kind.opener :: b).length ≤ (opening kind lead [] ++ e.head).length) :
    Shows (d + 1) (.node kind lead entries) (kind.opener :: b) :=
  shows_of_reads (reads_gap hb) fun _ => reaches_empty (Nat.succ_pos _) hshort

variable (hlead : Blank lead) (hvalid : ValidEntries d kind (done ++ e :: rest))
  (hdistinct : (ParseTree.node kind lead (done ++ e :: rest)).Distinct)

include hlead hvalid hdistinct

theorem shows_done {b : List Char} (hb : b <+: e.after) :
    Shows (d + 1) (.node kind lead (done ++ e :: rest))
      (opening kind lead done ++ (e.head ++ (e.tree.text ++ b))) := by
  have hlength := hb.length_le
  have htree := (validEntries_split hvalid).2.1.2.2
  refine shows_of_reads (reads_done hlead hvalid hb) fun path =>
    reaches_entry hvalid hdistinct ?_ (fun e' rest' _ => ?_) fun path =>
      reaches_value_iff htree (distinct_tree hdistinct) ?_
  · simp
  · simp [opening, ahead, Entry.text]
    omega
  · simp
    omega

theorem shows_comma {x : List Char} (hblank : Blank x) (hshort : ∀ e' rest', rest = e' :: rest' →
      x.length ≤ e'.head.length) : Shows (d + 1) (.node kind lead (done ++ e :: rest))
      (opening kind lead (done ++ [e]) ++ x) := by
  have htree := (validEntries_split hvalid).2.1.2.2
  refine shows_of_reads (reads_comma hlead hvalid hblank) fun path =>
    reaches_entry hvalid hdistinct ?_ (fun e' rest' hrest => ?_) fun path =>
      reaches_value_iff htree (distinct_tree hdistinct) ?_
  · simp [opening, ahead, Entry.text]
  · simpa using hshort e' rest' hrest
  · simp [opening, ahead, Entry.text]
    omega

theorem shows_head {x : List Char} (hx : x <+: e.head) :
    Shows (d + 1) (.node kind lead (done ++ e :: rest)) (opening kind lead done ++ x) := by
  obtain ⟨hdone, ⟨hhead, -, -⟩, -⟩ := validEntries_split hvalid
  have hlength := hx.length_le
  rcases head_cases hhead hx with hblank | ⟨rfl, b, z, hb, rfl, ⟨s, hz, -⟩, hunnamed⟩
  · rcases done.eq_nil_or_concat with rfl | ⟨init, last, rfl⟩
    · have hgap : opening kind lead [] ++ x = kind.opener :: (lead ++ x) := by simp [opening, ahead]
      rw [hgap]
      refine shows_gap (hlead.append hblank) ?_
      rintro _ _ ⟨rfl, rfl⟩
      simp [opening, ahead]
      omega
    · have hsplit : init.concat last ++ e :: rest = init ++ last :: e :: rest := by simp
      rw [hsplit] at hvalid hdistinct ⊢
      rw [List.concat_eq_append]
      refine shows_comma hlead hvalid hdistinct hblank ?_
      rintro _ _ ⟨rfl, rfl⟩
      exact hlength
  · exact shows_of_fails (fails_name hlead hdone hb hz hunnamed)

theorem shows_tree {y : List Char} (hy : y <+: e.tree.text) (hne : y ≠ [])
    (hproper : y ≠ e.tree.text) (h : Shows d e.tree y) :
    Shows (d + 1) (.node kind lead (done ++ e :: rest))
      (opening kind lead done ++ (e.head ++ y)) := by
  have hlength := hy.length_le
  have htree := (validEntries_split hvalid).2.1.2.2
  rcases closes_or_fails htree (distinct_tree hdistinct) hy hne hproper with
    ⟨w, hw, -, -⟩ | hfails
  · refine shows_of_reads (reads_tree hlead hvalid hy hne hw) fun path =>
      reaches_entry hvalid hdistinct (by simp) (fun e' rest' _ => ?_) fun path => ?_
    · simp [opening, ahead, Entry.text]
      omega
    · have hrest : (opening kind lead done ++ (e.head ++ y)).length -
          (opening kind lead done ++ e.head).length = y.length := by
        simp
        omega
      rw [hrest, h w hw]
  · exact shows_of_fails (fails_tree hlead hvalid hy hne hfails)

end Containers

theorem shows_begun {d : Nat} {t : ParseTree} (h : t.Valid d) (hdistinct : t.Distinct)
    {y : List Char} (hy : y <+: t.text) (hne : y ≠ []) : Shows d t y := by
  induction h generalizing y with
  | @scalar d text json h =>
    by_cases hproper : y = text
    · rw [hproper]
      exact shows_text (.scalar h) hdistinct
    · exact shows_scalar h hy hne hproper
  | @node d kind lead entries hlead hentries htrees ih =>
    have hnode : (ParseTree.node kind lead entries).Valid (d + 1) := .node hlead hentries htrees
    have hvalid := (valid_node hnode).2
    by_cases hproper : y = (ParseTree.node kind lead entries).text
    · exact hproper ▸ shows_text hnode hdistinct
    cases exists_ending hy hne hproper with
    | @lead b hb =>
      have hlength := hb.length_le
      refine shows_gap (hlead.mono hb) fun e rest _ => ?_
      simp [opening, ahead]
      omega
    | head hsplit hx =>
      subst hsplit
      exact shows_head hlead hvalid hdistinct hx
    | @tree done rest e y hsplit hvalue hbegun hpart =>
      subst hsplit
      exact shows_tree hlead hvalid hdistinct hvalue hbegun hpart
        (ih e (by simp) (distinct_tree hdistinct) hvalue hbegun)
    | after hsplit hb =>
      subst hsplit
      exact shows_done hlead hvalid hdistinct hb

end Agents.PartialJson
