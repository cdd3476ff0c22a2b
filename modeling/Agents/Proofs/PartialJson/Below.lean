import Agents.Proofs.Json.Tree
import Mathlib.Data.List.Nodup

/-! # Unfinished values

A value is `Below` a tree when it is what the tree may look like while it is still being written:
every string and number of it has come to some beginning, every container to some of its entries.
It `Keeps` what a text has finished when every part of the tree that ends within the text is found
in it as it finally is.
-/

namespace Agents.PartialJson

open Json

/-! ## Below -/

/-- What a value may be before it is finished. -/
inductive Below : Json → ParseTree → Prop where
  | same (t : ParseTree) : Below t.value t
  | str {text : List Char} {s s' : String} (h : s'.toList <+: s.toList) :
      Below (.str s') (.scalar text (.str s))
  | num {text text' : List Char} {n n' : Number} (h : text' <+: text)
      (hread : number text' = .ok (n', [])) : Below (.num n') (.scalar text (.num n))
  | arr {lead : List Char} {entries : List (Entry ParseTree)} {items : List Json}
      (hlength : items.length ≤ entries.length)
      (h : ∀ (i : Nat) (item : Json) (e : Entry ParseTree), items[i]? = some item →
        entries[i]? = some e → Below item e.tree) : Below (.arr items) (.node .list lead entries)
  | obj {lead : List Char} {entries : List (Entry ParseTree)} {fields : Fields}
      (hnames : ∀ member ∈ fields, member.1 ∈ entries.map (·.name))
      (h : ∀ member ∈ fields, ∀ e ∈ entries, e.name = member.1 → Below member.2 e.tree) :
      Below (.obj fields) (.node .object lead entries)

/-- Members that are the first entries of a container, as far as these have come. -/
def Fits (ms : List (String × Json)) (entries : List (Entry ParseTree)) : Prop :=
  ∀ (i : Nat) (k : String) (w : Json), ms[i]? = some (k, w) →
    ∃ e, entries[i]? = some e ∧ e.name = k ∧ Below w e.tree

theorem fits_nil (entries : List (Entry ParseTree)) : Fits [] entries := nofun

theorem Fits.cons {m : String × Json} {ms : List (String × Json)} {e : Entry ParseTree}
    {entries : List (Entry ParseTree)} (hname : e.name = m.1) (hvalue : Below m.2 e.tree)
    (h : Fits ms entries) : Fits (m :: ms) (e :: entries) := by
  intro i k w hi
  cases i with
  | zero =>
    cases hi
    exact ⟨e, rfl, hname, hvalue⟩
  | succ i => exact h i k w hi

theorem fits_concat (done rest : List (Entry ParseTree)) {e : Entry ParseTree} {w : Json}
    (h : Below w e.tree) : Fits (done.map Entry.member ++ [(e.name, w)]) (done ++ e :: rest) := by
  induction done with
  | nil => exact (fits_nil rest).cons rfl h
  | cons e' done ih => exact ih.cons rfl (.same e'.tree)

theorem below_build {kind : Container} {lead : List Char} {ms : List (String × Json)}
    {entries : List (Entry ParseTree)} (hnames : kind = .object → (entries.map (·.name)).Nodup)
    (h : Fits ms entries) : Below (kind.build ms) (.node kind lead entries) := by
  cases kind with
  | list =>
    refine .arr ?_ fun i item e hitem he => ?_
    · by_contra hlong
      rw [List.length_map, not_le] at hlong
      obtain ⟨e, he, -⟩ := h entries.length _ _ (List.getElem?_eq_getElem hlong)
      simp at he
    · rw [List.getElem?_map] at hitem
      obtain ⟨⟨k, w⟩, hi, rfl⟩ := Option.map_eq_some_iff.mp hitem
      obtain ⟨e', he', -, hbelow⟩ := h i k w hi
      rw [he] at he'
      cases he'
      exact hbelow
  | object =>
    have hentry : ∀ member ∈ Fields.ofList ms,
        ∃ e ∈ entries, e.name = member.1 ∧ Below member.2 e.tree := by
      rintro ⟨k, w⟩ hmem
      obtain ⟨i, hi⟩ := List.mem_iff_getElem?.mp (Fields.mem_of_mem_ofList hmem)
      obtain ⟨e, he, hname, hbelow⟩ := h i k w hi
      exact ⟨e, List.mem_of_getElem? he, hname, hbelow⟩
    refine .obj (fun member hmem => ?_) fun member hmem e he hname => ?_
    · obtain ⟨e, he, hname, -⟩ := hentry member hmem
      exact hname ▸ List.mem_map_of_mem he
    · obtain ⟨e', he', hname', hbelow⟩ := hentry member hmem
      have heq : e = e' :=
        List.inj_on_of_nodup_map (hnames rfl) he he' (hname.trans hname'.symm)
      exact heq ▸ hbelow

/-! ## What is kept -/

/-- Every part that ends within the text of the tree so far is found in the value. -/
def Keeps (y : List Char) (t : ParseTree) (v : Json) : Prop :=
  ∀ path front part, t.Part path front part → front <+: y → v.at? path = some part.value

theorem part_node {kind : Container} {lead front : List Char} {entries : List (Entry ParseTree)}
    {path : List Step} {part : ParseTree}
    (h : (ParseTree.node kind lead entries).Part path front part) :
    front = (ParseTree.node kind lead entries).text ∨ ∃ done e rest path' front',
      entries = done ++ e :: rest ∧ path = kind.step done.length e.name :: path' ∧
      front = opening kind lead done ++ (e.head ++ front') ∧ e.tree.Part path' front' part := by
  generalize ht : ParseTree.node kind lead entries = t at h
  cases h with
  | here => exact .inl rfl
  | entry h =>
    cases ht
    exact .inr ⟨_, _, _, _, _, rfl, rfl, rfl, h⟩

theorem front_ne_nil {t part : ParseTree} {path : List Step} {front : List Char}
    (h : t.Part path front part) (ht : t.text ≠ []) : front ≠ [] := by
  cases h with
  | here => exact ht
  | entry h => exact List.cons_ne_nil _ _

/-- Two entries of one list are the same, or one of them stands before the other. -/
theorem eq_or_before_or_after {α : Type} {done rest done' rest' : List α} {e e' : α}
    (h : done ++ e :: rest = done' ++ e' :: rest') :
    (done = done' ∧ e = e' ∧ rest = rest') ∨
      (∃ mid, done' = done ++ e :: mid ∧ rest = mid ++ e' :: rest') ∨
      ∃ mid, done = done' ++ e' :: mid := by
  rcases List.append_eq_append_iff.mp h with ⟨mid, rfl, hmid⟩ | ⟨mid, rfl, hmid⟩
  · cases mid with
    | nil =>
      cases hmid
      exact .inl ⟨(List.append_nil done).symm, rfl, rfl⟩
    | cons d mid =>
      cases hmid
      exact .inr (.inl ⟨mid, rfl, rfl⟩)
  · cases mid with
    | nil =>
      cases hmid
      exact .inl ⟨List.append_nil done', rfl, rfl⟩
    | cons d mid =>
      cases hmid
      exact .inr (.inr ⟨mid, rfl⟩)

section Containers

variable {kind : Container} {lead : List Char} {entries : List (Entry ParseTree)}

theorem not_text_isPrefix {done rest : List (Entry ParseTree)} {e : Entry ParseTree} {x : List Char}
    (hx : x.length ≤ e.text.length) :
    ¬ (ParseTree.node kind lead (done ++ e :: rest)).text <+: opening kind lead done ++ x := by
  intro h
  have hlength := h.length_le
  rw [ParseTree.text_node, ParseTree.joined_append, ParseTree.joined_cons] at hlength
  simp [opening, Entry.text] at hlength hx
  omega

/-- A beginning that ends in front of the first value contains no part. -/
theorem keeps_opening {y : List Char} {v : Json} (htexts : ∀ e ∈ entries, e.tree.text ≠ [])
    (hproper : ¬ (ParseTree.node kind lead entries).text <+: y)
    (hshort : ∀ e rest, entries = e :: rest →
      y.length ≤ (opening kind lead [] ++ e.head).length) :
    Keeps y (.node kind lead entries) v := by
  intro path front part h hy
  rcases part_node h with rfl | ⟨done, e, rest, path', front', rfl, rfl, rfl, hpart⟩
  · exact absurd hy hproper
  exfalso
  have hfront := List.length_pos_of_ne_nil (front_ne_nil hpart (htexts e (by simp)))
  have hlength := hy.length_le
  cases done with
  | nil =>
    have hbound := hshort e rest rfl
    simp at hlength hbound
    omega
  | cons e' done =>
    have hbound := hshort e' (done ++ e :: rest) rfl
    simp [opening, ahead, Entry.text] at hlength hbound
    omega

theorem nodup_members {done rest : List (Entry ParseTree)} {e : Entry ParseTree}
    (hnames : kind = .object → ((done ++ e :: rest).map (·.name)).Nodup) (w : Json) :
    kind = .object → ((done.map Entry.member ++ [(e.name, w)]).map (·.1)).Nodup := by
  intro hkind
  have hsub : (done ++ [e]).Sublist (done ++ e :: rest) := by simp
  have hnames' := (hnames hkind).sublist (hsub.map (·.name))
  rw [List.map_append] at hnames'
  rw [List.map_append, map_fst_member]
  exact hnames'

/-- A beginning that ends in one entry contains the parts of those before it, and of that entry
what it contains of that. -/
theorem keeps_entry {done rest : List (Entry ParseTree)} {e : Entry ParseTree} {y : List Char}
    {w : Json} (hsplit : entries = done ++ e :: rest)
    (hdistinct : (ParseTree.node kind lead entries).Distinct)
    (htexts : ∀ e ∈ entries, e.tree.text ≠ [])
    (hproper : ¬ (ParseTree.node kind lead entries).text <+: y)
    (hshort : ∀ e' rest', rest = e' :: rest' →
      y.length ≤ (opening kind lead (done ++ [e]) ++ e'.head).length)
    (hlast : ∀ path front part, e.tree.Part path front part →
      opening kind lead done ++ (e.head ++ front) <+: y → w.at? path = some part.value) :
    Keeps y (.node kind lead entries) (kind.build (done.map Entry.member ++ [(e.name, w)])) := by
  intro path front part h hy
  rcases part_node h with rfl | ⟨done', e', rest', path', front', hsplit', rfl, rfl, hpart⟩
  · exact absurd hy hproper
  cases hdistinct with
  | node hnames htrees =>
  have hat (i : Nat) {name : String} {v : Json}
      (hi : (done.map Entry.member ++ [(e.name, w)])[i]? = some (name, v)) :=
    at?_build (nodup_members (hsplit ▸ hnames) w) hi path'
  rcases eq_or_before_or_after (hsplit.symm.trans hsplit') with
    ⟨rfl, rfl, rfl⟩ | ⟨mid, rfl, rfl⟩ | ⟨mid, rfl⟩
  · rw [hat done.length (v := w) (by simp)]
    exact hlast path' front' part hpart hy
  · -- the text of a later entry is not reached
    exfalso
    have hfront := List.length_pos_of_ne_nil (front_ne_nil hpart (htexts e' (by simp [hsplit])))
    have hlength := hy.length_le
    cases mid with
    | nil =>
      have hbound := hshort e' rest' rfl
      simp [opening] at hlength hbound
      omega
    | cons e₂ mid =>
      have hbound := hshort e₂ (mid ++ e' :: rest') rfl
      simp [opening, ahead, Entry.text] at hlength hbound
      omega
  · -- an earlier entry is finished
    rw [hat done'.length (v := e'.tree.value) (by simp [Entry.member])]
    exact hpart.at?_value (htrees e' (by simp [hsplit]))

end Containers

end Agents.PartialJson
