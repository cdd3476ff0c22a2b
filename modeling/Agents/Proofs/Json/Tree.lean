import Agents.Proofs.Json.Token
import Mathlib.Data.List.Induction

/-! # How a text spells a value

A `ParseTree` is a value together with the way its text spells it: the blanks, the raw text of every
scalar, and the entries of every container in the order of the text. Each part of a value is reached
by a path, and ends at a place of the text (`ParseTree.Part`); the parts of the tree are those of
its value (`ParseTree.Part.at?_value`, `ParseTree.Valid.exists_part`).
-/

namespace Agents.Json

/-! ## Containers -/

inductive Container where
  | list
  | object
deriving DecidableEq, Repr

inductive Step where
  | index (i : Nat)
  | member (name : String)
deriving DecidableEq, Repr

namespace Container

def opener : Container → Char
  | .list => '['
  | .object => '\x7b'

def closer : Container → Char
  | .list => ']'
  | .object => '\x7d'

/-- The value with these entries; the entries of a list have no names. -/
def build : Container → List (String × Json) → Json
  | .list, entries => .arr (entries.map (·.2))
  | .object, entries => ofMembers entries

def step : Container → Nat → String → Step
  | .list, i, _ => .index i
  | .object, _, name => .member name

end Container

/-! ## Trees -/

/-- An entry of a container: what stands before its value, the value, and the blanks after it. -/
structure Entry (α : Type) where
  name : String
  head : List Char
  tree : α
  after : List Char

/-- A value and the text that spells it. -/
inductive ParseTree where
  | scalar (text : List Char) (value : Json)
  | node (kind : Container) (lead : List Char) (entries : List (Entry ParseTree))

namespace ParseTree

mutual

def text : ParseTree → List Char
  | .scalar text _ => text
  | .node kind lead entries =>
    kind.opener :: (lead ++ ([','].intercalate (texts entries) ++ [kind.closer]))

def texts : List (Entry ParseTree) → List (List Char)
  | [] => []
  | ⟨_, head, tree, after⟩ :: rest => (head ++ (tree.text ++ after)) :: texts rest

end

mutual

def value : ParseTree → Json
  | .scalar _ value => value
  | .node kind _ entries => kind.build (values entries)

def values : List (Entry ParseTree) → List (String × Json)
  | [] => []
  | ⟨name, _, tree, _⟩ :: rest => (name, tree.value) :: values rest

end

end ParseTree

def Entry.text (e : Entry ParseTree) : List Char := e.head ++ (e.tree.text ++ e.after)

def Entry.member (e : Entry ParseTree) : String × Json := (e.name, e.tree.value)

theorem map_fst_member (entries : List (Entry ParseTree)) :
    (entries.map Entry.member).map (·.1) = entries.map (·.name) := List.map_map

def ahead (done : List (Entry ParseTree)) : List Char := done.flatMap fun e => e.text ++ [',']

def trail (entries : List (Entry ParseTree)) : List Char := entries.flatMap fun e => ',' :: e.text

namespace ParseTree

theorem texts_eq (entries : List (Entry ParseTree)) : texts entries = entries.map Entry.text := by
  induction entries with
  | nil => rfl
  | cons e rest ih => rw [texts, ih]; rfl

theorem values_eq (entries : List (Entry ParseTree)) :
    values entries = entries.map Entry.member := by
  induction entries with
  | nil => rfl
  | cons e rest ih => rw [values, ih]; rfl

/-- The entries of a container with their commas. -/
def joined (entries : List (Entry ParseTree)) : List Char :=
  [','].intercalate (entries.map Entry.text)

theorem text_node (kind : Container) (lead : List Char) (entries : List (Entry ParseTree)) :
    (node kind lead entries).text =
      kind.opener :: (lead ++ (joined entries ++ [kind.closer])) := by
  rw [text, texts_eq]
  rfl

theorem value_node (kind : Container) (lead : List Char) (entries : List (Entry ParseTree)) :
    (node kind lead entries).value = kind.build (entries.map Entry.member) := by
  rw [value, values_eq]

theorem joined_cons (e : Entry ParseTree) (rest : List (Entry ParseTree)) :
    joined (e :: rest) = e.text ++ trail rest := by
  induction rest generalizing e with
  | nil => simp [joined, trail]
  | cons e' rest ih =>
    have hjoin : joined (e :: e' :: rest) = e.text ++ [','] ++ joined (e' :: rest) :=
      List.intercalate_cons_cons
    rw [hjoin, ih e']
    simp [trail]

@[simp] theorem joined_nil : joined [] = [] := rfl

theorem joined_append (done : List (Entry ParseTree)) (e : Entry ParseTree)
    (rest : List (Entry ParseTree)) :
    joined (done ++ e :: rest) = ahead done ++ joined (e :: rest) := by
  induction done with
  | nil => rfl
  | cons e' done ih =>
    have hne : ((done ++ e :: rest).map Entry.text) ≠ [] := by simp
    have hjoin : joined (e' :: (done ++ e :: rest)) =
        e'.text ++ [','] ++ joined (done ++ e :: rest) := List.intercalate_cons_of_ne_nil hne
    rw [List.cons_append, hjoin, ih]
    simp [ahead]

end ParseTree

/-! ## Valid trees -/

/-- A text that is a value without parts. -/
inductive IsScalar : List Char → Json → Prop where
  | nullWord : IsScalar ['n', 'u', 'l', 'l'] .null
  | trueWord : IsScalar ['t', 'r', 'u', 'e'] (.bool true)
  | falseWord : IsScalar ['f', 'a', 'l', 's', 'e'] (.bool false)
  | number {text : List Char} {n : Number} (h : number text = .ok (n, [])) :
      IsScalar text (.num n)
  | string {raw cs : List Char} (h : string .plain (raw ++ ['"']) = .ok (cs, [])) :
      IsScalar ('"' :: (raw ++ ['"'])) (.str (String.ofList cs))

/-- What stands before the value of an entry: blanks in a list, a name and a colon in an object. -/
inductive IsHead : Container → List Char → String → Prop where
  | list {b : List Char} (hb : Blank b) : IsHead .list b ""
  | object {b raw cs b' b'' : List Char} (hb : Blank b)
      (hname : Json.string .plain (raw ++ ['"']) = .ok (cs, [])) (hb' : Blank b')
      (hb'' : Blank b'') :
      IsHead .object (b ++ '"' :: (raw ++ '"' :: (b' ++ ':' :: b''))) (String.ofList cs)

/-- The tree is spelled as JSON is, with at most so many containers inside one another. -/
inductive ParseTree.Valid : Nat → ParseTree → Prop where
  | scalar {d : Nat} {text : List Char} {value : Json} (h : IsScalar text value) :
      Valid d (.scalar text value)
  | node {d : Nat} {kind : Container} {lead : List Char} {entries : List (Entry ParseTree)}
      (hlead : Blank lead)
      (hentries : ∀ e ∈ entries, IsHead kind e.head e.name ∧ Blank e.after)
      (htrees : ∀ e ∈ entries, Valid d e.tree) : Valid (d + 1) (.node kind lead entries)

/-- A document: a value as it is spelled, with blanks around it. -/
structure Spelling (text : List Char) where
  before : List Char
  tree : ParseTree
  after : List Char
  blank_before : Blank before
  valid : tree.Valid maxDepth
  blank_after : Blank after
  text_eq : text = before ++ (tree.text ++ after)

theorem spells_of_quoted {raw cs : List Char}
    (h : string .plain (raw ++ ['"']) = .ok (cs, [])) : Spells .plain raw cs := by
  obtain ⟨raw', heq, hraw⟩ := spells_of_string h
  obtain rfl : raw = raw' := List.append_cancel_right heq
  exact hraw

theorem IsHead.append {kind : Container} {head b : List Char} {name : String}
    (h : IsHead kind head name) (hb : Blank b) : IsHead kind (head ++ b) name := by
  cases h with
  | list hb₁ => exact .list (hb₁.append hb)
  | object hb₁ hname hb₂ hb₃ =>
    have hhead := IsHead.object hb₁ hname hb₂ (hb₃.append hb)
    simpa using hhead

/-! ## First characters -/

def isStart (c : Char) : Bool :=
  c = 'n' || c = 't' || c = 'f' || c = '"' || c = '[' || c = '\x7b' || c = '-' || isDigit c

theorem eq_of_isBlank {c : Char} (h : isBlank c = true) :
    c = ' ' ∨ c = '\n' ∨ c = '\t' ∨ c = '\r' := by
  simpa only [isBlank, Bool.or_eq_true, decide_eq_true_eq, or_assoc] using h

theorem isBlank_of_isStart {c : Char} (h : isStart c = true) : isBlank c = false := by
  by_contra hblank
  rcases eq_of_isBlank (Bool.not_eq_false _ ▸ hblank) with rfl | rfl | rfl | rfl <;>
    exact absurd h (by decide)

theorem ne_closer_of_isStart {c : Char} (h : isStart c = true) (kind : Container) :
    c ≠ kind.closer := by
  rintro rfl
  cases kind <;> exact absurd h (by decide)

theorem isStart_opener (kind : Container) : isStart kind.opener = true := by
  cases kind <;> decide

def Starts (s : List Char) : Prop := ∃ c rest, s = c :: rest ∧ isStart c = true

theorem Starts.skipBlanks {s : List Char} (h : Starts s) : skipBlanks s = s := by
  obtain ⟨c, rest, rfl, hc⟩ := h
  exact skipBlanks_cons (isBlank_of_isStart hc) rest

theorem Starts.append {s : List Char} (h : Starts s) (t : List Char) : Starts (s ++ t) := by
  obtain ⟨c, rest, rfl, hc⟩ := h
  exact ⟨c, rest ++ t, rfl, hc⟩

theorem IsScalar.starts {text : List Char} {value : Json} (h : IsScalar text value) :
    Starts text := by
  cases h with
  | number h =>
    obtain ⟨c, t, rfl, hc⟩ := head_of_number h
    refine ⟨c, t, rfl, ?_⟩
    rcases hc with rfl | hc
    · rfl
    · simp [isStart, hc]
  | _ => exact ⟨_, _, rfl, rfl⟩

theorem ParseTree.Valid.starts {d : Nat} {t : ParseTree} (h : t.Valid d) : Starts t.text := by
  cases h with
  | scalar h => exact h.starts
  | node =>
    rw [ParseTree.text_node]
    exact ⟨_, _, rfl, isStart_opener _⟩

/-! ## Parts -/

/-- No object has two members of one name. -/
inductive ParseTree.Distinct : ParseTree → Prop where
  | scalar {text : List Char} {value : Json} : Distinct (.scalar text value)
  | node {kind : Container} {lead : List Char} {entries : List (Entry ParseTree)}
      (hnames : kind = .object → (entries.map (·.name)).Nodup)
      (htrees : ∀ e ∈ entries, Distinct e.tree) : Distinct (.node kind lead entries)

def at? : List Step → Json → Option Json
  | [], json => some json
  | .index i :: path, .arr items => items[i]?.bind (at? path)
  | .member name :: path, .obj fields => (Fields.get? name fields).bind (at? path)
  | _ :: _, _ => none

/-- The text of a container up to an entry. -/
def opening (kind : Container) (lead : List Char) (done : List (Entry ParseTree)) : List Char :=
  kind.opener :: (lead ++ ahead done)

/-- The part of a tree at a path, and the text of the tree up to the end of that part. -/
inductive ParseTree.Part : ParseTree → List Step → List Char → ParseTree → Prop where
  | here {t : ParseTree} : Part t [] t.text t
  | entry {kind : Container} {lead : List Char} {done rest : List (Entry ParseTree)}
      {e : Entry ParseTree} {path : List Step} {front : List Char} {part : ParseTree}
      (h : Part e.tree path front part) :
      Part (.node kind lead (done ++ e :: rest)) (kind.step done.length e.name :: path)
        (opening kind lead done ++ (e.head ++ front)) part

namespace Fields

theorem get?_ofList_append (key : String) (ms : List (String × Json)) (k : String) (v : Json) :
    get? key (ofList (ms ++ [(k, v)])) = if k = key then some v else get? key (ofList ms) := by
  rw [ofList, List.foldl_append]
  show get? key (insert k v (ofList ms)) = _
  split
  next h => rw [h, get?_insert_self]
  next h => rw [get?_insert_ne (Ne.symm h)]

theorem get?_ofList {ms : List (String × Json)} (hnames : (ms.map (·.1)).Nodup) {k : String}
    {v : Json} (h : (k, v) ∈ ms) : get? k (ofList ms) = some v := by
  induction ms using List.reverseRecOn with
  | nil => cases h
  | append_singleton ms last ih =>
    obtain ⟨l, w⟩ := last
    rw [List.map_append] at hnames
    obtain ⟨hfirst, -, hdisjoint⟩ := List.nodup_append.mp hnames
    rw [get?_ofList_append]
    rcases List.mem_append.mp h with h | h
    · rw [if_neg, ih hfirst h]
      exact Ne.symm (hdisjoint k (List.mem_map_of_mem h) l List.mem_cons_self)
    · cases List.mem_singleton.mp h
      exact if_pos rfl

theorem mem_of_mem_insert {k : String} {v : Json} {fields : Fields} {member : String × Json}
    (h : member ∈ insert k v fields) : member = (k, v) ∨ member ∈ fields := by
  induction fields with
  | nil => exact .inl (List.mem_singleton.mp h)
  | cons head rest ih =>
    obtain ⟨l, w⟩ := head
    unfold insert at h
    split_ifs at h
    · exact List.mem_cons.mp h
    · exact (List.mem_cons.mp h).imp_right (List.mem_cons_of_mem _)
    · rcases List.mem_cons.mp h with rfl | h
      · exact .inr List.mem_cons_self
      · exact (ih h).imp_right (List.mem_cons_of_mem _)

theorem mem_of_mem_ofList {ms : List (String × Json)} {member : String × Json}
    (h : member ∈ ofList ms) : member ∈ ms := by
  induction ms using List.reverseRecOn with
  | nil => cases h
  | append_singleton ms last ih =>
    rw [ofList, List.foldl_append] at h
    rcases mem_of_mem_insert h with rfl | h
    · exact List.mem_append_right ms List.mem_cons_self
    · exact List.mem_append_left _ (ih h)

theorem mem_of_get? {key : String} {v : Json} {fields : Fields} (h : get? key fields = some v) :
    (key, v) ∈ fields := by
  induction fields with
  | nil => cases h
  | cons head rest ih =>
    obtain ⟨l, w⟩ := head
    rw [get?] at h
    split_ifs at h with hkey
    · cases h
      exact hkey ▸ List.mem_cons_self
    · exact List.mem_cons_of_mem _ (ih h)

end Fields

theorem at?_build {kind : Container} {ms : List (String × Json)}
    (hnames : kind = .object → (ms.map (·.1)).Nodup) {i : Nat} {name : String} {w : Json}
    (h : ms[i]? = some (name, w)) (path : List Step) :
    (kind.build ms).at? (kind.step i name :: path) = w.at? path := by
  cases kind with
  | list => simp [Container.build, Container.step, at?, h]
  | object =>
    simp [Container.build, Container.step, at?, ofMembers,
      Fields.get?_ofList (hnames rfl) (List.mem_of_getElem? h)]

theorem ParseTree.Part.at?_value {t part : ParseTree} {path : List Step} {front : List Char}
    (h : t.Part path front part) (ht : t.Distinct) : t.value.at? path = some part.value := by
  induction h with
  | here => rfl
  | @entry kind lead done rest e path front part h ih =>
    cases ht with
    | node hnames htrees =>
      have hentry : ((done ++ e :: rest).map Entry.member)[done.length]? =
          some (e.name, e.tree.value) := by simp [Entry.member]
      rw [value_node, at?_build (map_fst_member _ ▸ hnames) hentry]
      exact ih (htrees e (by simp))

theorem exists_entry_of_at? {kind : Container} {ms : List (String × Json)} {step : Step}
    {path : List Step} {w : Json} (h : (kind.build ms).at? (step :: path) = some w) :
    ∃ i name v, ms[i]? = some (name, v) ∧ step = kind.step i name ∧ v.at? path = some w := by
  cases kind with
  | list =>
    cases step with
    | member name => cases h
    | index i =>
      obtain ⟨v, hv, hpath⟩ := Option.bind_eq_some_iff.mp h
      rw [List.getElem?_map] at hv
      obtain ⟨⟨name, v⟩, hi, rfl⟩ := Option.map_eq_some_iff.mp hv
      exact ⟨i, name, v, hi, rfl, hpath⟩
  | object =>
    cases step with
    | index i => cases h
    | member name =>
      obtain ⟨v, hv, hpath⟩ := Option.bind_eq_some_iff.mp h
      obtain ⟨i, hi⟩ := List.mem_iff_getElem?.mp (Fields.mem_of_mem_ofList (Fields.mem_of_get? hv))
      exact ⟨i, name, v, hi, rfl, hpath⟩

theorem exists_split {α : Type} {l : List α} {i : Nat} {a : α} (h : l[i]? = some a) :
    ∃ done rest, l = done ++ a :: rest ∧ done.length = i := by
  obtain ⟨hlt, rfl⟩ := List.getElem?_eq_some_iff.mp h
  refine ⟨l.take i, l.drop (i + 1), ?_, List.length_take_of_le hlt.le⟩
  rw [← List.drop_eq_getElem_cons hlt, List.take_append_drop]

/-- Whatever a path leads to in the value of a tree is a part of the tree. -/
theorem ParseTree.Valid.exists_part {d : Nat} {t : ParseTree} (h : t.Valid d) {path : List Step}
    {w : Json} (hw : t.value.at? path = some w) :
    ∃ front part, t.Part path front part ∧ part.value = w := by
  induction h generalizing path with
  | @scalar d text json hscalar =>
    cases path with
    | nil =>
      cases hw
      exact ⟨text, _, .here, rfl⟩
    | cons step path => cases hscalar <;> cases step <;> cases hw
  | @node d kind lead entries _ _ _ ih =>
    cases path with
    | nil =>
      cases hw
      exact ⟨_, _, .here, rfl⟩
    | cons step path =>
      rw [value_node] at hw
      obtain ⟨i, name, v, hi, rfl, hpath⟩ := exists_entry_of_at? hw
      rw [List.getElem?_map] at hi
      obtain ⟨e, he, hmember⟩ := Option.map_eq_some_iff.mp hi
      cases hmember
      obtain ⟨done, rest, rfl, rfl⟩ := exists_split he
      obtain ⟨front, part, hpart, rfl⟩ := ih e (by simp) hpath
      exact ⟨_, part, .entry hpart, rfl⟩

end Agents.Json
