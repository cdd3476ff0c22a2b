import Agents.Proofs.PartialJson.Below
import Agents.Proofs.PartialJson.Closing

/-! # The beginning of a value

Closed, the beginning of a value either is read, as something below the value (`Closes`), or it is
not read to its end whatever closing brackets follow (`Fails`). Here this is shown of scalars
(`closes_or_fails_scalar`); of names, which are no values, it is shown that nothing is read after
them (`head_cases`).
-/

namespace Agents.PartialJson

open Json

/-! ## Outcomes -/

/-- What may follow a value inside of containers that are being closed. -/
def Closing (r : List Char) : Prop := ∀ c ∈ r.head?, c = ']' ∨ c = '\x7d'

theorem Closing.halts {r : List Char} (h : Closing r) : Halts r := by
  intro c hc
  rcases h c hc with rfl | rfl <;> rfl

theorem closing_closer (kind : Container) (r : List Char) : Closing (kind.closer :: r) := by
  intro c hc
  cases hc
  cases kind
  · exact .inl rfl
  · exact .inr rfl

/-- Closed, the beginning is read as a value below the tree that keeps what it has finished. -/
def Closes (d : Nat) (t : ParseTree) (y : List Char) : Prop :=
  ∃ v, Reads d (close y) v ∧ Below v t ∧ Keeps y t v

/-- Closed, the beginning is not read, or not to its end. -/
def Fails (d : Nat) (y : List Char) : Prop :=
  ∀ r, Closing r → ∀ v rest, value d (close y ++ r) = .ok (v, rest) → ¬ Halts rest

/-! ## Scalars -/

theorem not_isPrefix_of_proper {y text : List Char} (hy : y <+: text) (hproper : y ≠ text) :
    ¬ text <+: y := fun h => hproper (hy.eq_of_length_le h.length_le)

theorem keeps_scalar {y text : List Char} {json : Json} (hy : y <+: text) (hproper : y ≠ text)
    (v : Json) : Keeps y (.scalar text json) v := by
  intro path front part h hfront
  cases h
  exact absurd hfront (not_isPrefix_of_proper hy hproper)

theorem close_self {y : List Char} (hsolid : EndsSolid y) (hy : Leaves y {}) : close y = y := by
  have hdrop := dropTrailing_blank hsolid blank_nil
  rw [List.append_nil] at hdrop
  rw [close_of_flat hy, hdrop]

theorem endsSolid_of_forall {y : List Char} (hne : y ≠ []) (h : ∀ c ∈ y, Solid c) :
    EndsSolid y := by
  rcases y.eq_nil_or_concat with rfl | ⟨y', c, rfl⟩
  · exact absurd rfl hne
  · rw [List.concat_eq_append] at h ⊢
    exact endsSolid_concat (h c (by simp)) y'

def isLetter (c : Char) : Bool := !Text.isBlank c && !isMark c

theorem isMark_of_isLetter {c : Char} (h : isLetter c = true) : isMark c = false := by
  simp only [isLetter, Bool.and_eq_true, Bool.not_eq_true'] at h
  exact h.2

theorem solid_of_isLetter {c : Char} (h : isLetter c = true) : Solid c := by
  obtain ⟨-, -, -, -, -, hcomma⟩ := isMark_eq_false (isMark_of_isLetter h)
  simp only [isLetter, Bool.and_eq_true, Bool.not_eq_true'] at h
  exact ⟨h.1, hcomma⟩

theorem fails_word {d : Nat} {json : Json} {c : Char} {expected y : List Char}
    (hvalue : ∀ s, value d (c :: s) = literal json expected s)
    (hletters : (c :: expected).all isLetter = true) (hy : y <+: c :: expected) (hne : y ≠ [])
    (hproper : y ≠ c :: expected) : Fails d y := by
  have hletter : ∀ e ∈ c :: expected, isLetter e = true := List.all_eq_true.mp hletters
  have hclose : close y = y := close_self
    (endsSolid_of_forall hne fun e he => solid_of_isLetter (hletter e (hy.subset he)))
    (silent_of_forall fun e he => isMark_of_isLetter (hletter e (hy.subset he))).leaves
  intro r hr v rest h
  exfalso
  cases y with
  | nil => exact hne rfl
  | cons e x =>
  obtain ⟨rfl, z, rfl⟩ := List.cons_prefix_cons.mp hy
  rw [hclose, List.cons_append, hvalue] at h
  obtain ⟨-, heq⟩ := literal_eq_ok h
  rw [List.append_assoc] at heq
  obtain rfl := List.append_cancel_left heq
  cases z with
  | nil => exact hproper (by simp)
  | cons e' z =>
    have hmark := isMark_of_isLetter (hletter e' (by simp))
    rcases hr e' rfl with rfl | rfl <;> exact absurd hmark (by decide)

theorem close_numeric {y : List Char} (hnumeric : AllNumeric y) (hne : y ≠ []) : close y = y :=
  close_self (endsSolid_of_forall hne fun c hc => solid_of_isNumeric (hnumeric c hc))
    (silent_numeric hnumeric).leaves

/-- A number that has begun is read as a number of its own, or not to its end. -/
theorem closes_or_fails_number {d : Nat} {text y : List Char} {n : Number}
    (h : number text = .ok (n, [])) (hy : y <+: text) (hne : y ≠ []) (hproper : y ≠ text) :
    Closes d (.scalar text (.num n)) y ∨ Fails d y := by
  have hnumeric : AllNumeric y := fun c hc => (number_text h).1 c (hy.subset hc)
  have hclose := close_numeric hnumeric hne
  by_cases hread : ∃ n', number y = .ok (n', [])
  · obtain ⟨n', hread⟩ := hread
    exact .inl ⟨.num n', by rw [hclose]; exact (IsScalar.number hread).reads d, .num hy hread,
      keeps_scalar hy hproper _⟩
  refine .inr fun r hr v rest hvalue hhalts => ?_
  obtain ⟨c, text', rfl, hc⟩ := head_of_number h
  cases y with
  | nil => exact hne rfl
  | cons e y =>
  obtain ⟨rfl, -⟩ := List.cons_prefix_cons.mp hy
  rw [hclose, List.cons_append, value_number d hc, ← List.cons_append] at hvalue
  cases hnumber : number (e :: y ++ r) with
  | error fault =>
    rw [hnumber] at hvalue
    cases hvalue
  | ok result =>
  obtain ⟨n', left⟩ := result
  rw [hnumber] at hvalue
  cases hvalue
  -- what was taken is not just the beginning
  obtain ⟨t, ht', heq, htaken⟩ := takes_number _ _ _ hnumber
  have hother : t ≠ e :: y := by
    rintro rfl
    exact hread ⟨n', by simpa using htaken [] nofun⟩
  rcases List.append_eq_append_iff.mp heq with ⟨z, rfl, hz⟩ | ⟨z, hz, hrest⟩
  · cases z with
    | nil => exact hother (by simp)
    | cons e' z =>
      have hnone := hr.halts e' (by rw [hz]; rfl)
      rw [ht' e' (by simp)] at hnone
      cases hnone
  · cases z with
    | nil => exact hother (by rw [hz, List.append_nil])
    | cons e' z =>
      have hnone := hhalts e' (by rw [hrest]; rfl)
      rw [hnumeric e' (by rw [hz]; simp)] at hnone
      cases hnone

/-- A string that has begun is closed by a quote, without a dangling backslash. -/
theorem close_quoted {e : Bool} {x : List Char} (h : Leaves ('"' :: x) ⟨true, e, []⟩)
    (hnil : x = [] → e = false) :
    close ('"' :: x) = '"' :: ((if e then x.dropLast else x) ++ ['"']) := by
  have hstring : closeString ⟨true, e, []⟩ ('"' :: x) =
      '"' :: ((if e then x.dropLast else x) ++ ['"']) := by
    cases e with
    | false => rfl
    | true =>
      have hx : x ≠ [] := fun hx => nomatch hnil hx
      simp [closeString, List.dropLast_cons_of_ne_nil hx]
  have hsolid : EndsSolid ('"' :: ((if e then x.dropLast else x) ++ ['"'])) :=
    (endsSolid_concat (c := '"') (by decide) _).append ['"']
  have hdrop := dropTrailing_blank hsolid blank_nil
  rw [List.append_nil] at hdrop
  rw [close_eq h, hstring, hdrop, List.append_nil]

theorem value_quoted {d : Nat} {x x' : List Char} (hclose : close x = '"' :: (x' ++ ['"']))
    (r : List Char) : value d (close x ++ r) = (string .plain (x' ++ '"' :: r)).map
      fun result => (.str (String.ofList result.1), result.2) := by
  rw [hclose, List.cons_append, value_quote, List.append_assoc, List.singleton_append]

theorem fails_quoted {d : Nat} {x x' : List Char} (hclose : close x = '"' :: (x' ++ ['"']))
    (herror : ∀ r result, string .plain (x' ++ '"' :: r) ≠ .ok result) : Fails d x := by
  intro r _ v rest hok
  rw [value_quoted hclose] at hok
  cases hstring : string .plain (x' ++ '"' :: r) with
  | error fault =>
    rw [hstring] at hok
    cases hok
  | ok result => exact absurd hstring (herror r result)

/-- A string that has begun is read as a beginning of the string, or is an error. -/
theorem closes_or_fails_string {d : Nat} {raw cs y : List Char} (h : Spells .plain raw cs)
    (hy : y <+: '"' :: (raw ++ ['"'])) (hne : y ≠ []) (hproper : y ≠ '"' :: (raw ++ ['"'])) :
    Closes d (.scalar ('"' :: (raw ++ ['"'])) (.str (String.ofList cs))) y ∨ Fails d y := by
  cases y with
  | nil => exact absurd rfl hne
  | cons c x =>
  obtain ⟨rfl, hx⟩ := List.cons_prefix_cons.mp hy
  rcases List.prefix_concat_iff.mp hx with rfl | hx
  · exact absurd rfl hproper
  obtain ⟨e, hleaves, hnil, hended⟩ := leaves_quoted h hx
  have hclose := close_quoted hleaves hnil
  rcases hended with ⟨cs', hcs', hread⟩ | herror
  · refine .inl ⟨.str (String.ofList cs'), fun r _ => ?_, .str (by simpa using hcs'),
      keeps_scalar hy hproper _⟩
    rw [value_quoted hclose, hread]
    rfl
  · exact .inr (fails_quoted hclose herror)

theorem closes_or_fails_scalar {d : Nat} {text y : List Char} {json : Json}
    (h : IsScalar text json) (hy : y <+: text) (hne : y ≠ []) (hproper : y ≠ text) :
    Closes d (.scalar text json) y ∨ Fails d y := by
  cases h with
  | nullWord => exact .inr (fails_word (value_null d) rfl hy hne hproper)
  | trueWord => exact .inr (fails_word (value_true d) rfl hy hne hproper)
  | falseWord => exact .inr (fails_word (value_false d) rfl hy hne hproper)
  | number h => exact closes_or_fails_number h hy hne hproper
  | string h => exact closes_or_fails_string (spells_of_quoted h) hy hne hproper

/-! ## Names -/

/-- In an object that is closed after this text, no name is read, or no value after it. -/
def Unnamed (text : List Char) : Prop :=
  ∀ r name s, Container.object.readHead (text ++ '\x7d' :: r) = some (name, s) → s = '\x7d' :: r

theorem unnamed_ended {text cs : List Char} (h : Ended .plain text cs) :
    Unnamed ('"' :: (text ++ ['"'])) := by
  intro r name s hread
  exfalso
  obtain ⟨rest, key, rest', hquote, hkey, hcolon, -⟩ :=
    Container.readHead_object_eq_some_iff.mp hread
  rw [List.cons_append, skipBlanks_cons rfl, List.append_assoc, List.singleton_append] at hquote
  cases hquote
  rcases h with ⟨cs', -, hok⟩ | herror
  · rw [hok] at hkey
    cases hkey
    rw [skipBlanks_cons rfl] at hcolon
    cases hcolon
  · exact herror _ _ hkey

theorem unnamed_colon {raw cs b : List Char} (h : Spells .plain raw cs) (hb : Blank b) :
    Unnamed ('"' :: (raw ++ '"' :: (b ++ [':']))) := by
  intro r name s hread
  obtain ⟨rest, key, rest', hquote, hkey, hcolon, -⟩ :=
    Container.readHead_object_eq_some_iff.mp hread
  rw [List.cons_append, skipBlanks_cons rfl] at hquote
  cases hquote
  rw [List.append_assoc, List.cons_append, h.read] at hkey
  cases hkey
  rw [List.append_assoc, skipBlanks_append hb, List.singleton_append, skipBlanks_cons rfl] at hcolon
  cases hcolon
  rfl

theorem unnamed_name {raw cs b b' z : List Char} (h : Spells .plain raw cs) (hb : Blank b)
    (hb' : Blank b') (hz : z <+: raw ++ '"' :: (b ++ ':' :: b')) :
    (∃ s, Leaves ('"' :: z) s ∧ s.closers = []) ∧ Unnamed (close ('"' :: z)) := by
  -- inside of the name
  have hinside {z : List Char} (hz : z <+: raw) :
      (∃ s, Leaves ('"' :: z) s ∧ s.closers = []) ∧ Unnamed (close ('"' :: z)) := by
    obtain ⟨e, hleaves, hnil, hended⟩ := leaves_quoted h hz
    exact ⟨⟨_, hleaves, rfl⟩, close_quoted hleaves hnil ▸ unnamed_ended hended⟩
  rcases prefix_append_or hz with hz | ⟨z', rfl, hz'⟩
  · exact hinside hz
  cases z' with
  | nil => exact hinside (by simp)
  | cons c w =>
  obtain ⟨rfl, hw⟩ := List.cons_prefix_cons.mp hz'
  -- after the name
  have hquoted := silent_quoted h
  have hsolid : EndsSolid ('"' :: (raw ++ ['"'])) :=
    endsSolid_concat (c := '"') (by decide) ('"' :: raw)
  have hsplit (w : List Char) : '"' :: (raw ++ '"' :: w) = '"' :: (raw ++ ['"']) ++ w := by simp
  have hblank {w : List Char} (hw : Blank w) : (∃ s, Leaves ('"' :: (raw ++ '"' :: w)) s ∧
      s.closers = []) ∧ Unnamed (close ('"' :: (raw ++ '"' :: w))) := by
    have hleaves := (hquoted.append (silent_blank hw)).leaves
    rw [hsplit]
    refine ⟨⟨_, hleaves, rfl⟩, ?_⟩
    rw [close_of_flat hleaves, dropTrailing_blank hsolid hw]
    exact unnamed_ended (.inl ⟨cs, List.prefix_rfl, h.read⟩)
  rcases prefix_append_or hw with hw | ⟨u, rfl, hu⟩
  · exact hblank (hb.mono hw)
  cases u with
  | nil => exact hblank (by simpa using hb)
  | cons c v =>
  obtain ⟨rfl, hv⟩ := List.cons_prefix_cons.mp hu
  -- after the colon
  have hcolon : Silent [':'] := silent_singleton rfl
  have hleaves := (hquoted.append
    (((silent_blank hb).append hcolon).append (silent_blank (hb'.mono hv)))).leaves
  have hends : EndsSolid ('"' :: (raw ++ '"' :: (b ++ [':']))) := by
    have hend := endsSolid_concat (c := ':') (by decide) ('"' :: (raw ++ '"' :: b))
    simpa using hend
  have htext : '"' :: (raw ++ ['"']) ++ (b ++ [':'] ++ v) =
      '"' :: (raw ++ '"' :: (b ++ [':'])) ++ v := by simp
  have hwhole : '"' :: (raw ++ '"' :: (b ++ ':' :: v)) =
      '"' :: (raw ++ ['"']) ++ (b ++ [':'] ++ v) := by simp
  rw [hwhole]
  refine ⟨⟨_, hleaves, rfl⟩, ?_⟩
  rw [close_of_flat hleaves, htext, dropTrailing_blank hends (hb'.mono hv)]
  exact unnamed_colon h hb

/-- A beginning of what stands before a value: blanks, or in an object a name that has begun. -/
theorem head_cases {kind : Container} {head x : List Char} {name : String}
    (h : IsHead kind head name) (hx : x <+: head) : Blank x ∨ kind = .object ∧ ∃ b z, Blank b ∧
      x = b ++ '"' :: z ∧ (∃ s, Leaves ('"' :: z) s ∧ s.closers = []) ∧
      Unnamed (close ('"' :: z)) := by
  cases h with
  | list hb => exact .inl (hb.mono hx)
  | @object b raw cs b' b'' hb hname hb' hb'' =>
    rcases prefix_append_or hx with hx | ⟨z, rfl, hz⟩
    · exact .inl (hb.mono hx)
    cases z with
    | nil => exact .inl (by simpa using hb)
    | cons c z =>
      obtain ⟨rfl, hname'⟩ := List.cons_prefix_cons.mp hz
      obtain ⟨hleaves, hunnamed⟩ := unnamed_name (spells_of_quoted hname) hb' hb'' hname'
      exact .inr ⟨rfl, b, z, hb, rfl, hleaves, hunnamed⟩

/-! ## What is open -/

theorem leaves_scalar {text y : List Char} {json : Json} (h : IsScalar text json)
    (hy : y <+: text) : ∃ s, Leaves y s := by
  have hquiet (hall : ∀ c ∈ text, isMark c = false) : ∃ s, Leaves y s :=
    ⟨{}, (silent_of_forall fun c hc => hall c (hy.subset hc)).leaves⟩
  cases h with
  | number h => exact hquiet fun c hc => isMark_of_isNumeric ((number_text h).1 c hc)
  | @string raw cs h =>
    cases y with
    | nil => exact ⟨{}, leaves_nil⟩
    | cons c x =>
      obtain ⟨rfl, hx⟩ := List.cons_prefix_cons.mp hy
      rcases List.prefix_concat_iff.mp hx with rfl | hx
      · exact ⟨{}, (silent_quoted (spells_of_quoted h)).leaves⟩
      · obtain ⟨e, hleaves, -⟩ := leaves_quoted (spells_of_quoted h) hx
        exact ⟨_, hleaves⟩
  | _ => exact hquiet (by simp [isMark])

section Containers

variable {d : Nat} {kind : Container} {lead : List Char}
  {entries done rest : List (Entry ParseTree)} {e : Entry ParseTree}

theorem valid_node (h : (ParseTree.node kind lead entries).Valid (d + 1)) :
    Blank lead ∧ ValidEntries d kind entries := by
  cases h with
  | node hlead hentries htrees =>
    exact ⟨hlead, fun e he => ⟨(hentries e he).1, (hentries e he).2, htrees e he⟩⟩

theorem leaves_opening_of_valid (hlead : Blank lead) (hdone : ValidEntries d kind done) :
    Leaves (opening kind lead done) { closers := [kind.closer] } :=
  leaves_opening hlead fun e he =>
    leaves_text (hdone e he).1 (hdone e he).2.1 (leaves_tree (hdone e he).2.2)

theorem validEntries_split (h : ValidEntries d kind (done ++ e :: rest)) :
    ValidEntries d kind done ∧ (IsHead kind e.head e.name ∧ Blank e.after ∧ e.tree.Valid d) ∧
      ValidEntries d kind rest := by
  obtain ⟨hdone, hrest⟩ := List.forall_mem_append.mp h
  exact ⟨hdone, List.forall_mem_cons.mp hrest⟩

theorem exists_leaves_ending (hlead : Blank lead) (hentries : ValidEntries d kind entries)
    (ih : ∀ e ∈ entries, ∀ y, y <+: e.tree.text → ∃ s, Leaves y s) {y : List Char}
    (h : Ending kind lead entries y) : ∃ s, Leaves y s ∧ s.closers ≠ [] := by
  cases h with
  | lead hb =>
    exact ⟨_, (leaves_opener kind).append (silent_blank (hlead.mono hb)).leaves,
      by simp [Scan.over]⟩
  | @head done rest e x hsplit hx =>
    subst hsplit
    obtain ⟨hdone, ⟨hhead, -, -⟩, -⟩ := validEntries_split hentries
    have hopening := leaves_opening_of_valid hlead hdone
    rcases head_cases hhead hx with hblank | ⟨-, b, z, hb, rfl, ⟨s, hz, -⟩, -⟩
    · exact ⟨_, hopening.append (silent_blank hblank).leaves, by simp [Scan.over]⟩
    · exact ⟨_, hopening.append ((silent_blank hb).leaves.append hz), by simp [Scan.over]⟩
  | @tree done rest e y hsplit hy hne hproper =>
    obtain ⟨s, hs⟩ := ih e (by simp [hsplit]) y hy
    subst hsplit
    obtain ⟨hdone, ⟨hhead, -, -⟩, -⟩ := validEntries_split hentries
    exact ⟨_, (leaves_opening_of_valid hlead hdone).append ((silent_head hhead).leaves.append hs),
      by simp [Scan.over]⟩
  | @after done rest e b hsplit hb =>
    subst hsplit
    obtain ⟨hdone, ⟨hhead, hafter, htree⟩, -⟩ := validEntries_split hentries
    exact ⟨_, (leaves_opening_of_valid hlead hdone).append ((silent_head hhead).leaves.append
      ((leaves_tree htree).append (silent_blank (hafter.mono hb)).leaves)), by simp [Scan.over]⟩

/-- A beginning of the text of a tree leaves the same open wherever the tree stands. -/
theorem exists_leaves {t : ParseTree} (h : t.Valid d) {y : List Char} (hy : y <+: t.text) :
    ∃ s, Leaves y s := by
  induction h generalizing y with
  | scalar h => exact leaves_scalar h hy
  | @node d kind lead entries hlead hentries htrees ih =>
    by_cases hne : y = []
    · exact ⟨{}, hne ▸ leaves_nil⟩
    by_cases hwhole : y = (ParseTree.node kind lead entries).text
    · exact ⟨{}, hwhole ▸ leaves_tree (.node hlead hentries htrees)⟩
    have hvalid := (valid_node (.node hlead hentries htrees)).2
    obtain ⟨s, hs, -⟩ := exists_leaves_ending hlead hvalid (fun e he y hy => ih e he hy)
      (exists_ending hy hne hwhole)
    exact ⟨s, hs⟩

end Containers

end Agents.PartialJson
