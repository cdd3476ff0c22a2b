import Agents.Proofs.PartialJson.Beginning

/-! # The beginning of a container

A beginning that ends in an entry closes when that entry does, and fails when it fails; one that
ends between the entries always closes (`closes_or_fails`). At a place where the text may be cut it
closes, too, because no scalar is ever cut (`closes_of_mem_marks`).
-/

namespace Agents.PartialJson

open Json

theorem endsSolid_tree {d : Nat} {t : ParseTree} (h : t.Valid d) : EndsSolid t.text := by
  cases h with
  | @node _ kind lead entries =>
    rw [ParseTree.text_node]
    exact ⟨kind.opener :: (lead ++ ParseTree.joined entries), kind.closer, by simp,
      solid_closer kind⟩
  | scalar h =>
    cases h with
    | number h =>
      refine endsSolid_of_forall ?_ fun c hc => solid_of_isNumeric ((number_text h).1 c hc)
      rintro rfl
      cases h
    | @string raw cs h => exact endsSolid_concat (c := '"') (by decide) ('"' :: raw)
    | _ => exact endsSolid_of_forall (by decide) fun c hc =>
        solid_of_isLetter (List.all_eq_true.mp rfl c hc)

section Containers

variable {d : Nat} {kind : Container} {lead : List Char}
  {entries done rest : List (Entry ParseTree)} {e : Entry ParseTree} {y : List Char}

theorem readable_of_valid (hentries : ValidEntries d kind entries) :
    ∀ e ∈ entries, e.Readable kind d := fun e he =>
  ⟨(hentries e he).1, (hentries e he).2.1, (hentries e he).2.2.starts, (hentries e he).2.2.reads⟩

theorem text_ne_nil {t : ParseTree} (h : t.Valid d) : t.text ≠ [] := by
  obtain ⟨c, s, hs, -⟩ := h.starts
  simp [hs]

theorem texts_ne_nil (hentries : ValidEntries d kind entries) :
    ∀ e ∈ entries, e.tree.text ≠ [] := fun e he => text_ne_nil (hentries e he).2.2

/-! ## What is closed -/

/-- Nothing but the opening bracket is left of a container without entries. -/
theorem reads_gap {b : List Char} (hb : Blank b) :
    Reads (d + 1) (close (kind.opener :: b)) (kind.build []) := by
  have hleaves := (leaves_opener kind).append (silent_blank hb).leaves
  have hsolid : EndsSolid [kind.opener] :=
    endsSolid_concat (solid_of_isStart (isStart_opener kind)) []
  have hclose : close (kind.opener :: b) = [kind.opener, kind.closer] := by
    rw [← List.singleton_append, close_of_leaves hleaves, dropTrailing_blank hsolid hb]
    rfl
  intro r _
  rw [hclose]
  exact value_empty blank_nil

theorem reads_entry (hlead : Blank lead) (hentries : ValidEntries d kind (done ++ e :: rest))
    {x b : List Char} {w : Json} (hclose : close y =
      opening kind lead done ++ (e.head ++ (x ++ (b ++ [kind.closer])))) (hb : Blank b)
    (hstart : Starts x) (hx : Reads d x w) :
    Reads (d + 1) (close y) (kind.build (done.map Entry.member ++ [(e.name, w)])) := by
  intro r _
  have htext : close y ++ r = kind.opener ::
      (lead ++ (ahead done ++ (e.head ++ (x ++ (b ++ kind.closer :: r))))) := by
    rw [hclose]
    simp [opening]
  obtain ⟨hdone, he, -⟩ := validEntries_split hentries
  rw [htext]
  exact value_last hlead (readable_of_valid hdone) he.1 hstart hx hb

theorem reads_done (hlead : Blank lead) (hentries : ValidEntries d kind (done ++ e :: rest))
    {b : List Char} (hb : b <+: e.after) :
    Reads (d + 1) (close (opening kind lead done ++ (e.head ++ (e.tree.text ++ b))))
      (kind.build (done.map Entry.member ++ [e.member])) := by
  obtain ⟨hdone, ⟨hhead, hafter, htree⟩, -⟩ := validEntries_split hentries
  have hblank := hafter.mono hb
  have hleaves : Leaves (opening kind lead done ++ (e.head ++ (e.tree.text ++ b)))
      { closers := [kind.closer] } :=
    (leaves_opening_of_valid hlead hdone).append
      ((silent_head hhead).leaves.append ((leaves_tree htree).append (silent_blank hblank).leaves))
  have hsolid : EndsSolid (opening kind lead done ++ (e.head ++ e.tree.text)) :=
    ((endsSolid_tree htree).append _).append _
  have hclose : close (opening kind lead done ++ (e.head ++ (e.tree.text ++ b))) =
      opening kind lead done ++ (e.head ++ (e.tree.text ++ ([] ++ [kind.closer]))) := by
    have hdrop := dropTrailing_blank hsolid hblank
    simp only [List.append_assoc] at hdrop
    rw [close_of_leaves hleaves, hdrop]
    simp
  exact reads_entry hlead hentries hclose blank_nil htree.starts htree.reads

theorem reads_comma (hlead : Blank lead) (hentries : ValidEntries d kind (done ++ e :: rest))
    {x : List Char} (hblank : Blank x) :
    Reads (d + 1) (close (opening kind lead (done ++ [e]) ++ x))
      (kind.build (done.map Entry.member ++ [e.member])) := by
  obtain ⟨hdone, ⟨hhead, hafter, htree⟩, -⟩ := validEntries_split hentries
  have hbefore : ValidEntries d kind (done ++ [e]) :=
    List.forall_mem_append.mpr ⟨hdone, List.forall_mem_singleton.mpr ⟨hhead, hafter, htree⟩⟩
  have hleaves : Leaves (opening kind lead (done ++ [e]) ++ x) { closers := [kind.closer] } :=
    (leaves_opening_of_valid hlead hbefore).append (silent_blank hblank).leaves
  have hsolid : EndsSolid (opening kind lead done ++ (e.head ++ e.tree.text)) :=
    ((endsSolid_tree htree).append _).append _
  have htext : opening kind lead (done ++ [e]) ++ x =
      opening kind lead done ++ (e.head ++ e.tree.text) ++ (e.after ++ ',' :: x) := by
    simp [opening, ahead, Entry.text]
  have hclose : close (opening kind lead (done ++ [e]) ++ x) =
      opening kind lead done ++ (e.head ++ (e.tree.text ++ (e.after ++ [kind.closer]))) := by
    rw [close_of_leaves hleaves, htext, dropTrailing_comma hsolid hafter hblank]
    simp
  exact reads_entry hlead hentries hclose hafter htree.starts htree.reads

theorem starts_of_isPrefix {t : ParseTree} (ht : t.Valid d) (hy : y <+: t.text) (hne : y ≠ []) :
    Starts y := by
  obtain ⟨c, s, hs, hc⟩ := ht.starts
  rw [hs] at hy
  cases y with
  | nil => exact absurd rfl hne
  | cons e y => exact ⟨e, y, rfl, (List.cons_prefix_cons.mp hy).1 ▸ hc⟩

/-- What precedes the value of an entry stays as it is. -/
theorem close_tree (hlead : Blank lead) (hentries : ValidEntries d kind (done ++ e :: rest))
    (hy : y <+: e.tree.text) (hne : y ≠ []) :
    close (opening kind lead done ++ (e.head ++ y)) =
      opening kind lead done ++ (e.head ++ (close y ++ [kind.closer])) := by
  obtain ⟨hdone, ⟨hhead, -, htree⟩, -⟩ := validEntries_split hentries
  obtain ⟨s, hs⟩ := exists_leaves htree hy
  have hleaves : Leaves (opening kind lead done ++ e.head) { closers := [kind.closer] } :=
    (leaves_opening_of_valid hlead hdone).append (silent_head hhead).leaves
  rw [← List.append_assoc, close_append hleaves hs (starts_of_isPrefix htree hy hne),
    List.append_assoc]

theorem reads_tree (hlead : Blank lead) (hentries : ValidEntries d kind (done ++ e :: rest))
    (hy : y <+: e.tree.text) (hne : y ≠ []) {w : Json} (h : Reads d (close y) w) :
    Reads (d + 1) (close (opening kind lead done ++ (e.head ++ y)))
      (kind.build (done.map Entry.member ++ [(e.name, w)])) := by
  obtain ⟨-, ⟨-, -, htree⟩, -⟩ := validEntries_split hentries
  obtain ⟨s, hs⟩ := exists_leaves htree hy
  exact reads_entry hlead hentries (close_tree hlead hentries hy hne) blank_nil
    (starts_close hs (starts_of_isPrefix htree hy hne)) h

/-! ## What closes -/

theorem closes_gap {b : List Char} (hb : Blank b) (hentries : ValidEntries d kind entries)
    (hproper : ¬ (ParseTree.node kind lead entries).text <+: kind.opener :: b)
    (hshort : ∀ e rest, entries = e :: rest →
      (kind.opener :: b).length ≤ (opening kind lead [] ++ e.head).length)
    (hdistinct : (ParseTree.node kind lead entries).Distinct) :
    Closes (d + 1) (.node kind lead entries) (kind.opener :: b) := by
  cases hdistinct with
  | node hnames =>
    exact ⟨kind.build [], reads_gap hb, below_build hnames (fits_nil entries),
      keeps_opening (texts_ne_nil hentries) hproper hshort⟩

theorem distinct_tree (h : (ParseTree.node kind lead (done ++ e :: rest)).Distinct) :
    e.tree.Distinct := by
  cases h with
  | node _ htrees => exact htrees e (by simp)

theorem closes_entry (hentries : ValidEntries d kind (done ++ e :: rest))
    (hdistinct : (ParseTree.node kind lead (done ++ e :: rest)).Distinct) {w : Json}
    (hread : Reads (d + 1) (close y) (kind.build (done.map Entry.member ++ [(e.name, w)])))
    (hw : Below w e.tree)
    (hproper : ¬ (ParseTree.node kind lead (done ++ e :: rest)).text <+: y)
    (hshort : ∀ e' rest', rest = e' :: rest' →
      y.length ≤ (opening kind lead (done ++ [e]) ++ e'.head).length)
    (hlast : ∀ path front part, e.tree.Part path front part →
      opening kind lead done ++ (e.head ++ front) <+: y → w.at? path = some part.value) :
    Closes (d + 1) (.node kind lead (done ++ e :: rest)) y := by
  refine ⟨_, hread, ?_,
    keeps_entry rfl hdistinct (texts_ne_nil hentries) hproper hshort hlast⟩
  cases hdistinct with
  | node hnames => exact below_build hnames (fits_concat done rest hw)

theorem closes_done (hlead : Blank lead) (hentries : ValidEntries d kind (done ++ e :: rest))
    (hdistinct : (ParseTree.node kind lead (done ++ e :: rest)).Distinct) {b : List Char}
    (hb : b <+: e.after) : Closes (d + 1) (.node kind lead (done ++ e :: rest))
      (opening kind lead done ++ (e.head ++ (e.tree.text ++ b))) := by
  have hlength : (e.head ++ (e.tree.text ++ b)).length ≤ e.text.length := by
    have hle := hb.length_le
    simp [Entry.text]
    omega
  refine closes_entry hentries hdistinct (reads_done hlead hentries hb) (.same _)
    (not_text_isPrefix hlength) (fun e' rest' _ => ?_)
    fun path front part hpart _ => hpart.at?_value (distinct_tree hdistinct)
  simp [opening, ahead] at hlength ⊢
  omega

theorem closes_comma {e' : Entry ParseTree} (hlead : Blank lead)
    (hentries : ValidEntries d kind (done ++ e :: e' :: rest))
    (hdistinct : (ParseTree.node kind lead (done ++ e :: e' :: rest)).Distinct) {x : List Char}
    (hx : x <+: e'.head) (hblank : Blank x) :
    Closes (d + 1) (.node kind lead (done ++ e :: e' :: rest))
      (opening kind lead (done ++ [e]) ++ x) := by
  have hsplit : done ++ e :: e' :: rest = (done ++ [e]) ++ e' :: rest := by simp
  have hlength := hx.length_le
  refine closes_entry hentries hdistinct (reads_comma hlead hentries hblank) (.same _) ?_ ?_
    fun path front part hpart _ => hpart.at?_value (distinct_tree hdistinct)
  · rw [hsplit]
    refine not_text_isPrefix ?_
    simp [Entry.text]
    omega
  · rintro _ _ ⟨rfl, rfl⟩
    simpa using hlength

theorem closes_tree (hlead : Blank lead) (hentries : ValidEntries d kind (done ++ e :: rest))
    (hdistinct : (ParseTree.node kind lead (done ++ e :: rest)).Distinct) (hy : y <+: e.tree.text)
    (hne : y ≠ []) (h : Closes d e.tree y) : Closes (d + 1) (.node kind lead (done ++ e :: rest))
      (opening kind lead done ++ (e.head ++ y)) := by
  obtain ⟨w, hread, hbelow, hkeeps⟩ := h
  have hlength := hy.length_le
  refine closes_entry hentries hdistinct (reads_tree hlead hentries hy hne hread) hbelow
    (not_text_isPrefix ?_) (fun e' rest' _ => ?_)
    fun path front part hpart hfront => hkeeps path front part hpart ?_
  · simp [Entry.text]
    omega
  · simp [opening, ahead, Entry.text]
    omega
  · simpa [List.prefix_append_right_inj] using hfront

theorem opener_mem_marks (hy : y <+: (ParseTree.node kind lead entries).text) (hne : y ≠ []) :
    [kind.opener] ∈ marks y := by
  cases y with
  | nil => exact absurd rfl hne
  | cons c y =>
    rw [ParseTree.text_node] at hy
    obtain ⟨rfl, -⟩ := List.cons_prefix_cons.mp hy
    cases kind <;> simp [marks, cuts, Container.opener]

/-! ## What fails -/

theorem fails_entry (hlead : Blank lead) (hdone : ValidEntries d kind done) {u : List Char}
    (hclose : close y = opening kind lead done ++ (u ++ [kind.closer]))
    (hopens : ∀ r, kind.Opens (u ++ kind.closer :: r))
    (hentry : ∀ fuel ms r left, ¬ kind.ReadsEntry (value d) fuel (u ++ kind.closer :: r) ms left) :
    Fails (d + 1) y := by
  intro r _ v left h
  exfalso
  have htext : close y ++ r =
      kind.opener :: (lead ++ (ahead done ++ (u ++ kind.closer :: r))) := by
    rw [hclose]
    simp [opening]
  rw [htext, value_opener, Container.read_blank kind _ _ _ hlead] at h
  obtain ⟨fuel, hfuel, hread⟩ :=
    read_ahead (readable_of_valid hdone) (hopens r) (length_lt_append lead _)
  cases hok : kind.read (value d) ((lead ++ (ahead done ++ (u ++ kind.closer :: r))).length + 1)
      true (ahead done ++ (u ++ kind.closer :: r)) with
  | error fault =>
    rw [hok] at h
    cases h
  | ok result =>
    obtain ⟨ms, left⟩ := result
    obtain ⟨ms', hms, -⟩ := (hread ms left).mp hok
    obtain ⟨fuel, rfl⟩ : ∃ n, fuel = n + 1 := ⟨fuel - 1, by omega⟩
    exact hentry fuel ms' r left ((kind.read_true_of_opens _ (hopens r)).mp hms)

theorem exists_of_not_halts {s : List Char} (h : ¬ Halts s) :
    ∃ c rest, s = c :: rest ∧ isNumeric c = true := by
  cases s with
  | nil => exact absurd nofun h
  | cons c s =>
    refine ⟨c, s, rfl, ?_⟩
    by_contra hc
    exact h (halts_cons (by simpa using hc) s)

theorem isBlank_of_isNumeric {c : Char} (h : isNumeric c = true) : Json.isBlank c = false := by
  by_contra hblank
  rcases eq_of_isBlank (Bool.not_eq_false _ ▸ hblank) with rfl | rfl | rfl | rfl <;>
    exact absurd h (by decide)

theorem fails_tree (hlead : Blank lead) (hentries : ValidEntries d kind (done ++ e :: rest))
    (hy : y <+: e.tree.text) (hne : y ≠ []) (h : Fails d y) :
    Fails (d + 1) (opening kind lead done ++ (e.head ++ y)) := by
  obtain ⟨hdone, ⟨hhead, -, htree⟩, -⟩ := validEntries_split hentries
  obtain ⟨s, hs⟩ := exists_leaves htree hy
  have hstart (r : List Char) : Starts (close y ++ kind.closer :: r) :=
    (starts_close hs (starts_of_isPrefix htree hy hne)).append _
  refine fails_entry (u := e.head ++ close y) hlead hdone ?_ (fun r => ?_)
    fun fuel ms r left hread => ?_
  · rw [close_tree hlead hentries hy hne, List.append_assoc]
  · rw [List.append_assoc]
    exact hhead.opens (hstart r)
  · obtain ⟨name, s₁, item, s₂, more, hname, hitem, hmore, -⟩ := hread
    rw [List.append_assoc] at hname
    obtain ⟨b, hb, hread⟩ := hhead.readHead (hstart r)
    rw [hread] at hname
    cases hname
    rw [value_blank d hb] at hitem
    -- after the value stands a character of numbers
    obtain ⟨c, s₃, rfl, hc⟩ := exists_of_not_halts (h _ (closing_closer kind r) item s₂ hitem)
    cases fuel with
    | zero => cases kind <;> cases hmore
    | succ fuel =>
      refine kind.read_stray _ (skipBlanks_cons (isBlank_of_isNumeric hc) s₃) ?_ ?_ _ hmore
      · rintro rfl
        rw [isNumeric_closer] at hc
        cases hc
      · rintro rfl
        cases hc

theorem fails_name {b z : List Char} {s : Scan} (hlead : Blank lead)
    (hdone : ValidEntries d .object done) (hb : Blank b) (hz : Leaves ('"' :: z) s)
    (hunnamed : Unnamed (close ('"' :: z))) :
    Fails (d + 1) (opening .object lead done ++ (b ++ '"' :: z)) := by
  have hleaves : Leaves (opening .object lead done ++ b) { closers := [Container.object.closer] } :=
    (leaves_opening_of_valid hlead hdone).append (silent_blank hb).leaves
  have hstart : Starts ('"' :: z) := ⟨'"', z, rfl, rfl⟩
  refine fails_entry (u := b ++ close ('"' :: z)) hlead hdone ?_ (fun r => ?_)
    fun fuel ms r left hread => ?_
  · rw [← List.append_assoc, close_append hleaves hz hstart]
    simp
  · obtain ⟨c, u, hu, hc⟩ := starts_close hz hstart
    refine ⟨c, u ++ '\x7d' :: r, ?_, ne_closer_of_isStart hc _⟩
    rw [List.append_assoc, skipBlanks_append hb, hu]
    exact skipBlanks_cons (isBlank_of_isStart hc) _
  · obtain ⟨name, s₁, item, s₂, more, hname, hitem, -⟩ := hread
    rw [List.append_assoc, ← Container.readHead_skipBlanks, skipBlanks_append hb,
      Container.readHead_skipBlanks] at hname
    obtain rfl := hunnamed r name s₁ hname
    -- no value begins with the bracket
    cases d <;> cases hitem

/-! ## Beginnings of trees -/

theorem closes_or_fails_head (hlead : Blank lead)
    (hentries : ValidEntries d kind (done ++ e :: rest))
    (hdistinct : (ParseTree.node kind lead (done ++ e :: rest)).Distinct) {x : List Char}
    (hx : x <+: e.head) : Closes (d + 1) (.node kind lead (done ++ e :: rest))
      (opening kind lead done ++ x) ∨ Fails (d + 1) (opening kind lead done ++ x) := by
  obtain ⟨hdone, ⟨hhead, -, -⟩, -⟩ := validEntries_split hentries
  have hlength := hx.length_le
  rcases head_cases hhead hx with hblank | ⟨rfl, b, z, hb, rfl, ⟨s, hz, -⟩, hunnamed⟩
  · left
    rcases done.eq_nil_or_concat with rfl | ⟨init, last, rfl⟩
    · have hgap : opening kind lead [] ++ x = kind.opener :: (lead ++ x) := by simp [opening, ahead]
      have hproper : ¬ (ParseTree.node kind lead ([] ++ e :: rest)).text <+:
          opening kind lead [] ++ x := not_text_isPrefix (by simp [Entry.text]; omega)
      rw [hgap] at hproper ⊢
      refine closes_gap (hlead.append hblank) hentries hproper ?_ hdistinct
      rintro _ _ ⟨rfl, rfl⟩
      simp [opening, ahead]
      omega
    · have hsplit : init.concat last ++ e :: rest = init ++ last :: e :: rest := by simp
      rw [hsplit] at hentries hdistinct ⊢
      rw [List.concat_eq_append]
      exact closes_comma hlead hentries hdistinct hx hblank
  · exact .inr (fails_name hlead hdone hb hz hunnamed)

end Containers

/-- A proper beginning of a tree, closed, is read as a value below the tree that keeps what it has
finished, or it is not read. -/
theorem closes_or_fails {d : Nat} {t : ParseTree} (h : t.Valid d) (hdistinct : t.Distinct)
    {y : List Char} (hy : y <+: t.text) (hne : y ≠ []) (hproper : y ≠ t.text) :
    Closes d t y ∨ Fails d y := by
  induction h generalizing y with
  | scalar h => exact closes_or_fails_scalar h hy hne hproper
  | @node d kind lead entries hlead hentries htrees ih =>
    have hvalid := (valid_node (.node hlead hentries htrees)).2
    have hending := exists_ending hy hne hproper
    cases hending with
    | @lead b hb =>
      refine .inl (closes_gap (hlead.mono hb) hvalid (not_isPrefix_of_proper hy hproper) ?_
        hdistinct)
      intro e rest _
      have hlength := hb.length_le
      simp [opening, ahead]
      omega
    | @head done rest e x hsplit hx =>
      subst hsplit
      exact closes_or_fails_head hlead hvalid hdistinct hx
    | @tree done rest e y hsplit hvalue hbegun hpart =>
      subst hsplit
      rcases ih e (by simp) (distinct_tree hdistinct) hvalue hbegun hpart with hcloses | hfails
      · exact .inl (closes_tree hlead hvalid hdistinct hvalue hbegun hcloses)
      · exact .inr (fails_tree hlead hvalid hvalue hbegun hfails)
    | @after done rest e b hsplit hb =>
      subst hsplit
      exact .inl (closes_done hlead hvalid hdistinct hb)

/-! ## Cuts -/

theorem isPrefix_of_mem_cuts {s : Scan} {before text q : List Char} (h : q ∈ cuts s before text) :
    before.reverse <+: q ∧ q <+: before.reverse ++ text := by
  induction text generalizing s before with
  | nil => cases h
  | cons c text ih =>
    rw [cuts] at h
    rcases List.mem_append.mp h with h | h
    · split_ifs at h
      · cases h
      · obtain rfl := List.mem_singleton.mp h
        simp
      · obtain rfl := List.mem_singleton.mp h
        simp
      · cases h
    · obtain ⟨hfront, hback⟩ := ih h
      rw [List.reverse_cons] at hfront hback
      refine ⟨(List.prefix_append _ _).trans hfront, ?_⟩
      simpa using hback

theorem isPrefix_of_mem_marks {text q : List Char} (h : q ∈ marks text) : q <+: text :=
  (isPrefix_of_mem_cuts h).2

section Containers

variable {d : Nat} {kind : Container} {lead q : List Char} {entries : List (Entry ParseTree)}

theorem marks_text {e : Entry ParseTree}
    (h : IsHead kind e.head e.name ∧ Blank e.after ∧ e.tree.Valid d) :
    marks e.text = (marks e.tree.text).map (e.head ++ ·) := by
  obtain ⟨hhead, hafter, htree⟩ := h
  rw [Entry.text, marks_append (silent_head hhead).leaves, (silent_head hhead).marks,
    marks_append (leaves_tree htree), (silent_blank hafter).marks, List.map_nil, List.append_nil]
  rfl

/-- The entries of a container are cut where their values are, and before the commas. -/
theorem mem_marks_joined (hentries : ValidEntries d kind entries)
    (hq : q ∈ marks (ParseTree.joined entries)) : ∃ done e rest, entries = done ++ e :: rest ∧
      ((∃ q' ∈ marks e.tree.text, q = ahead done ++ (e.head ++ q')) ∨
        q = ahead done ++ e.text) := by
  induction entries generalizing q with
  | nil => cases hq
  | cons e rest ih =>
    obtain ⟨he, hrest⟩ := List.forall_mem_cons.mp hentries
    have hleaves : Leaves e.text {} := leaves_text he.1 he.2.1 (leaves_tree he.2.2)
    have hvalue {q : List Char} (hq : q ∈ marks e.text) :
        ∃ q' ∈ marks e.tree.text, q = ahead [] ++ (e.head ++ q') := by
      rw [marks_text he] at hq
      obtain ⟨q', hq', rfl⟩ := List.mem_map.mp hq
      exact ⟨q', hq', rfl⟩
    cases rest with
    | nil =>
      have hjoined : ParseTree.joined [e] = e.text := by simp [ParseTree.joined_cons, trail]
      exact ⟨[], e, [], rfl, .inl (hvalue (hjoined ▸ hq))⟩
    | cons e' rest =>
      have hjoined : ParseTree.joined (e :: e' :: rest) =
          e.text ++ ([','] ++ ParseTree.joined (e' :: rest)) := by
        have happend := ParseTree.joined_append [e] e' rest
        simpa [ahead] using happend
      rw [hjoined, marks_append hleaves, marks_append leaves_comma] at hq
      rcases List.mem_append.mp hq with hq | hq
      · exact ⟨[], e, e' :: rest, rfl, .inl (hvalue hq)⟩
      obtain ⟨q', hq', rfl⟩ := List.mem_map.mp hq
      rcases List.mem_append.mp hq' with hcomma | hlater
      · obtain rfl : q' = [] := List.mem_singleton.mp hcomma
        exact ⟨[], e, e' :: rest, rfl, .inr (List.append_nil _)⟩
      · obtain ⟨q'', hq'', rfl⟩ := List.mem_map.mp hlater
        obtain ⟨done, e'', rest', hsplit, hcut⟩ := ih hrest hq''
        refine ⟨e :: done, e'', rest', by rw [hsplit]; rfl, ?_⟩
        rcases hcut with ⟨q, hvalue, rfl⟩ | rfl
        · exact .inl ⟨q, hvalue, by simp [ahead]⟩
        · exact .inr (by simp [ahead])

/-- A container is cut after its bracket, where its entries are, and before the commas. -/
theorem mem_marks_node (hlead : Blank lead) (hentries : ValidEntries d kind entries)
    (hq : q ∈ marks (ParseTree.node kind lead entries).text) :
    q = [kind.opener] ∨ ∃ done e rest, entries = done ++ e :: rest ∧
      ((∃ q' ∈ marks e.tree.text, q = opening kind lead done ++ (e.head ++ q')) ∨
        q = opening kind lead done ++ e.text) := by
  have hbracket : marks [kind.opener] = [[kind.opener]] := by cases kind <;> rfl
  have hclose : marks [kind.closer] = [] := by cases kind <;> rfl
  have hjoined : Leaves (ParseTree.joined entries) {} := leaves_joined fun e he =>
    leaves_text (hentries e he).1 (hentries e he).2.1 (leaves_tree (hentries e he).2.2)
  rw [ParseTree.text_node, ← List.singleton_append, marks_append (leaves_opener kind), hbracket,
    marks_append (silent_blank hlead).leaves, (silent_blank hlead).marks, marks_append hjoined,
    hclose, List.map_nil, List.append_nil] at hq
  rcases List.mem_append.mp hq with hq | hq
  · exact .inl (List.mem_singleton.mp hq)
  right
  simp only [List.nil_append, List.map_map] at hq
  obtain ⟨q', hq', rfl⟩ := List.mem_map.mp hq
  obtain ⟨done, e, rest, hsplit, hcut⟩ := mem_marks_joined hentries hq'
  refine ⟨done, e, rest, hsplit, ?_⟩
  rcases hcut with ⟨q, hvalue, rfl⟩ | rfl
  · exact .inl ⟨q, hvalue, by simp [opening]⟩
  · exact .inr (by simp [opening])

end Containers

/-- A place to cut is not at the very beginning, where the text does not begin with a comma. -/
theorem ne_nil_of_mem_marks {t : ParseTree} {d : Nat} (ht : t.Valid d) {q : List Char}
    (hq : q ∈ marks t.text) : q ≠ [] := by
  obtain ⟨c, s, hs, hc⟩ := ht.starts
  have hcomma : c ≠ ',' := (solid_of_isStart hc).2
  rintro rfl
  rw [hs, marks, cuts] at hq
  rcases List.mem_append.mp hq with hq | hq
  · split_ifs at hq <;> simp_all
  · have hfront := (isPrefix_of_mem_cuts hq).1
    simp at hfront

/-- Wherever the text of a tree may be cut, it closes. -/
theorem closes_of_mem_marks {d : Nat} {t : ParseTree} (h : t.Valid d) (hdistinct : t.Distinct)
    {q : List Char} (hq : q ∈ marks t.text) : Closes d t q := by
  induction h generalizing q with
  | scalar h =>
    rw [ParseTree.text, (silent_scalar h).marks] at hq
    cases hq
  | @node d kind lead entries hlead hentries htrees ih =>
    have hvalid := (valid_node (.node hlead hentries htrees)).2
    rcases mem_marks_node hlead hvalid hq with rfl | ⟨done, e, rest, rfl, ⟨q', hq', rfl⟩ | rfl⟩
    · refine closes_gap blank_nil hvalid ?_ ?_ hdistinct
      · intro hwhole
        have hlength := hwhole.length_le
        rw [ParseTree.text_node] at hlength
        simp at hlength
      · intro e rest _
        simp [opening]
    · exact closes_tree hlead hvalid hdistinct (isPrefix_of_mem_marks hq')
        (ne_nil_of_mem_marks (htrees e (by simp)) hq')
        (ih e (by simp) (distinct_tree hdistinct) hq')
    · exact closes_done hlead hvalid hdistinct List.prefix_rfl

end Agents.PartialJson
