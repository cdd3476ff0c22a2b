import Agents.Proofs.Json.Tree

/-! # Values are read as they are spelled

The reader takes the text of a valid tree for the tree's value, in front of anything that cannot
continue a number (`ParseTree.Valid.reads`), and whatever it takes for a value is the text of a
valid tree (`exists_tree`).
-/

namespace Agents.Json

/-! ## Reading values -/

theorem value_blank (d : Nat) {b : List Char} (hb : Blank b) (s : List Char) :
    value d (b ++ s) = value d s := by
  unfold value
  rw [skipBlanks_append hb]

theorem value_flat (d : Nat) {c : Char} (hc : isBlank c = false) (hlist : c ≠ '[')
    (hobject : c ≠ '\x7b') (s : List Char) : value d (c :: s) =
      if c = 'n' then literal .null ['u', 'l', 'l'] s
      else if c = 't' then literal (.bool true) ['r', 'u', 'e'] s
      else if c = 'f' then literal (.bool false) ['a', 'l', 's', 'e'] s
      else if c = '"' then
        (string .plain s).map fun (cs, rest) => (.str (String.ofList cs), rest)
      else if c = '-' ∨ isDigit c = true then
        (number (c :: s)).map fun (n, rest) => (.num n, rest)
      else faultAtNext .expectedValue (c :: s) := by
  have hstring : ((string .plain s).bind fun (cs, rest) => .ok (.str (String.ofList cs), rest)) =
      (string .plain s).map fun (cs, rest) => (Json.str (String.ofList cs), rest) := by
    cases string .plain s <;> rfl
  have hnumber : ((number (c :: s)).bind fun (n, rest) => .ok (.num n, rest)) =
      (number (c :: s)).map fun (n, rest) => (Json.num n, rest) := by
    cases number (c :: s) <;> rfl
  rw [value, skipBlanks_cons hc, ← hstring, ← hnumber]
  simp only [if_neg hlist, if_neg hobject]
  rfl

theorem value_quote (d : Nat) (s : List Char) : value d ('"' :: s) =
    (string .plain s).map fun (cs, rest) => (.str (String.ofList cs), rest) :=
  value_flat d rfl (by decide) (by decide) s

theorem value_null (d : Nat) (s : List Char) :
    value d ('n' :: s) = literal .null ['u', 'l', 'l'] s :=
  value_flat d rfl (by decide) (by decide) s

theorem value_true (d : Nat) (s : List Char) :
    value d ('t' :: s) = literal (.bool true) ['r', 'u', 'e'] s :=
  value_flat d rfl (by decide) (by decide) s

theorem value_false (d : Nat) (s : List Char) :
    value d ('f' :: s) = literal (.bool false) ['a', 'l', 's', 'e'] s :=
  value_flat d rfl (by decide) (by decide) s

theorem value_number (d : Nat) {c : Char} (hc : c = '-' ∨ isDigit c = true) (s : List Char) :
    value d (c :: s) = (number (c :: s)).map fun (n, rest) => (.num n, rest) := by
  have hstart : isStart c = true := by
    rcases hc with rfl | hc
    · rfl
    · simp [isStart, hc]
  have hother {e : Char} (he : ¬ (e = '-' ∨ isDigit e = true)) : c ≠ e := fun heq => he (heq ▸ hc)
  rw [value_flat d (isBlank_of_isStart hstart) (hother (by decide)) (hother (by decide)),
    if_neg (hother (by decide)), if_neg (hother (by decide)), if_neg (hother (by decide)),
    if_neg (hother (by decide)), if_pos hc]

/-- In front of anything that cannot continue a number, the reader takes this text for the value. -/
def Reads (d : Nat) (text : List Char) (json : Json) : Prop :=
  ∀ r, Halts r → value d (text ++ r) = .ok (json, r)

theorem Reads.unique {d : Nat} {text : List Char} {v w : Json} (hv : Reads d text v)
    (hw : Reads d text w) : v = w :=
  congrArg Prod.fst (Except.ok.inj ((hv [] nofun).symm.trans (hw [] nofun)))

theorem IsScalar.reads {text : List Char} {json : Json} (h : IsScalar text json) (d : Nat) :
    Reads d text json := by
  intro r hr
  cases h with
  | nullWord => exact (value_null d _).trans (literal_append _ ['u', 'l', 'l'] r)
  | trueWord => exact (value_true d _).trans (literal_append _ ['r', 'u', 'e'] r)
  | falseWord => exact (value_false d _).trans (literal_append _ ['a', 'l', 's', 'e'] r)
  | @number text n h =>
    obtain ⟨c, t, rfl, hc⟩ := head_of_number h
    rw [List.cons_append, value_number d hc, ← List.cons_append, (number_text h).2 r hr]
    rfl
  | string h =>
    rw [List.cons_append, value_quote, List.append_assoc, List.singleton_append,
      (spells_of_quoted h).read]
    rfl

theorem scalar_of_value {d : Nat} {c : Char} {s rest : List Char} {json : Json}
    (hlist : c ≠ '[') (hobject : c ≠ '\x7b') (hc : isBlank c = false)
    (h : value d (c :: s) = .ok (json, rest)) :
    ∃ text, IsScalar text json ∧ c :: s = text ++ rest := by
  by_cases hnull : c = 'n'
  · subst hnull
    rw [value_null] at h
    obtain ⟨rfl, rfl⟩ := literal_eq_ok h
    exact ⟨_, .nullWord, rfl⟩
  by_cases htrue : c = 't'
  · subst htrue
    rw [value_true] at h
    obtain ⟨rfl, rfl⟩ := literal_eq_ok h
    exact ⟨_, .trueWord, rfl⟩
  by_cases hfalse : c = 'f'
  · subst hfalse
    rw [value_false] at h
    obtain ⟨rfl, rfl⟩ := literal_eq_ok h
    exact ⟨_, .falseWord, rfl⟩
  by_cases hquote : c = '"'
  · subst hquote
    rw [value_quote] at h
    cases hs : string .plain s with
    | error e =>
      rw [hs] at h
      cases h
    | ok result =>
      obtain ⟨cs, left⟩ := result
      rw [hs] at h
      cases h
      obtain ⟨raw, rfl, hraw⟩ := spells_of_string hs
      exact ⟨_, .string (hraw.read []), by simp⟩
  by_cases hnumber : c = '-' ∨ isDigit c = true
  · rw [value_number d hnumber] at h
    cases hs : number (c :: s) with
    | error e =>
      rw [hs] at h
      cases h
    | ok result =>
      obtain ⟨n, left⟩ := result
      rw [hs] at h
      cases h
      obtain ⟨t, -, ht, hread⟩ := takes_number _ _ _ hs
      exact ⟨t, .number (by simpa using hread [] nofun), ht⟩
  · rw [value_flat d hc hlist hobject] at h
    simp only [hnull, htrue, hfalse, hquote, hnumber, if_false] at h
    cases h

/-! ## Reading containers -/

def Container.read (value : List Char → Read Json) (fuel : Nat) (first : Bool) (s : List Char) :
    Container → Except Fault (List (String × Json) × List Char)
  | .list => (elements value fuel first s).map fun (items, rest) => (items.map ("", ·), rest)
  | .object => members value fuel first s

/-- What a reader finds at a bracket is what it finds in the container. -/
theorem value_opener (d : Nat) (kind : Container) (s : List Char) :
    value (d + 1) (kind.opener :: s) =
      (kind.read (value d) (s.length + 1) true s).map fun (ms, rest) => (kind.build ms, rest) := by
  cases kind with
  | list =>
    show (elements (value d) (s.length + 1) true s).bind _ = _
    simp only [Container.read]
    cases elements (value d) (s.length + 1) true s with
    | error e => rfl
    | ok result =>
      obtain ⟨items, rest⟩ := result
      simp [Except.bind, Except.map, Container.build, pure, Except.pure, Function.comp_def]
  | object =>
    show (members (value d) (s.length + 1) true s).bind _ = _
    simp only [Container.read]
    cases members (value d) (s.length + 1) true s <;> rfl

theorem bind_eq_ok_iff {ε α β : Type} {x : Except ε α} {f : α → Except ε β} {b : β} :
    (x >>= f) = .ok b ↔ ∃ a, x = .ok a ∧ f a = .ok b := by
  cases x with
  | error e => simp [bind, Except.bind]
  | ok a => simp [bind, Except.bind]

namespace Container

theorem comma_ne_closer (kind : Container) : ',' ≠ kind.closer := by
  cases kind <;> decide

/-- What stands before the value of an entry: its name, and the text after it. -/
def readHead : Container → List Char → Option (String × List Char)
  | .list, s => some ("", skipBlanks s)
  | .object, s =>
    match skipBlanks s with
    | '"' :: rest =>
      match string .plain rest with
      | .ok (key, rest) =>
        match skipBlanks rest with
        | ':' :: rest => some (String.ofList key, rest)
        | _ => none
      | .error _ => none
    | _ => none

/-- In an object that is a string, which ends before a colon. -/
theorem readHead_object_eq_some_iff {s s₁ : List Char} {name : String} :
    readHead .object s = some (name, s₁) ↔ ∃ rest key rest', skipBlanks s = '"' :: rest ∧
      string .plain rest = .ok (key, rest') ∧ skipBlanks rest' = ':' :: s₁ ∧
      name = String.ofList key := by
  rw [readHead]
  constructor
  · intro h
    split at h
    next rest hquote =>
      split at h
      next key rest' hkey =>
        split at h
        next s₁' hcolon =>
          cases h
          exact ⟨rest, key, rest', hquote, hkey, hcolon, rfl⟩
        · cases h
      · cases h
    · cases h
  · rintro ⟨rest, key, rest', hquote, hkey, hcolon, rfl⟩
    simp [hquote, hkey, hcolon]

variable (kind : Container) (f : List Char → Read Json)

/-- Whether an entry begins here: neither the text nor the container ends. -/
def Opens (s : List Char) : Prop := ∃ c rest, skipBlanks s = c :: rest ∧ c ≠ kind.closer

def ReadsEntry (fuel : Nat) (s : List Char) (ms : List (String × Json)) (left : List Char) : Prop :=
  ∃ name s₁ item s₂ rest, kind.readHead s = some (name, s₁) ∧ f s₁ = .ok (item, s₂) ∧
    kind.read f fuel false s₂ = .ok (rest, left) ∧ ms = (name, item) :: rest

def entries (fuel : Nat) (s : List Char) :
    Container → Except Fault (List (String × Json) × List Char)
  | .list => do
    let (item, rest) ← f s
    let (ms, rest) ← Container.list.read f fuel false rest
    return (("", item) :: ms, rest)
  | .object =>
    match s with
    | '"' :: s => do
      let (key, rest) ← string .plain s
      match skipBlanks rest with
      | [] => fault .eofInObject []
      | ':' :: rest =>
        let (item, rest) ← f rest
        let (ms, rest) ← Container.object.read f fuel false rest
        return ((String.ofList key, item) :: ms, rest)
      | rest => faultAtNext .expectedColon rest
    | s => faultAtNext .keyNotString s

theorem map_elements (fuel : Nat) (s : List Char) :
    ((do
      let (item, rest) ← f s
      let (items, rest) ← elements f fuel false rest
      return (item :: items, rest) : Except Fault (List Json × List Char)).map
        fun (items, rest) => (items.map ("", ·), rest)) = Container.list.entries f fuel s := by
  simp only [entries, read]
  cases f s with
  | error e => rfl
  | ok result =>
    obtain ⟨item, rest⟩ := result
    show Except.map _ ((elements f fuel false rest).bind _) =
      ((elements f fuel false rest).map _).bind _
    cases elements f fuel false rest <;> rfl

/-- The error of a container that ends too early. -/
def unclosed : Container → SyntaxCause
  | .list => .eofInList
  | .object => .eofInObject

/-- The error of an entry after which there is neither a comma nor the end of the container. -/
def unseparated : Container → SyntaxCause
  | .list => .expectedListEnd
  | .object => .expectedObjectEnd

/-- One step through a container: to its end, or to an entry, which follows a comma unless it is
the first. -/
theorem read_succ (fuel : Nat) (first : Bool) (s : List Char) :
    kind.read f (fuel + 1) first s =
      match skipBlanks s with
      | [] => fault kind.unclosed []
      | c :: rest =>
        if c = kind.closer then .ok ([], rest)
        else if first then kind.entries f fuel (c :: rest)
        else if c = ',' then
          match skipBlanks rest with
          | [] => fault .eofInValue []
          | c :: rest =>
            if c = kind.closer then faultAtNext .trailingComma (c :: rest)
            else kind.entries f fuel (c :: rest)
        else faultAtNext kind.unseparated (c :: rest) := by
  cases kind with
  | list =>
    simp only [read, elements]
    rcases skipBlanks s with _ | ⟨c, rest⟩
    · rfl
    by_cases hclose : c = ']'
    · subst hclose
      rfl
    cases first with
    | true => simp [hclose, closer, ← map_elements]
    | false =>
      by_cases hcomma : c = ','
      · subst hcomma
        cases hrest : skipBlanks rest with
        | nil => simp [hrest, closer]; rfl
        | cons e rest' =>
          by_cases hend : e = ']'
          · simp [hrest, hend, closer]; rfl
          · simp [hrest, hend, closer, ← map_elements]
      · simp [hclose, hcomma, closer]
        rfl
  | object =>
    simp only [read, members]
    rcases skipBlanks s with _ | ⟨c, rest⟩
    · rfl
    by_cases hclose : c = '\x7d'
    · subst hclose
      rfl
    cases first with
    | true =>
      by_cases hquote : c = '"'
      · subst hquote
        rfl
      · simp [hclose, hquote, closer, entries]
    | false =>
      by_cases hcomma : c = ','
      · subst hcomma
        cases hrest : skipBlanks rest with
        | nil => simp [hrest, closer]
        | cons e rest' =>
          by_cases hend : e = '\x7d'
          · simp [hrest, hend, closer]
          by_cases hquote : e = '"'
          · subst hquote
            simp only [hrest]
            rfl
          · simp [hrest, hend, hquote, closer, entries]
      · simp [hclose, hcomma, closer]
        rfl

theorem read_blank (fuel : Nat) (first : Bool) {b : List Char} (hb : Blank b) (s : List Char) :
    kind.read f (fuel + 1) first (b ++ s) = kind.read f (fuel + 1) first s := by
  rw [read_succ, read_succ, skipBlanks_append hb]

theorem read_true {fuel : Nat} {s rest : List Char} {c : Char} (hskip : skipBlanks s = c :: rest)
    (hc : c ≠ kind.closer) : kind.read f (fuel + 1) true s = kind.entries f fuel (c :: rest) := by
  simp only [read_succ, hskip, if_neg hc, if_true]

theorem read_comma {fuel : Nat} {s s' rest : List Char} {c : Char}
    (hcomma : skipBlanks s = ',' :: s') (hskip : skipBlanks s' = c :: rest) (hc : c ≠ kind.closer) :
    kind.read f (fuel + 1) false s = kind.entries f fuel (c :: rest) := by
  simp only [read_succ, hcomma, hskip, if_neg hc, if_neg (comma_ne_closer kind),
    if_neg Bool.false_ne_true, if_true]

theorem entries_eq_ok_iff {fuel : Nat} {s left : List Char} {ms : List (String × Json)}
    (hs : skipBlanks s = s) :
    kind.entries f fuel s = .ok (ms, left) ↔ kind.ReadsEntry f fuel s ms left := by
  cases kind with
  | list =>
    simp only [entries, ReadsEntry, readHead, hs, bind_eq_ok_iff]
    constructor
    · rintro ⟨⟨item, s₂⟩, hitem, ⟨rest, left'⟩, hrest, h⟩
      cases h
      exact ⟨"", s, item, s₂, rest, rfl, hitem, hrest, rfl⟩
    · rintro ⟨name, s₁, item, s₂, rest, h, hitem, hrest, rfl⟩
      cases h
      exact ⟨(item, s₂), hitem, (rest, left), hrest, rfl⟩
  | object =>
    simp only [entries, ReadsEntry, readHead_object_eq_some_iff, hs]
    constructor
    · intro h
      split at h
      next s =>
        obtain ⟨⟨key, rest⟩, hkey, h⟩ := bind_eq_ok_iff.mp h
        split at h
        · cases h
        next s₁ hcolon =>
          obtain ⟨⟨item, s₂⟩, hitem, h⟩ := bind_eq_ok_iff.mp h
          obtain ⟨⟨ms', left'⟩, hrest, h⟩ := bind_eq_ok_iff.mp h
          cases h
          exact ⟨_, s₁, item, s₂, ms', ⟨s, key, rest, rfl, hkey, hcolon, rfl⟩, hitem, hrest, rfl⟩
        · cases h
      · cases h
    · rintro ⟨_, s₁, item, s₂, ms', ⟨s', key, rest, rfl, hkey, hcolon, rfl⟩, hitem, hrest, rfl⟩
      refine bind_eq_ok_iff.mpr ⟨_, hkey, ?_⟩
      simp only [hcolon]
      exact bind_eq_ok_iff.mpr ⟨_, hitem, bind_eq_ok_iff.mpr ⟨_, hrest, rfl⟩⟩

theorem skipBlanks_idem (s : List Char) : skipBlanks (skipBlanks s) = skipBlanks s := by
  obtain ⟨b, hb, hs, -⟩ := exists_blank s
  calc skipBlanks (skipBlanks s) = skipBlanks (b ++ skipBlanks s) := (skipBlanks_append hb _).symm
    _ = skipBlanks s := by rw [← hs]

theorem readHead_skipBlanks (s : List Char) : kind.readHead (skipBlanks s) = kind.readHead s := by
  cases kind <;> simp only [readHead, skipBlanks_idem]

theorem readsEntry_of_skip {fuel : Nat} {s rest left : List Char} {c : Char}
    {ms : List (String × Json)} (hskip : skipBlanks s = c :: rest) :
    kind.entries f fuel (c :: rest) = .ok (ms, left) ↔ kind.ReadsEntry f fuel s ms left := by
  rw [← hskip, entries_eq_ok_iff kind f (skipBlanks_idem s)]
  simp only [ReadsEntry, readHead_skipBlanks]

theorem read_closer {fuel : Nat} {first : Bool} {s rest : List Char}
    (hskip : skipBlanks s = kind.closer :: rest) :
    kind.read f (fuel + 1) first s = .ok ([], rest) := by
  simp only [read_succ, hskip, if_true]

theorem read_nil {fuel : Nat} {first : Bool} {s : List Char} (hskip : skipBlanks s = [])
    (result : List (String × Json) × List Char) :
    kind.read f (fuel + 1) first s ≠ .ok result := by
  simp only [read_succ, hskip]
  exact nofun

/-- Nothing else than a comma or the end of the container follows an entry. -/
theorem read_stray {fuel : Nat} {s rest : List Char} {c : Char} (hskip : skipBlanks s = c :: rest)
    (hclose : c ≠ kind.closer) (hcomma : c ≠ ',') (result : List (String × Json) × List Char) :
    kind.read f (fuel + 1) false s ≠ .ok result := by
  simp only [read_succ, hskip, if_neg hclose, if_neg hcomma, if_neg Bool.false_ne_true]
  exact nofun

theorem read_trailing {fuel : Nat} {s rest : List Char} (hskip : skipBlanks s = ',' :: rest)
    (hopens : ¬ kind.Opens rest) (result : List (String × Json) × List Char) :
    kind.read f (fuel + 1) false s ≠ .ok result := by
  simp only [read_succ, hskip, if_neg (comma_ne_closer kind), if_neg Bool.false_ne_true, if_true]
  cases hrest : skipBlanks rest with
  | nil => exact nofun
  | cons c rest' =>
    by_cases hc : c = kind.closer
    · simp only [hc, if_true]
      exact nofun
    · exact absurd ⟨c, rest', hrest, hc⟩ hopens

theorem read_true_eq_ok_iff {fuel : Nat} {s left : List Char} {ms : List (String × Json)} :
    kind.read f (fuel + 1) true s = .ok (ms, left) ↔
      skipBlanks s = kind.closer :: left ∧ ms = [] ∨
      kind.Opens s ∧ kind.ReadsEntry f fuel s ms left := by
  cases hskip : skipBlanks s with
  | nil =>
    refine ⟨fun h => absurd h (kind.read_nil f hskip _), ?_⟩
    rintro (⟨h, -⟩ | ⟨⟨c, rest, h, -⟩, -⟩)
    · cases h
    · rw [hskip] at h
      cases h
  | cons c rest =>
  by_cases hc : c = kind.closer
  · subst hc
    rw [kind.read_closer f hskip]
    constructor
    · intro h
      cases h
      exact .inl ⟨rfl, rfl⟩
    · rintro (⟨h, rfl⟩ | ⟨⟨c, rest', h, hc⟩, -⟩)
      · cases h
        rfl
      · rw [hskip] at h
        cases h
        exact absurd rfl hc
  · rw [kind.read_true f hskip hc, kind.readsEntry_of_skip f hskip]
    refine ⟨fun h => .inr ⟨⟨c, rest, hskip, hc⟩, h⟩, ?_⟩
    rintro (⟨h, -⟩ | ⟨-, h⟩)
    · cases h
      exact absurd rfl hc
    · exact h

/-- After an entry there is a comma and further entries, or else the end of the container. -/
theorem read_false_eq_ok_iff {fuel : Nat} {s left : List Char} {ms : List (String × Json)} :
    kind.read f (fuel + 1) false s = .ok (ms, left) ↔
      skipBlanks s = kind.closer :: left ∧ ms = [] ∨
      ∃ s', skipBlanks s = ',' :: s' ∧ kind.Opens s' ∧ kind.ReadsEntry f fuel s' ms left := by
  cases hskip : skipBlanks s with
  | nil =>
    refine ⟨fun h => absurd h (kind.read_nil f hskip _), ?_⟩
    rintro (⟨h, -⟩ | ⟨s', h, -⟩) <;> cases h
  | cons c rest =>
  by_cases hc : c = kind.closer
  · subst hc
    rw [kind.read_closer f hskip]
    constructor
    · intro h
      cases h
      exact .inl ⟨rfl, rfl⟩
    · rintro (⟨h, rfl⟩ | ⟨s', h, -⟩)
      · cases h
        rfl
      · cases kind <;> cases h
  by_cases hcomma : c = ','
  · subst hcomma
    by_cases hopens : kind.Opens rest
    · obtain ⟨c, rest', hrest, hclose⟩ := id hopens
      rw [kind.read_comma f hskip hrest hclose, kind.readsEntry_of_skip f hrest]
      refine ⟨fun h => .inr ⟨rest, rfl, hopens, h⟩, ?_⟩
      rintro (⟨h, -⟩ | ⟨s', h, -, hentry⟩)
      · exact absurd (List.cons.inj h).1 hc
      · cases h
        exact hentry
    · refine ⟨fun h => absurd h (kind.read_trailing f hskip hopens _), ?_⟩
      rintro (⟨h, -⟩ | ⟨s', h, hopens', -⟩)
      · exact absurd (List.cons.inj h).1 hc
      · cases h
        exact absurd hopens' hopens
  · refine ⟨fun h => absurd h (kind.read_stray f hskip hc hcomma _), ?_⟩
    rintro (⟨h, -⟩ | ⟨s', h, -⟩)
    · exact absurd (List.cons.inj h).1 hc
    · exact absurd (List.cons.inj h).1 hcomma

theorem read_true_of_opens {fuel : Nat} {s left : List Char} {ms : List (String × Json)}
    (h : kind.Opens s) :
    kind.read f (fuel + 1) true s = .ok (ms, left) ↔ kind.ReadsEntry f fuel s ms left := by
  rw [read_true_eq_ok_iff]
  refine ⟨?_, fun hentry => .inr ⟨h, hentry⟩⟩
  rintro (⟨hclose, -⟩ | ⟨-, hentry⟩)
  · obtain ⟨c, rest, hskip, hc⟩ := h
    rw [hskip] at hclose
    exact absurd (List.cons.inj hclose).1 hc
  · exact hentry

theorem read_comma_append {fuel : Nat} {b s left : List Char} {ms : List (String × Json)}
    (hb : Blank b) (h : kind.Opens s) :
    kind.read f (fuel + 1) false (b ++ ',' :: s) = .ok (ms, left) ↔
      kind.read f (fuel + 1) true s = .ok (ms, left) := by
  have hskip : skipBlanks (b ++ ',' :: s) = ',' :: s := by
    rw [skipBlanks_append hb, skipBlanks_cons rfl]
  rw [read_false_eq_ok_iff, read_true_of_opens kind f h, hskip]
  constructor
  · rintro (⟨hclose, -⟩ | ⟨s', hs, -, hentry⟩)
    · cases kind <;> exact absurd (List.cons.inj hclose).1 (by decide)
    · cases hs
      exact hentry
  · exact fun hentry => .inr ⟨s, rfl, h, hentry⟩

theorem read_closer_append {fuel : Nat} {first : Bool} {b : List Char} (hb : Blank b)
    (s : List Char) : kind.read f (fuel + 1) first (b ++ kind.closer :: s) = .ok ([], s) := by
  refine kind.read_closer f ?_
  rw [skipBlanks_append hb, skipBlanks_cons]
  cases kind <;> rfl

end Container

/-! ## Reading entries -/

section Entries

variable {kind : Container} {d fuel : Nat} {s r left : List Char}

theorem IsHead.opens {head : List Char} {name : String} (h : IsHead kind head name)
    (hs : Starts s) : kind.Opens (head ++ s) := by
  cases h with
  | list hb =>
    obtain ⟨c, rest, rfl, hc⟩ := id hs
    exact ⟨c, rest, by rw [skipBlanks_append hb, hs.skipBlanks], ne_closer_of_isStart hc _⟩
  | @object b raw cs b' b'' hb =>
    refine ⟨'"', raw ++ '"' :: (b' ++ ':' :: b'') ++ s, ?_, by decide⟩
    rw [List.append_assoc, skipBlanks_append hb]
    exact skipBlanks_cons rfl _

theorem IsHead.readHead {head : List Char} {name : String} (h : IsHead kind head name)
    (hs : Starts s) : ∃ b, Blank b ∧ kind.readHead (head ++ s) = some (name, b ++ s) := by
  cases h with
  | list hb =>
    exact ⟨[], blank_nil, by rw [Container.readHead, skipBlanks_append hb, hs.skipBlanks]; rfl⟩
  | @object b raw cs b' b'' hb hname hb' hb'' =>
    refine ⟨b'', hb'', Container.readHead_object_eq_some_iff.mpr
      ⟨raw ++ '"' :: (b' ++ ':' :: (b'' ++ s)), cs, b' ++ ':' :: (b'' ++ s), ?_,
        (spells_of_quoted hname).read _, ?_, rfl⟩⟩
    · rw [List.append_assoc, skipBlanks_append hb]
      simp only [List.cons_append, List.append_assoc]
      exact skipBlanks_cons rfl _
    · rw [skipBlanks_append hb']
      exact skipBlanks_cons rfl _

theorem isHead_of_readHead {name : String} (h : kind.readHead s = some (name, r)) :
    ∃ head, IsHead kind head name ∧ s = head ++ r := by
  obtain ⟨b, hb, hs, -⟩ := exists_blank s
  cases kind with
  | list =>
    cases h
    exact ⟨b, .list hb, hs⟩
  | object =>
    obtain ⟨rest, key, rest', hquote, hkey, hcolon, rfl⟩ :=
      Container.readHead_object_eq_some_iff.mp h
    obtain ⟨raw, rfl, hraw⟩ := spells_of_string hkey
    obtain ⟨b', hb', hrest, -⟩ := exists_blank rest'
    refine ⟨_, .object hb (hraw.read []) hb' blank_nil, ?_⟩
    rw [hs, hquote, hrest, hcolon]
    simp

theorem readsEntry_iff {head x : List Char} {name : String} {w : Json}
    {ms : List (String × Json)} (hhead : IsHead kind head name) (hstart : Starts x)
    (hx : Reads d x w) (hr : Halts r) :
    kind.ReadsEntry (value d) fuel (head ++ (x ++ r)) ms left ↔
      ∃ rest, kind.read (value d) fuel false r = .ok (rest, left) ∧ ms = (name, w) :: rest := by
  obtain ⟨b, hb, hread⟩ := hhead.readHead (hstart.append r)
  have hvalue : value d (b ++ (x ++ r)) = .ok (w, r) := (value_blank d hb _).trans (hx r hr)
  constructor
  · rintro ⟨_, _, item, s₂, rest, h, hitem, hrest, rfl⟩
    rw [hread] at h
    cases h
    rw [hvalue] at hitem
    cases hitem
    exact ⟨rest, hrest, rfl⟩
  · rintro ⟨rest, hrest, rfl⟩
    exact ⟨name, _, w, r, rest, hread, hvalue, hrest, rfl⟩

structure Entry.Readable (kind : Container) (d : Nat) (e : Entry ParseTree) : Prop where
  head : IsHead kind e.head e.name
  after : Blank e.after
  starts : Starts e.tree.text
  reads : Reads d e.tree.text e.tree.value

theorem halts_cons {c : Char} (hc : isNumeric c = false) (s : List Char) : Halts (c :: s) := by
  intro e he
  cases he
  exact hc

theorem halts_of_blank {b : List Char} (hb : Blank b) (hs : Halts s) : Halts (b ++ s) := by
  cases b with
  | nil => exact hs
  | cons c b =>
    refine halts_cons ?_ _
    rcases eq_of_isBlank (hb c List.mem_cons_self) with rfl | rfl | rfl | rfl <;> rfl

theorem ahead_cons (e : Entry ParseTree) (done : List (Entry ParseTree)) (s : List Char) :
    ahead (e :: done) ++ s = e.head ++ (e.tree.text ++ (e.after ++ ',' :: (ahead done ++ s))) := by
  simp [ahead, Entry.text]

theorem opens_ahead {done : List (Entry ParseTree)} (hdone : ∀ e ∈ done, e.Readable kind d)
    (hs : kind.Opens s) : kind.Opens (ahead done ++ s) := by
  cases done with
  | nil => exact hs
  | cons e done =>
    have he := hdone e List.mem_cons_self
    rw [ahead_cons]
    exact he.head.opens (he.starts.append _)

/-- Entries that are followed by another one are read one after another. -/
theorem read_ahead {done : List (Entry ParseTree)} (hdone : ∀ e ∈ done, e.Readable kind d)
    (hs : kind.Opens s) (hfuel : (ahead done ++ s).length < fuel) :
    ∃ fuel', s.length < fuel' ∧ ∀ ms left,
      kind.read (value d) fuel true (ahead done ++ s) = .ok (ms, left) ↔
        ∃ rest, kind.read (value d) fuel' true s = .ok (rest, left) ∧
          ms = done.map Entry.member ++ rest := by
  induction done generalizing fuel with
  | nil => exact ⟨fuel, hfuel, fun ms left => by simp [ahead]⟩
  | cons e done ih =>
    have he := hdone e List.mem_cons_self
    have hrest := fun e' he' => hdone e' (List.mem_cons_of_mem e he')
    have hopens := opens_ahead hrest hs
    have hall := opens_ahead hdone hs
    rw [ahead_cons] at hfuel hall ⊢
    obtain ⟨fuel, rfl⟩ : ∃ n, fuel = n + 2 := ⟨fuel - 2, by simp at hfuel; omega⟩
    have hless : (ahead done ++ s).length < fuel + 1 := by
      simp at hfuel ⊢
      omega
    obtain ⟨fuel', hfuel', hread⟩ := ih hrest hless
    refine ⟨fuel', hfuel', fun ms left => ?_⟩
    rw [Container.read_true_of_opens kind _ hall, readsEntry_iff he.head he.starts he.reads
      (halts_of_blank he.after (halts_cons rfl _))]
    simp only [Container.read_comma_append kind _ he.after hopens, hread]
    constructor
    · rintro ⟨_, ⟨rest, hrest, rfl⟩, rfl⟩
      exact ⟨rest, hrest, rfl⟩
    · rintro ⟨rest, hrest, rfl⟩
      exact ⟨_, ⟨rest, hrest, rfl⟩, rfl⟩

theorem isNumeric_closer (kind : Container) : isNumeric kind.closer = false := by
  cases kind <;> decide

theorem read_last {done : List (Entry ParseTree)} (hdone : ∀ e ∈ done, e.Readable kind d)
    {head x b : List Char} {name : String} {w : Json} (hhead : IsHead kind head name)
    (hstart : Starts x) (hx : Reads d x w) (hb : Blank b)
    (hfuel : (ahead done ++ (head ++ (x ++ (b ++ kind.closer :: r)))).length < fuel) :
    kind.read (value d) fuel true (ahead done ++ (head ++ (x ++ (b ++ kind.closer :: r)))) =
      .ok (done.map Entry.member ++ [(name, w)], r) := by
  have hopens := hhead.opens (hstart.append (b ++ kind.closer :: r))
  obtain ⟨fuel', hfuel', hread⟩ := read_ahead hdone hopens hfuel
  obtain ⟨fuel', rfl⟩ : ∃ n, fuel' = n + 2 := ⟨fuel' - 2, by simp at hfuel'; omega⟩
  refine (hread _ _).mpr ⟨[(name, w)], ?_, rfl⟩
  rw [Container.read_true_of_opens kind _ hopens, readsEntry_iff hhead hstart hx
    (halts_of_blank hb (halts_cons (isNumeric_closer kind) _))]
  exact ⟨[], Container.read_closer_append kind _ hb r, rfl⟩

theorem value_empty {b : List Char} (hb : Blank b) :
    value (d + 1) (kind.opener :: (b ++ kind.closer :: r)) = .ok (kind.build [], r) := by
  rw [value_opener, Container.read_closer_append kind _ hb]
  rfl

theorem length_lt_append (lead s : List Char) : s.length < (lead ++ s).length + 1 := by
  rw [List.length_append]
  omega

theorem value_last {lead : List Char} (hlead : Blank lead) {done : List (Entry ParseTree)}
    (hdone : ∀ e ∈ done, e.Readable kind d) {head x b : List Char} {name : String} {w : Json}
    (hhead : IsHead kind head name) (hstart : Starts x) (hx : Reads d x w) (hb : Blank b) :
    value (d + 1) (kind.opener ::
        (lead ++ (ahead done ++ (head ++ (x ++ (b ++ kind.closer :: r)))))) =
      .ok (kind.build (done.map Entry.member ++ [(name, w)]), r) := by
  rw [value_opener, Container.read_blank kind _ _ _ hlead,
    read_last hdone hhead hstart hx hb (length_lt_append lead _)]
  rfl

end Entries

/-! ## Trees are read, and nothing else -/

theorem ParseTree.text_concat (kind : Container) (lead : List Char) (done : List (Entry ParseTree))
    (e : Entry ParseTree) : (node kind lead (done ++ [e])).text = kind.opener ::
      (lead ++ (ahead done ++ (e.head ++ (e.tree.text ++ (e.after ++ [kind.closer]))))) := by
  simp [text_node, joined_append, joined_cons, trail, Entry.text]

/-- The text of a valid tree is read as its value. -/
theorem ParseTree.Valid.reads {d : Nat} {t : ParseTree} (h : t.Valid d) :
    Reads d t.text t.value := by
  induction h with
  | scalar h => exact h.reads _
  | @node d kind lead entries hlead hentries htrees ih =>
    have hreadable : ∀ e ∈ entries, e.Readable kind d := fun e he =>
      ⟨(hentries e he).1, (hentries e he).2, (htrees e he).starts, ih e he⟩
    intro r _
    rcases entries.eq_nil_or_concat with rfl | ⟨done, e, rfl⟩
    · rw [text_node, value_node]
      have hempty : Json.value (d + 1) (kind.opener :: (lead ++ kind.closer :: r)) =
          .ok (kind.build [], r) := value_empty hlead
      simpa using hempty
    · rw [List.concat_eq_append] at hreadable ⊢
      obtain ⟨hdone, he⟩ := List.forall_mem_append.mp hreadable
      have he := he e List.mem_cons_self
      rw [text_concat, value_node]
      simpa [Entry.member] using
        value_last (r := r) hlead hdone he.head he.starts he.reads he.after

/-- Whatever is taken for a value is the text of a valid tree. -/
def ReadsTrees (d : Nat) : Prop := ∀ s v rest, value d s = .ok (v, rest) →
  ∃ b t, Blank b ∧ ParseTree.Valid d t ∧ s = b ++ (t.text ++ rest) ∧ t.value = v

def ValidEntries (d : Nat) (kind : Container) (entries : List (Entry ParseTree)) : Prop :=
  ∀ e ∈ entries, IsHead kind e.head e.name ∧ Blank e.after ∧ e.tree.Valid d

section Soundness

variable {d : Nat} {kind : Container} {s left : List Char} {ms : List (String × Json)}

theorem exists_entry {fuel : Nat} (hd : ReadsTrees d)
    (h : kind.ReadsEntry (value d) fuel s ms left) :
    ∃ name head t s' rest, IsHead kind head name ∧ ParseTree.Valid d t ∧
      s = head ++ (t.text ++ s') ∧ kind.read (value d) fuel false s' = .ok (rest, left) ∧
      ms = (name, t.value) :: rest := by
  obtain ⟨name, s₁, item, s₂, rest, hname, hitem, hrest, rfl⟩ := h
  obtain ⟨head, hhead, rfl⟩ := isHead_of_readHead hname
  obtain ⟨b, t, hb, ht, rfl, rfl⟩ := hd _ _ _ hitem
  exact ⟨name, head ++ b, t, s₂, rest, hhead.append hb, ht, by simp, hrest, rfl⟩

theorem exists_trail (hd : ReadsTrees d) {fuel : Nat}
    (h : kind.read (value d) fuel false s = .ok (ms, left)) :
    ∃ b entries, Blank b ∧ ValidEntries d kind entries ∧
      s = b ++ (trail entries ++ kind.closer :: left) ∧ ms = entries.map Entry.member := by
  induction fuel generalizing s ms with
  | zero => cases kind <;> cases h
  | succ fuel ih =>
    obtain ⟨b, hb, hs, -⟩ := exists_blank s
    rcases (kind.read_false_eq_ok_iff _).mp h with ⟨hclose, rfl⟩ | ⟨s', hcomma, -, hentry⟩
    · exact ⟨b, [], hb, nofun, by rw [hs, hclose]; rfl, rfl⟩
    · obtain ⟨name, head, t, s₂, rest, hhead, ht, rfl, hrest, rfl⟩ := exists_entry hd hentry
      obtain ⟨b', entries, hb', hentries, rfl, rfl⟩ := ih hrest
      refine ⟨b, ⟨name, head, t, b'⟩ :: entries, hb,
        List.forall_mem_cons.mpr ⟨⟨hhead, hb', ht⟩, hentries⟩, ?_, rfl⟩
      rw [hs, hcomma]
      simp [trail, Entry.text]

theorem exists_entries (hd : ReadsTrees d) {fuel : Nat}
    (h : kind.read (value d) fuel true s = .ok (ms, left)) :
    ∃ lead entries, Blank lead ∧ ValidEntries d kind entries ∧
      s = lead ++ (ParseTree.joined entries ++ kind.closer :: left) ∧
      ms = entries.map Entry.member := by
  cases fuel with
  | zero => cases kind <;> cases h
  | succ fuel =>
    rcases (kind.read_true_eq_ok_iff _).mp h with ⟨hclose, rfl⟩ | ⟨-, hentry⟩
    · obtain ⟨b, hb, hs, -⟩ := exists_blank s
      exact ⟨b, [], hb, nofun, by rw [hs, hclose]; rfl, rfl⟩
    · obtain ⟨name, head, t, s₂, rest, hhead, ht, rfl, hrest, rfl⟩ := exists_entry hd hentry
      obtain ⟨b', entries, hb', hentries, rfl, rfl⟩ := exists_trail hd hrest
      refine ⟨[], ⟨name, head, t, b'⟩ :: entries, blank_nil,
        List.forall_mem_cons.mpr ⟨⟨hhead, hb', ht⟩, hentries⟩, ?_, rfl⟩
      simp [ParseTree.joined_cons, Entry.text]

end Soundness

theorem node_of_value {d : Nat} (hd : ReadsTrees d) (kind : Container) {s rest : List Char}
    {v : Json} (h : value (d + 1) (kind.opener :: s) = .ok (v, rest)) :
    ∃ t, ParseTree.Valid (d + 1) t ∧ kind.opener :: s = t.text ++ rest ∧ t.value = v := by
  rw [value_opener] at h
  cases hread : kind.read (value d) (s.length + 1) true s with
  | error e =>
    rw [hread] at h
    cases h
  | ok result =>
    obtain ⟨ms, left⟩ := result
    rw [hread] at h
    cases h
    obtain ⟨lead, entries, hlead, hentries, rfl, rfl⟩ := exists_entries hd hread
    refine ⟨.node kind lead entries, .node hlead (fun e he => ?_) fun e he => ?_, ?_, ?_⟩
    · exact ⟨(hentries e he).1, (hentries e he).2.1⟩
    · exact (hentries e he).2.2
    · simp [ParseTree.text_node]
    · rw [ParseTree.value_node]

theorem value_too_deep (kind : Container) (s : List Char) (result : Json × List Char) :
    value 0 (kind.opener :: s) ≠ .ok result := by
  cases kind <;> exact nofun

/-- It is enough to look at containers. -/
theorem readsTrees_of_nodes {d : Nat} (hnode : ∀ (kind : Container) {s rest : List Char} {v : Json},
    value d (kind.opener :: s) = .ok (v, rest) →
      ∃ t, ParseTree.Valid d t ∧ kind.opener :: s = t.text ++ rest ∧ t.value = v) :
    ReadsTrees d := by
  intro s v rest h
  obtain ⟨b, hb, hs, hblank⟩ := exists_blank s
  rw [hs, value_blank d hb] at h
  suffices ∃ t, ParseTree.Valid d t ∧ skipBlanks s = t.text ++ rest ∧ t.value = v by
    obtain ⟨t, ht, htext, hv⟩ := this
    exact ⟨b, t, hb, ht, by rw [hs, htext], hv⟩
  cases hskip : skipBlanks s with
  | nil =>
    rw [hskip] at h
    cases d <;> cases h
  | cons c rest' =>
    rw [hskip] at h
    by_cases hlist : c = '['
    · subst hlist
      exact hnode .list h
    by_cases hobject : c = '\x7b'
    · subst hobject
      exact hnode .object h
    · obtain ⟨text, hscalar, htext⟩ := scalar_of_value hlist hobject (hblank c rest' hskip) h
      exact ⟨.scalar text v, .scalar hscalar, htext, rfl⟩

/-- Whatever the reader takes for a value is the text of a valid tree. -/
theorem exists_tree (d : Nat) : ReadsTrees d := by
  induction d with
  | zero => exact readsTrees_of_nodes fun kind s _ _ h => absurd h (value_too_deep kind s _)
  | succ d ih => exact readsTrees_of_nodes fun kind _ _ _ h => node_of_value ih kind h

/-! ## Documents -/

theorem document_eq_ok_iff {s : List Char} {v : Json} :
    document s = .ok v ↔ ∃ rest, value maxDepth s = .ok (v, rest) ∧ Blank rest := by
  unfold document
  rw [bind_eq_ok_iff]
  constructor
  · rintro ⟨⟨v', rest⟩, hvalue, h⟩
    cases hskip : skipBlanks rest with
    | nil =>
      simp only [hskip] at h
      cases h
      exact ⟨rest, hvalue, List.dropWhile_eq_nil_iff.mp hskip⟩
    | cons c rest' =>
      simp only [hskip] at h
      cases h
  · rintro ⟨rest, hvalue, hrest⟩
    refine ⟨(v, rest), hvalue, ?_⟩
    simp only [skipBlanks_blank hrest]
    rfl

theorem halts_blank {b : List Char} (hb : Blank b) : Halts b := by
  have h := halts_of_blank hb (s := []) nofun
  rwa [List.append_nil] at h

/-- A document is read as the value it spells. -/
theorem Spelling.document_eq {text : List Char} (s : Spelling text) :
    document text = .ok s.tree.value := by
  rw [document_eq_ok_iff]
  refine ⟨s.after, ?_, s.blank_after⟩
  calc value maxDepth text = value maxDepth (s.before ++ (s.tree.text ++ s.after)) := by
        rw [← s.text_eq]
    _ = value maxDepth (s.tree.text ++ s.after) := value_blank _ s.blank_before _
    _ = .ok (s.tree.value, s.after) := s.valid.reads _ (halts_blank s.blank_after)

/-- Nothing else is read as a document. -/
theorem exists_spelling {text : List Char} {v : Json} (h : document text = .ok v) :
    ∃ s : Spelling text, s.tree.value = v := by
  obtain ⟨rest, hvalue, hrest⟩ := document_eq_ok_iff.mp h
  obtain ⟨b, t, hb, ht, htext, hv⟩ := exists_tree maxDepth _ _ _ hvalue
  exact ⟨⟨b, t, rest, hb, ht, hrest, htext⟩, hv⟩

theorem parse_eq_ok_iff {text : String} {v : Json} :
    parse text = .ok v ↔ document text.toList = .ok v := by
  unfold parse
  cases document text.toList with
  | ok json => simp
  | error fault => simp

end Agents.Json
