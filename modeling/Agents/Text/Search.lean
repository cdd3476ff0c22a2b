/-! # Searching in character lists -/

namespace Agents.Text

/-- Splits at the leftmost occurrence of a pattern: what stands before it and what stands after. -/
def splitAtFirst (pattern : List Char) : List Char → Option (List Char × List Char)
  | [] => if pattern = [] then some ([], []) else none
  | c :: rest =>
    if pattern.isPrefixOf (c :: rest) then some ([], (c :: rest).drop pattern.length)
    else (splitAtFirst pattern rest).map fun (before, after) => (c :: before, after)

def occursIn (pattern s : List Char) : Bool := (splitAtFirst pattern s).isSome

theorem append_of_splitAtFirst {pattern s before after : List Char}
    (h : splitAtFirst pattern s = some (before, after)) : s = before ++ pattern ++ after := by
  induction s generalizing before after with
  | nil =>
    simp only [splitAtFirst] at h
    split at h
    · next hp => simp only [Option.some.injEq, Prod.mk.injEq] at h; simp [← h.1, ← h.2, hp]
    · simp at h
  | cons c rest ih =>
    simp only [splitAtFirst] at h
    split at h
    · next hp =>
      obtain ⟨tail, ht⟩ := List.isPrefixOf_iff_prefix.1 hp
      simp only [Option.some.injEq, Prod.mk.injEq] at h
      rw [← h.1, ← h.2, ← ht]
      simp
    · simp only [Option.map_eq_some_iff, Prod.exists, Prod.mk.injEq] at h
      obtain ⟨b, a, hs, rfl, rfl⟩ := h
      simp [ih hs]

/-- Cuts a list after each separator; the pieces keep it. -/
def splitAfter (separator : Char) : List Char → List (List Char)
  | [] => []
  | c :: rest =>
    if c = separator then [c] :: splitAfter separator rest
    else match splitAfter separator rest with
      | [] => [[c]]
      | piece :: pieces => (c :: piece) :: pieces

/-- A piece that `splitAfter` cut off, without its line end. -/
private def dropLineEnd (piece : List Char) : List Char :=
  match piece.reverse with
  | '\n' :: '\r' :: rest => rest.reverse
  | '\n' :: rest => rest.reverse
  | _ => piece

/-- The lines of a text, which end in a line feed or a carriage return and a line feed. -/
def lines (s : String) : List String :=
  (splitAfter '\n' s.toList).map fun piece => String.ofList (dropLineEnd piece)

/-! ## All occurrences -/

/-- The pieces between the occurrences of a pattern that is not empty, from the left; `piece` is
what was read since the last one, reversed, and `skip` counts the characters of an occurrence that
are still to be left out. -/
private def splitFrom (pattern : List Char) (piece : List Char) : (skip : Nat) → List Char →
    List (List Char)
  | _, [] => [piece.reverse]
  | skip + 1, _ :: rest => splitFrom pattern piece skip rest
  | 0, c :: rest =>
    if pattern.isPrefixOf (c :: rest) then
      piece.reverse :: splitFrom pattern [] (pattern.length - 1) rest
    else splitFrom pattern (c :: piece) 0 rest

/-- The pieces between the occurrences of a pattern; the empty one occurs around every character. -/
def splitAll (pattern s : List Char) : List (List Char) :=
  if pattern = [] then [] :: s.map ([·]) ++ [[]] else splitFrom pattern [] 0 s

def replaceAll (pattern replacement s : List Char) : List Char :=
  (splitAll pattern s).intersperse replacement |>.flatten

def indexOf? (pattern s : List Char) : Option Nat :=
  (splitAtFirst pattern s).map fun (before, _) => before.length

end Agents.Text
