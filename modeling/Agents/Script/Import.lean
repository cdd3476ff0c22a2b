import Agents.Error
import Agents.Text.Blank
import Agents.Text.Search
import Agents.Text.Word

/-! # Imports of scripts

Which modules a script imports is read off its text before it runs: every occurrence of the word
`import` counts, also one in a string or a comment. What follows it is the module's name, when it is
a string in double quotes; any other import has no name that could be allowed.
-/

namespace Agents.Script

/-- What stands for the name of a module that is not written as a string. -/
def dynamicModule : String := "<dynamic>"

namespace Import

open Text (isBlank isWord)

def keyword : List Char := "import".toList

/-- The text in double quotes that a text begins with, and the rest. -/
def quoted? : List Char → Option (List Char × List Char)
  | '"' :: rest =>
    match rest.dropWhile (· ≠ '"') with
    | _ :: after => some (rest.takeWhile (· ≠ '"'), after)
    | [] => none
  | _ => none

/-- The rest of a text that begins with the keyword, unless the keyword is part of a longer word. -/
def afterKeyword? (before : Option Char) (text : List Char) : Option (List Char) :=
  if before.any isWord || !keyword.isPrefixOf text then none
  else if (text.drop keyword.length).head?.any isWord then none
  else some (text.drop keyword.length)

theorem length_dropWhile_le (p : Char → Bool) (s : List Char) : (s.dropWhile p).length ≤ s.length :=
  (List.dropWhile_sublist p).length_le

theorem length_of_quoted? {s name after : List Char} (h : quoted? s = some (name, after)) :
    after.length < s.length := by
  unfold quoted? at h
  split at h
  · next rest =>
    split at h
    · next c tail hd =>
      have hl := length_dropWhile_le (· ≠ '"') rest
      rw [hd] at hl
      simp only [Option.some.injEq, Prod.mk.injEq] at h
      simp only [List.length_cons, h.2] at hl ⊢
      omega
    · simp at h
  · simp at h

theorem length_of_afterKeyword? {before : Option Char} {text rest : List Char}
    (h : afterKeyword? before text = some rest) : rest.length < text.length := by
  unfold afterKeyword? at h
  split at h
  · simp at h
  · next hp =>
    split at h
    · simp at h
    · simp only [Bool.or_eq_true, Bool.not_eq_true', not_or, Bool.not_eq_false] at hp
      have hl := (List.isPrefixOf_iff_prefix.1 hp.2).length_le
      have hk : keyword.length = 6 := rfl
      rw [← Option.some.inj h, List.length_drop]
      omega

/-- The modules imported from a place on, which a character may stand before. -/
def modulesFrom (before : Option Char) (text : List Char) : List String :=
  match _ : afterKeyword? before text with
  | some rest =>
    match _ : quoted? (rest.dropWhile isBlank) with
    | some (name, after) => String.ofList name :: modulesFrom (some '"') after
    | none => dynamicModule :: modulesFrom keyword.getLast? rest
  | none =>
    match text with
    | [] => []
    | c :: rest => modulesFrom (some c) rest
termination_by text.length
decreasing_by
  · have h₁ := length_of_afterKeyword? ‹_›
    have h₂ := length_of_quoted? ‹_›
    have h₃ := length_dropWhile_le isBlank rest
    omega
  · exact length_of_afterKeyword? ‹_›
  · simp

end Import

/-- The modules that a script imports, in the order of its text. -/
def importedModules (code : String) : List String := Import.modulesFrom none code.toList

/-- Refuses the first import of a module that is not allowed. -/
def checkImports (code : String) (allowed : List String) : Except Error Unit :=
  match (importedModules code).find? fun m => !allowed.contains m with
  | some module => .error (.unsupportedModule module)
  | none => .ok ()

end Agents.Script
