import Agents.Json.Basic
import Agents.Word

/-! # JSON pointers

A pointer names a place inside a value: a sequence of tokens, each written after a slash. Inside a
token `~` is written `~0` and `/` is written `~1`, so that a slash always begins a token.

Reading a written token gives it back (`unescape_escape`).
-/

namespace Agents.Json

namespace Pointer

/-! ## Tokens -/

def escape : List Char → List Char
  | [] => []
  | c :: rest =>
    if c = '~' then '~' :: '0' :: escape rest
    else if c = '/' then '~' :: '1' :: escape rest
    else c :: escape rest

/-- A tilde that is followed by neither `0` nor `1` stands for itself. -/
def unescape : List Char → List Char
  | '~' :: '0' :: rest => '~' :: unescape rest
  | '~' :: '1' :: rest => '/' :: unescape rest
  | c :: rest => c :: unescape rest
  | [] => []

theorem unescape_escape (token : List Char) : unescape (escape token) = token := by
  induction token with
  | nil => rfl
  | cons c rest ih =>
    unfold escape
    split
    · next h => simp [unescape, ih, h]
    · split
      · next h => simp [unescape, ih, h]
      · next h _ =>
        rw [unescape]
        · rw [ih]
        · rintro _ rfl; simp at h
        · rintro _ rfl; simp at h

def escapeToken (token : String) : String := String.ofList (escape token.toList)

def ofTokens (tokens : List String) : String :=
  String.join (tokens.map fun token => "/" ++ escapeToken token)

/-! ## Following a pointer -/

def splitSlashes : List Char → List (List Char)
  | [] => [[]]
  | c :: rest =>
    if c = '/' then [] :: splitSlashes rest
    else match splitSlashes rest with
      | piece :: pieces => (c :: piece) :: pieces
      | [] => [[c]]

def tokens? (pointer : String) : Option (List String) :=
  match pointer.toList with
  | [] => some []
  | '/' :: rest => some ((splitSlashes rest).map fun piece => String.ofList (unescape piece))
  | _ => none

/-- The index that a token spells: decimal digits without leading zeros. -/
def index? (token : String) : Option Nat :=
  let cs := token.toList
  if cs ≠ [] ∧ cs.all Char.isDigit ∧ (cs.head? ≠ some '0' ∨ cs.length = 1) then
    let n := cs.foldl (fun n c => 10 * n + (c.toNat - '0'.toNat)) 0
    if n < Word.size 64 then some n else none
  else none

def step? (value : Json) (token : String) : Option Json :=
  match value with
  | .obj fields => Fields.get? token fields
  | .arr items => (index? token).bind fun i => items[i]?
  | _ => none

/-- The value with another one at the place that the tokens lead to; nothing if there is no such
place. -/
def replace? (new : Json) : List String → Json → Option Json
  | [], _ => some new
  | token :: rest, .obj fields => do
    let found ← Fields.get? token fields
    return .obj (Fields.insert token (← replace? new rest found) fields)
  | token :: rest, .arr items => do
    let i ← index? token
    let found ← items[i]?
    return .arr (items.set i (← replace? new rest found))
  | _ :: _, _ => none

end Pointer

def pointer? (pointer : String) (value : Json) : Option Json :=
  (Pointer.tokens? pointer).bind fun tokens => tokens.foldlM Pointer.step? value

def replaceAt? (pointer : String) (new value : Json) : Option Json :=
  (Pointer.tokens? pointer).bind fun tokens => Pointer.replace? new tokens value

end Agents.Json
