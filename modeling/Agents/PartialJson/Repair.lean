import Agents.Json.Parser
import Agents.Text.Blank

/-! # The value of an unfinished JSON document

A prefix of a document is repaired into the most complete value it implies. First its open string
and containers are closed; if that is no JSON, the text is cut back to the last place where an
element could have ended, and closed there.
-/

namespace Agents.PartialJson

/-- What a text leaves open. -/
structure Scan where
  inString : Bool := false
  escaped : Bool := false
  /-- The closing brackets that are missing, innermost first. -/
  closers : List Char := []
deriving DecidableEq, Repr

namespace Scan

def step (s : Scan) (c : Char) : Scan :=
  if s.inString then
    if s.escaped then { s with escaped := false }
    else if c = '\\' then { s with escaped := true }
    else if c = '"' then { s with inString := false }
    else s
  else if c = '"' then { s with inString := true }
  else if c = '\x7b' then { s with closers := '\x7d' :: s.closers }
  else if c = '[' then { s with closers := ']' :: s.closers }
  else if c = '\x7d' ∨ c = ']' then { s with closers := s.closers.tail }
  else s

def run (s : Scan) (text : List Char) : Scan := text.foldl step s

theorem run_append (s : Scan) (a b : List Char) : s.run (a ++ b) = (s.run a).run b :=
  List.foldl_append

end Scan

/-- The text with its string ended: a dangling backslash is dropped. -/
def closeString (s : Scan) (text : List Char) : List Char :=
  if s.inString then (if s.escaped then text.dropLast else text) ++ ['"'] else text

/-- The text without white space, and then without commas, at its end. -/
def dropTrailing (text : List Char) : List Char :=
  ((Text.trimEnd text).reverse.dropWhile (· = ',')).reverse

/-- Closes the open string and containers. -/
def close (text : List Char) : List Char :=
  let s := Scan.run {} text
  dropTrailing (closeString s text) ++ s.closers

/-- The prefixes that end where a cut is allowed, shortest first: just after an opening bracket or
just before a comma, outside of strings. -/
def cuts : Scan → (before : List Char) → List Char → List (List Char)
  | _, _, [] => []
  | s, before, c :: rest =>
    let here :=
      if s.inString then []
      else if c = '\x7b' ∨ c = '[' then [(c :: before).reverse]
      else if c = ',' then [before.reverse]
      else []
    here ++ cuts (s.step c) (c :: before) rest

def value? (text : List Char) : Option Json := (Json.document text).toOption

/-- The most complete value that a prefix implies. -/
def repair (text : String) : Option Json :=
  let s := text.toList
  value? s <|> value? (close s) <|> (cuts {} [] s).reverse.findSome? fun cut => value? (close cut)

/-! ## Emitting snapshots -/

structure SnapshotEmitter where
  last : Option Json := none
deriving Inhabited

/-- Gives out a value that is acceptable and differs from the last one. -/
def SnapshotEmitter.offer (accepts : Json → Bool) (e : SnapshotEmitter) (candidate : Json) :
    Option Json × SnapshotEmitter :=
  if e.last == some candidate then (none, e)
  else if accepts candidate then (some candidate, ⟨some candidate⟩)
  else (none, e)

end Agents.PartialJson
