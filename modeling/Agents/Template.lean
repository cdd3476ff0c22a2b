import Agents.Definition.Basic
import Agents.Json.Printer
import Agents.Text.Blank
import Agents.Text.Word
import Agents.Word

/-! # Prompt templates

A template holds placeholders `{{ name.path.0 }}`. A placeholder stands for an input, or, after
the head `memory`, for a memory variable; one without a value stands for nothing. An input that is
declared as an image becomes an image part of a user message and its address everywhere else.

A template is first split into pieces, and the pieces are then rendered: the text of a value is
never looked at again.
-/

namespace Agents

/-- Text of a value inside a prompt: a string as it is, nothing for `null`, else its JSON text. -/
def Json.valueText : Json → String
  | .str s => s
  | .null => ""
  | json => json.compact

namespace Template

/-! ## Pieces -/

inductive Piece where
  | literal (c : Char)
  /-- The dotted path between the braces. -/
  | placeholder (path : List (List Char))
deriving DecidableEq, Repr

def isHeadStart (c : Char) : Bool := c.isAlpha || c = '_' || c = '$'

def isPathChar (c : Char) : Bool := Text.isWord c || c = '$' || c = '-'

/-- The segments after the first one, and what follows them. The fuel bounds their number. -/
def pathTail : (fuel : Nat) → List Char → List (List Char) × List Char
  | fuel + 1, '.' :: rest =>
    let segment := rest.takeWhile isPathChar
    if segment = [] then ([], '.' :: rest)
    else
      let (segments, rest) := pathTail fuel (rest.dropWhile isPathChar)
      (segment :: segments, rest)
  | _, s => ([], s)

/-- The path of a placeholder that starts here, and how many characters the placeholder has. -/
def placeholder? (s : List Char) : Option (List (List Char) × Nat) :=
  match s with
  | '\x7b' :: '\x7b' :: rest =>
    match Text.trimStart rest with
    | c :: rest =>
      if isHeadStart c then
        let head := c :: rest.takeWhile isPathChar
        let (segments, rest) := pathTail rest.length (rest.dropWhile isPathChar)
        match Text.trimStart rest with
        | '\x7d' :: '\x7d' :: rest => some (head :: segments, s.length - rest.length)
        | _ => none
      else none
    | [] => none
  | _ => none

/-- The pieces of a template, from left to right; the first `skip` characters belong to a
placeholder that was already found. -/
def pieces : (skip : Nat) → List Char → List Piece
  | _, [] => []
  | skip + 1, _ :: rest => pieces skip rest
  | 0, c :: rest =>
    match placeholder? (c :: rest) with
    | some (path, length) => .placeholder path :: pieces (length - 1) rest
    | none => .literal c :: pieces 0 rest

def parse (template : String) : List Piece := pieces 0 template.toList

/-! ## Values -/

/-- What a template sees. -/
structure Scope where
  inputs : Json
  memory : Json.Fields
  declarations : List InputDecl

/-- The number that a path segment spells, if it is made of digits alone. -/
def indexOf? (segment : List Char) : Option Nat :=
  if segment ≠ [] ∧ segment.all Char.isDigit then
    let n := segment.foldl (fun n c => 10 * n + (c.toNat - '0'.toNat)) 0
    if n < Word.size 64 then some n else none
  else none

def step (value : Json) (segment : List Char) : Option Json :=
  match value with
  | .arr items => (indexOf? segment).bind (items[·]?)
  | .obj fields => Json.Fields.get? (String.ofList segment) fields
  | _ => none

/-- The memory is looked into when no input is called `memory`. -/
def memoryHead : String := "memory"

def Scope.lookup (scope : Scope) : List (List Char) → Option Json
  | [] => none
  | head :: rest =>
    if String.ofList head = memoryHead ∧ (scope.inputs.get? memoryHead).isNone then
      match rest with
      | [] => none
      | name :: rest =>
        (Json.Fields.get? (String.ofList name) scope.memory).bind fun root => rest.foldlM step root
    else (scope.inputs.get? (String.ofList head)).bind fun root => rest.foldlM step root

/-- Whether a placeholder names an input that is declared as an image. -/
def Scope.isImage (scope : Scope) : List (List Char) → Bool
  | [name] => scope.declarations.any fun d => d.name = String.ofList name && d.type = .image
  | _ => false

/-- The address of an image: a string, or the member `url` of an object. -/
def imageUrl? : Json → Option String
  | .str s => some s
  | .obj fields => (Json.Fields.get? "url" fields).bind Json.str?
  | _ => none

def Scope.image? (scope : Scope) (path : List (List Char)) : Option String :=
  if scope.isImage path then (scope.lookup path).bind imageUrl? else none

def Scope.text (scope : Scope) (path : List (List Char)) : String :=
  match scope.image? path with
  | some url => url
  | none => ((scope.lookup path).map Json.valueText).getD ""

/-! ## Rendering -/

/-- A rendered piece: characters, or the address of an image. -/
def Scope.renderPiece (scope : Scope) : Piece → List Char
  | .literal c => [c]
  | .placeholder path => (scope.text path).toList

def renderText (scope : Scope) (template : String) : String :=
  String.ofList ((parse template).flatMap scope.renderPiece)

/-- A text part, unless it would be empty. -/
def textPart (s : List Char) : List ContentPart :=
  if s.isEmpty then [] else [.text (String.ofList s)]

/-- What a user message holds so far. -/
structure Collected where
  parts : List ContentPart := []
  /-- The text after the last part. -/
  text : List Char := []
  hasImage : Bool := false

/-- Adds what a placeholder stands for: an image, or else the text that the placeholder by itself is
rendered to. -/
def Collected.add (scope : Scope) (c : Collected) (path : List (List Char)) (whole : List Char) :
    Collected :=
  match scope.image? path with
  | some url =>
    { parts := c.parts ++ textPart c.text ++ [.image url], text := [], hasImage := true }
  | none => { c with text := c.text ++ (renderText scope (String.ofList whole)).toList }

/-- Goes through a template; the first `skip` characters belong to a placeholder that was added
before. -/
def collect (scope : Scope) : (skip : Nat) → List Char → Collected → Collected
  | _, [], c => c
  | skip + 1, _ :: rest, c => collect scope skip rest c
  | 0, char :: rest, c =>
    match placeholder? (char :: rest) with
    | some (path, length) =>
      collect scope (length - 1) rest (c.add scope path ((char :: rest).take length))
    | none => collect scope 0 rest { c with text := c.text ++ [char] }

/-- The template as the content of a user message: parts if it holds an image, else plain text. -/
def renderParts (scope : Scope) (template : String) : MessageContent :=
  let c := collect scope 0 template.toList {}
  if c.hasImage then .parts (c.parts ++ textPart c.text) else .text (String.ofList c.text)

/-- Only user messages may hold images. -/
def renderMessage (scope : Scope) (t : PromptTemplate) : ChatMessage where
  role := t.role
  content := match t.role with
    | .user => renderParts scope t.content
    | .system | .assistant => .text (renderText scope t.content)

def renderMessages (scope : Scope) (templates : List PromptTemplate) : List ChatMessage :=
  templates.map (renderMessage scope)

end Template

end Agents
