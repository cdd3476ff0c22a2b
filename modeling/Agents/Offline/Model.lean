import Agents.Json.Pointer
import Agents.Json.Printer
import Agents.Model.Stream
import Agents.Text.Blank
import Agents.Text.Case
import Agents.Text.Search

/-! # Models without a network

A model that answers from a list of replies, or repeats what it was asked, and an image model that
makes up addresses. Asked for an object, the model fills its schema with placeholders; offered a
choice of cases, it takes the first one.
-/

namespace Agents

/-- What an offline model answers with, and how many of the replies it has given. -/
structure OfflineModel where
  replies : List String := []
  given : Nat := 0
deriving DecidableEq, Repr, Inhabited

namespace OfflineModel

/-- The next reply; after the last one comes the first. -/
def nextReply? (m : OfflineModel) : Option String := m.replies[m.given % m.replies.length]?

/-! ## Placeholders -/

mutual

def placeholder : Json → Json
  | .obj fields =>
    match (Json.Fields.get? "type" fields).bind Json.str? with
    | some "string" => .str "demo"
    | some "number" | some "integer" => .ofNat 0
    | some "boolean" => .bool false
    | some "array" => .arr []
    | some "object" => .obj (propertyPlaceholders fields)
    | _ => .null
  | _ => .null

def propertyPlaceholders : List (String × Json) → Json.Fields
  | [] => []
  | (key, .obj properties) :: rest =>
    if key = "properties" then placeholders properties else propertyPlaceholders rest
  | _ :: rest => propertyPlaceholders rest

def placeholders : List (String × Json) → Json.Fields
  | [] => []
  | (name, schema) :: rest => (name, placeholder schema) :: placeholders rest

end

/-! ## Answers -/

def pieces (text : String) : List ModelDelta :=
  (Text.splitAfter ' ' text.toList).map fun piece => .text (String.ofList piece)

/-- What the user said last. -/
def lastUserText (messages : List ChatMessage) : String :=
  ((messages.reverse.find? (·.role = .user)).map (·.content.plain)).getD ""

def selectFirst (tool : ToolSpec) : ModelDelta :=
  let first := (Json.pointer? "/properties/case/enum/0" tool.parameters).getD .null
  { toolCalls := [⟨tool.name, .obj [("case", first)]⟩] }

/-- Tokens are counted as words. -/
def usage (messages : List ChatMessage) (completion : String) : Usage :=
  let count (s : String) : Nat := (Text.words s).length
  let prompt := messages.foldl (fun n message => n + count message.content.plain) 0
  ⟨prompt, count completion, prompt + count completion⟩

def deltas (m : OfflineModel) (messages : List ChatMessage) (settings : ModelSettings) :
    List ModelDelta × OfflineModel :=
  match settings.responseSchema with
  | some schema => ([.text (placeholder schema).compact], m)
  | none =>
    match m.nextReply? with
    | some reply => (pieces reply, { m with given := m.given + 1 })
    | none =>
      match settings.tools.find? (·.name = "select_case") with
      | some tool => ([selectFirst tool], m)
      | none => (pieces ("You asked: " ++ lastUserText messages), m)

def call (messages : List ChatMessage) (settings : ModelSettings) (m : OfflineModel) :
    Stream ModelDelta × OfflineModel :=
  let (ds, m) := m.deltas messages settings
  let completion := String.join (ds.filterMap (·.content))
  let last : ModelDelta := { usage := some (usage messages completion) }
  ((ds ++ [last]).map .ok, m)

end OfflineModel

/-! ## Images -/

namespace OfflineImages

/-- What an address keeps of a prompt. -/
def slug (prompt : String) : String :=
  let kept := (prompt.toList.filter fun c => c.isAlphanum || c = ' ').take 32
  let dashed := (Text.trimChars kept).map fun c => if c = ' ' then '-' else c
  String.ofList (dashed.map Char.toLower)

def generate (prompt : String) (count : Nat) : List String :=
  (List.range count).map fun n =>
    "https://images.example/" ++ slug prompt ++ "-" ++ toString (n + 1) ++ ".png"

end OfflineImages

end Agents
