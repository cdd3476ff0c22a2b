import Agents.Json.Decode
import Agents.Word

/-! # Messages to and from a model

The chat messages a model is asked with, the settings of the call, and the deltas it answers with.
Each type has its JSON form beside it.
-/

namespace Agents

/-! ## Chat messages -/

inductive Role where
  | system
  | user
  | assistant
deriving DecidableEq, Repr, Inhabited

def Role.name : Role → String
  | .system => "system"
  | .user => "user"
  | .assistant => "assistant"

def Role.ofJson? : Json.Decoder Role :=
  .enum [("system", .system), ("user", .user), ("assistant", .assistant)]

inductive ContentPart where
  | text (text : String)
  | image (url : String)
deriving DecidableEq, Repr, Inhabited

namespace ContentPart

def toJson : ContentPart → Json
  | .text s => .obj [("type", .str "text"), ("text", .str s)]
  | .image url => .obj [("type", .str "image_url"), ("url", .str url)]

def ofJson? : Json.Decoder ContentPart := fun json => do
  let fields ← json.obj?
  match ← Json.Fields.required "type" .string fields with
  | "text" => .text <$> Json.Fields.required "text" .string fields
  | "image_url" => .image <$> Json.Fields.required "url" .string fields
  | _ => none

def text? : ContentPart → Option String
  | .text s => some s
  | .image _ => none

end ContentPart

/-- What a message says: plain text, or a list of parts. -/
inductive MessageContent where
  | text (text : String)
  | parts (parts : List ContentPart)
deriving DecidableEq, Repr, Inhabited

namespace MessageContent

def toJson : MessageContent → Json
  | .text s => .str s
  | .parts ps => .arr (ps.map ContentPart.toJson)

def ofJson? : Json.Decoder MessageContent
  | .str s => some (.text s)
  | json => .parts <$> Json.Decoder.list ContentPart.ofJson? json

/-- The text alone, without the images. -/
def plain : MessageContent → String
  | .text s => s
  | .parts ps => String.join (ps.filterMap ContentPart.text?)

end MessageContent

structure ChatMessage where
  role : Role
  content : MessageContent
deriving DecidableEq, Repr, Inhabited

namespace ChatMessage

def system (text : String) : ChatMessage := ⟨.system, .text text⟩

def user (text : String) : ChatMessage := ⟨.user, .text text⟩

def toJson (m : ChatMessage) : Json :=
  .obj [("role", .str m.role.name), ("content", m.content.toJson)]

def ofJson? : Json.Decoder ChatMessage := fun json => do
  let fields ← Json.record ["role", "content"] json
  return ⟨← Json.Fields.required "role" Role.ofJson? fields,
    ← Json.Fields.required "content" MessageContent.ofJson? fields⟩

end ChatMessage

/-! ## Token counts -/

/-- Counts have 64 bits. -/
structure Usage where
  promptTokens : Nat
  completionTokens : Nat
  totalTokens : Nat
deriving DecidableEq, Repr, Inhabited

namespace Usage

/-- The sum of two counts; one that is too large wraps around. -/
def addCount (a b : Nat) : Nat := (a + b) % Word.size 64

def add (a b : Usage) : Usage :=
  ⟨addCount a.promptTokens b.promptTokens, addCount a.completionTokens b.completionTokens,
    addCount a.totalTokens b.totalTokens⟩

instance : Add Usage := ⟨add⟩

def toJson (u : Usage) : Json :=
  .obj [("promptTokens", .ofNat u.promptTokens), ("completionTokens", .ofNat u.completionTokens),
    ("totalTokens", .ofNat u.totalTokens)]

def ofJson? : Json.Decoder Usage := fun json => do
  let fields ← Json.record ["promptTokens", "completionTokens", "totalTokens"] json
  return ⟨← Json.Fields.required "promptTokens" (.word 64) fields,
    ← Json.Fields.required "completionTokens" (.word 64) fields,
    ← Json.Fields.required "totalTokens" (.word 64) fields⟩

end Usage

/-! ## Calls -/

structure ToolSpec where
  name : String
  description : String
  parameters : Json
deriving Inhabited

namespace ToolSpec

def toJson (t : ToolSpec) : Json :=
  .obj [("name", .str t.name), ("description", .str t.description), ("parameters", t.parameters)]

def ofJson? : Json.Decoder ToolSpec := fun json => do
  let fields ← Json.record ["name", "description", "parameters"] json
  return {
    name := ← Json.Fields.required "name" .string fields
    description := ← Json.Fields.required "description" .string fields
    parameters := ← Json.Fields.required "parameters" .any fields }

end ToolSpec

/-- Which model is asked, and how. The temperature is kept in single precision. -/
structure ModelSettings where
  model : String := ""
  temperature : Option Float := none
  maxTokens : Option Nat := none
  responseSchema : Option Json := none
  tools : List ToolSpec := []
deriving Inhabited

namespace ModelSettings

def toJson (s : ModelSettings) : Json :=
  .obj (("model", .str s.model)
    :: (Json.member? "temperature" Json.ofFloat s.temperature
      ++ Json.member? "maxTokens" Json.ofNat s.maxTokens
      ++ Json.member? "responseSchema" id s.responseSchema
      ++ Json.memberList? "tools" ToolSpec.toJson s.tools))

def single : Json.Decoder Float := fun json =>
  (Json.Decoder.float json).map fun x => x.toFloat32.toFloat

def ofJson? : Json.Decoder ModelSettings := fun json => do
  let fields ← Json.record ["model", "temperature", "maxTokens", "responseSchema", "tools"] json
  return {
    model := ← Json.Fields.required "model" .string fields
    temperature := ← Json.Fields.optional "temperature" single fields
    maxTokens := ← Json.Fields.optional "maxTokens" (.word 32) fields
    responseSchema := ← Json.Fields.optional "responseSchema" .any fields
    tools := ← Json.Fields.defaulted "tools" (.list ToolSpec.ofJson?) [] fields }

end ModelSettings

structure ToolCall where
  name : String
  arguments : Json
deriving Inhabited

namespace ToolCall

def toJson (c : ToolCall) : Json := .obj [("name", .str c.name), ("arguments", c.arguments)]

def ofJson? : Json.Decoder ToolCall := fun json => do
  let fields ← Json.record ["name", "arguments"] json
  return {
    name := ← Json.Fields.required "name" .string fields
    arguments := ← Json.Fields.required "arguments" .any fields }

end ToolCall

structure ModelDelta where
  content : Option String := none
  toolCalls : List ToolCall := []
  usage : Option Usage := none
deriving Inhabited

namespace ModelDelta

def text (content : String) : ModelDelta := { content := some content }

def ofJson? : Json.Decoder ModelDelta := fun json => do
  let fields ← Json.record ["content", "toolCalls", "usage"] json
  return {
    content := ← Json.Fields.optional "content" .string fields
    toolCalls := ← Json.Fields.defaulted "toolCalls" (.list ToolCall.ofJson?) [] fields
    usage := ← Json.Fields.optional "usage" Usage.ofJson? fields }

end ModelDelta

end Agents
