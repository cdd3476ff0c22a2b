import Agents.Definition.Basic

/-! # The JSON form of definitions

Every type of a definition is read from and written to JSON. Reading takes the defaults that
authors leave out; writing puts them in, except for absent options and empty rule lists.
-/

namespace Agents

def ValueType.name : ValueType → String
  | .string => "string"
  | .number => "number"
  | .integer => "integer"
  | .boolean => "boolean"
  | .object => "object"
  | .array => "array"
  | .image => "image"
  | .any => "any"

def ValueType.ofJson? : Json.Decoder ValueType :=
  .enum ([.string, .number, .integer, .boolean, .object, .array, .image, .any].map
    fun t => (ValueType.name t, t))

namespace InputDecl

def toJson (d : InputDecl) : Json :=
  .obj ([("name", .str d.name), ("type", .str d.type.name), ("optional", .bool d.isOptional)]
    ++ Json.member? "default" id d.default
    ++ [("secret", .bool d.secret)]
    ++ Json.member? "description" Json.str d.description)

def ofJson? : Json.Decoder InputDecl := fun json => do
  let fields ← Json.record ["name", "type", "optional", "default", "secret", "description"] json
  return {
    name := ← Json.Fields.required "name" .string fields
    type := ← Json.Fields.defaulted "type" ValueType.ofJson? .any fields
    isOptional := ← Json.Fields.defaulted "optional" .bool false fields
    default := ← Json.Fields.optional "default" .any fields
    secret := ← Json.Fields.defaulted "secret" .bool false fields
    description := ← Json.Fields.optional "description" .string fields }

end InputDecl

namespace OutputDecl

def toJson (d : OutputDecl) : Json :=
  .obj ([("name", .str d.name), ("type", .str d.type.name), ("optional", .bool d.isOptional),
      ("streamingText", .bool d.streamingText)]
    ++ Json.member? "description" Json.str d.description)

def ofJson? : Json.Decoder OutputDecl := fun json => do
  let fields ← Json.record ["name", "type", "optional", "streamingText", "description"] json
  return {
    name := ← Json.Fields.required "name" .string fields
    type := ← Json.Fields.defaulted "type" ValueType.ofJson? .any fields
    isOptional := ← Json.Fields.defaulted "optional" .bool false fields
    streamingText := ← Json.Fields.defaulted "streamingText" .bool false fields
    description := ← Json.Fields.optional "description" .string fields }

end OutputDecl

def RespondAs.toJson : RespondAs → Json
  | .message => .str "message"
  | .none => .str "none"

def RespondAs.ofJson? : Json.Decoder RespondAs :=
  .enum [("message", .message), ("none", .none)]

namespace PromptTemplate

def toJson (m : PromptTemplate) : Json :=
  .obj [("role", .str m.role.name), ("content", .str m.content)]

def ofJson? : Json.Decoder PromptTemplate := fun json => do
  let fields ← Json.record ["role", "content"] json
  return ⟨← Json.Fields.required "role" Role.ofJson? fields,
    ← Json.Fields.required "content" .string fields⟩

end PromptTemplate

namespace ModelPromptSpec

def toJson (s : ModelPromptSpec) : Json :=
  .obj ([("messages", .arr (s.messages.map PromptTemplate.toJson)), ("model", s.model.toJson)]
    ++ Json.member? "maxRetries" Json.ofNat s.maxRetries)

def ofJson? : Json.Decoder ModelPromptSpec := fun json => do
  let fields ← Json.record ["messages", "model", "maxRetries"] json
  return {
    messages := ← Json.Fields.required "messages" (.list PromptTemplate.ofJson?) fields
    model := ← Json.Fields.defaulted "model" ModelSettings.ofJson? {} fields
    maxRetries := ← Json.Fields.optional "maxRetries" (.word 32) fields }

end ModelPromptSpec

namespace ScriptSpec

def toJson (s : ScriptSpec) : Json :=
  .obj (("source", .str s.source) :: Json.member? "maxRetries" Json.ofNat s.maxRetries)

def ofJson? : Json.Decoder ScriptSpec := fun json => do
  let fields ← Json.record ["source", "maxRetries"] json
  return ⟨← Json.Fields.required "source" .string fields,
    ← Json.Fields.optional "maxRetries" (.word 32) fields⟩

end ScriptSpec

namespace PipelineStep

def toJson (s : PipelineStep) : Json :=
  .obj [("name", .str s.name), ("agent", .str s.agent), ("inputs", s.inputs.toJson),
    ("concurrent", .bool s.concurrent)]

def ofJson? : Json.Decoder PipelineStep := fun json => do
  let fields ← Json.record ["name", "agent", "inputs", "concurrent"] json
  return {
    name := ← Json.Fields.required "name" .string fields
    agent := ← Json.Fields.required "agent" .string fields
    inputs := ← Json.Fields.defaulted "inputs" Bindings.ofJson? [] fields
    concurrent := ← Json.Fields.defaulted "concurrent" .bool false fields }

end PipelineStep

namespace PipelineSpec

def toJson (s : PipelineSpec) : Json :=
  .obj [("steps", .arr (s.steps.map PipelineStep.toJson)), ("outputs", s.outputs.toJson)]

def ofJson? : Json.Decoder PipelineSpec := fun json => do
  let fields ← Json.record ["steps", "outputs"] json
  return {
    steps := ← Json.Fields.required "steps" (.list PipelineStep.ofJson?) fields
    outputs := ← Json.Fields.defaulted "outputs" Bindings.ofJson? [] fields }

end PipelineSpec

namespace DecisionCase

def toJson (c : DecisionCase) : Json :=
  .obj ([("name", .str c.name), ("description", .str c.description)]
    ++ Json.member? "agent" Json.str c.agent
    ++ [("inputs", c.inputs.toJson), ("stop", .bool c.stop)])

def ofJson? : Json.Decoder DecisionCase := fun json => do
  let fields ← Json.record ["name", "description", "agent", "inputs", "stop"] json
  return {
    name := ← Json.Fields.required "name" .string fields
    description := ← Json.Fields.defaulted "description" .string "" fields
    agent := ← Json.Fields.optional "agent" .string fields
    inputs := ← Json.Fields.defaulted "inputs" Bindings.ofJson? [] fields
    stop := ← Json.Fields.defaulted "stop" .bool false fields }

end DecisionCase

namespace DecisionSpec

def toJson (s : DecisionSpec) : Json :=
  .obj ([("instruction", .str s.instruction), ("cases", .arr (s.cases.map DecisionCase.toJson)),
      ("model", s.model.toJson)]
    ++ Json.member? "maxRetries" Json.ofNat s.maxRetries)

def ofJson? : Json.Decoder DecisionSpec := fun json => do
  let fields ← Json.record ["instruction", "cases", "model", "maxRetries"] json
  return {
    instruction := ← Json.Fields.defaulted "instruction" .string "" fields
    cases := ← Json.Fields.required "cases" (.list DecisionCase.ofJson?) fields
    model := ← Json.Fields.defaulted "model" ModelSettings.ofJson? {} fields
    maxRetries := ← Json.Fields.optional "maxRetries" (.word 32) fields }

end DecisionSpec

def ParameterLocation.name : ParameterLocation → String
  | .path => "path"
  | .query => "query"
  | .header => "header"
  | .cookie => "cookie"
  | .body => "body"

def ParameterLocation.ofJson? : Json.Decoder ParameterLocation :=
  .enum ([.path, .query, .header, .cookie, .body].map fun l => (ParameterLocation.name l, l))

namespace HttpParameter

def toJson (p : HttpParameter) : Json :=
  .obj [("name", .str p.name), ("in", .str p.location.name), ("value", p.value.toJson)]

def ofJson? : Json.Decoder HttpParameter := fun json => do
  let fields ← Json.record ["name", "in", "value"] json
  return {
    name := ← Json.Fields.required "name" .string fields
    location := ← Json.Fields.required "in" ParameterLocation.ofJson? fields
    value := ← Json.Fields.required "value" Binding.ofJson? fields }

end HttpParameter

namespace Endpoint

def toJson (e : Endpoint) : Json :=
  .obj [("method", .str e.method), ("baseUrl", .str e.baseUrl), ("path", .str e.path),
    ("headers", Json.ofMap Json.str e.headers)]

def ofJson? : Json.Decoder Endpoint := fun json => do
  let fields ← Json.record ["method", "baseUrl", "path", "headers"] json
  return {
    method := ← Json.Fields.required "method" .string fields
    baseUrl := ← Json.Fields.required "baseUrl" .string fields
    path := ← Json.Fields.required "path" .string fields
    headers := ← Json.Fields.defaulted "headers" (.map .string) [] fields }

end Endpoint

namespace EndpointRef

def toJson : EndpointRef → Json
  | .inline endpoint => .obj [("inline", endpoint.toJson)]
  | .named name => .obj [("named", .str name)]

def ofJson? : Json.Decoder EndpointRef
  | .obj [("inline", endpoint)] => .inline <$> Endpoint.ofJson? endpoint
  | .obj [("named", .str name)] => some (.named name)
  | _ => none

end EndpointRef

namespace HttpApiSpec

def toJson (s : HttpApiSpec) : Json :=
  .obj ([("endpoint", s.endpoint.toJson),
      ("parameters", .arr (s.parameters.map HttpParameter.toJson)),
      ("response", Json.ofMap Json.str s.response)]
    ++ Json.member? "maxRetries" Json.ofNat s.maxRetries)

def ofJson? : Json.Decoder HttpApiSpec := fun json => do
  let fields ← Json.record ["endpoint", "parameters", "response", "maxRetries"] json
  return {
    endpoint := ← Json.Fields.required "endpoint" EndpointRef.ofJson? fields
    parameters := ← Json.Fields.defaulted "parameters" (.list HttpParameter.ofJson?) [] fields
    response := ← Json.Fields.defaulted "response" (.map .string) [] fields
    maxRetries := ← Json.Fields.optional "maxRetries" (.word 32) fields }

end HttpApiSpec

namespace ImageGenerationSpec

def toJson (s : ImageGenerationSpec) : Json :=
  .obj [("prompt", .str s.prompt), ("model", s.model.toJson), ("count", .ofNat s.count)]

def ofJson? : Json.Decoder ImageGenerationSpec := fun json => do
  let fields ← Json.record ["prompt", "model", "count"] json
  return {
    prompt := ← Json.Fields.required "prompt" .string fields
    model := ← Json.Fields.defaulted "model" ModelSettings.ofJson? {} fields
    count := ← Json.Fields.defaulted "count" (.word 32) 1 fields }

end ImageGenerationSpec

namespace AgentKind

def name : AgentKind → String
  | .modelPrompt _ => "model-prompt"
  | .scriptedLogic _ => "scripted-logic"
  | .pipeline _ => "pipeline"
  | .decision _ => "decision"
  | .httpApi _ => "http-api"
  | .imageGeneration _ => "image-generation"

def specJson : AgentKind → Json
  | .modelPrompt spec => spec.toJson
  | .scriptedLogic spec => spec.toJson
  | .pipeline spec => spec.toJson
  | .decision spec => spec.toJson
  | .httpApi spec => spec.toJson
  | .imageGeneration spec => spec.toJson

def ofNameAndSpec? (name : String) (spec : Json) : Option AgentKind :=
  match name with
  | "model-prompt" => .modelPrompt <$> ModelPromptSpec.ofJson? spec
  | "scripted-logic" => .scriptedLogic <$> ScriptSpec.ofJson? spec
  | "pipeline" => .pipeline <$> PipelineSpec.ofJson? spec
  | "decision" => .decision <$> DecisionSpec.ofJson? spec
  | "http-api" => .httpApi <$> HttpApiSpec.ofJson? spec
  | "image-generation" => .imageGeneration <$> ImageGenerationSpec.ofJson? spec
  | _ => none

end AgentKind

namespace Definition

def toJson (d : Definition) : Json :=
  .obj ([("id", .str d.id), ("name", .str d.name), ("inputs", .arr (d.inputs.map InputDecl.toJson)),
      ("outputs", .arr (d.outputs.map OutputDecl.toJson))]
    ++ Json.member? "respondAs" RespondAs.toJson d.respondAs
    ++ Json.memberList? "outputRules" Rule.toJson d.outputRules
    ++ [("kind", .str d.kind.name), ("spec", d.kind.specJson)])

def ofJson? : Json.Decoder Definition := fun json => do
  let fields ← json.obj?
  let kind ← Json.Fields.required "kind" .string fields
  let spec ← Json.Fields.required "spec" .any fields
  return {
    id := ← Json.Fields.required "id" .string fields
    name := ← Json.Fields.required "name" .string fields
    inputs := ← Json.Fields.defaulted "inputs" (.list InputDecl.ofJson?) [] fields
    outputs := ← Json.Fields.defaulted "outputs" (.list OutputDecl.ofJson?) [] fields
    respondAs := ← Json.Fields.optional "respondAs" RespondAs.ofJson? fields
    outputRules := ← Json.Fields.defaulted "outputRules" (.list Rule.ofJson?) [] fields
    kind := ← AgentKind.ofNameAndSpec? kind spec }

end Definition

end Agents
