import Agents.Definition.Basic

/-! # Schemas of an agent's output

Three schemas follow from the declared outputs: the full one, which a finished output must meet,
the partial one, which also accepts an object that is still being produced, and the structured
one, which leaves out the outputs that are streamed as text.
-/

namespace Agents

/-- A JSON Schema and the rules beyond it. -/
structure OutputSchema where
  schemaId : String
  jsonSchema : Json
  rules : List Rule
deriving Inhabited

def ValueType.schema : ValueType → Json.Fields
  | .string => [("type", .str "string")]
  | .number => [("type", .str "number")]
  | .integer => [("type", .str "integer")]
  | .boolean => [("type", .str "boolean")]
  | .object => [("type", .str "object")]
  | .array => [("type", .str "array")]
  | .image => [("type", .arr [.str "string", .str "object"])]
  | .any => []

namespace OutputSchema

def property (o : OutputDecl) : Json :=
  .obj (match o.description with
    | some text => Json.Fields.insert "description" (.str text) o.type.schema
    | none => o.type.schema)

/-- The schema of an object with these outputs; `demanding` those that are not optional. -/
def object (outputs : List OutputDecl) (demanding : Bool) : Json :=
  let properties := Json.ofMembers (outputs.map fun o => (o.name, property o))
  let required :=
    if demanding then (outputs.filter (!·.isOptional)).map fun o => Json.str o.name else []
  let base := [("properties", properties), ("type", .str "object")]
  .obj (if required.isEmpty then base else Json.Fields.insert "required" (.arr required) base)

/-- What a finished output must meet. -/
def full (d : Definition) : OutputSchema := ⟨d.id, object d.outputs true, d.outputRules⟩

/-- What an output still being produced must meet. -/
def partialOf (d : Definition) : OutputSchema := ⟨d.id ++ "#partial", object d.outputs false, []⟩

/-- What a model's structured answer must meet. -/
def structured (d : Definition) : OutputSchema :=
  ⟨d.id ++ "#structured", object (d.outputs.filter (!·.streamingText)) true, []⟩

def toJson (s : OutputSchema) : Json :=
  .obj [("schema_id", .str s.schemaId), ("json_schema", s.jsonSchema),
    ("rules", .arr (s.rules.map Rule.toJson))]

def ofJson? : Json.Decoder OutputSchema := fun json => do
  let fields ← Json.record ["schema_id", "json_schema", "rules"] json
  return {
    schemaId := ← Json.Fields.required "schema_id" .string fields
    jsonSchema := ← Json.Fields.required "json_schema" .any fields
    rules := ← Json.Fields.required "rules" (.list Rule.ofJson?) fields }

end OutputSchema

end Agents
