import Agents.Json.Decode

/-! # Output rules

A rule constrains an output beyond its type: a field must be there, must hold one of some values,
must not contain a text, or must satisfy a registered check.
-/

namespace Agents

inductive RuleCheck where
  | requiredField (path : String)
  | allowedValues (path : String) (allowed : List Json)
  | forbiddenPattern (path pattern : String)
  | custom (function : String)
deriving Inhabited

namespace RuleCheck

def toJson : RuleCheck → Json
  | .requiredField path => .obj [("type", .str "requiredField"), ("fieldPath", .str path)]
  | .allowedValues path allowed =>
    .obj [("type", .str "allowedValues"), ("fieldPath", .str path), ("allowed", .arr allowed)]
  | .forbiddenPattern path pattern =>
    .obj [("type", .str "forbiddenPattern"), ("fieldPath", .str path), ("pattern", .str pattern)]
  | .custom function => .obj [("type", .str "custom"), ("functionName", .str function)]

def ofJson? : Json.Decoder RuleCheck := fun json => do
  let fields ← json.obj?
  let path := Json.Fields.required "fieldPath" .string fields
  match ← Json.Fields.required "type" .string fields with
  | "requiredField" => return .requiredField (← path)
  | "allowedValues" =>
    return .allowedValues (← path) (← Json.Fields.required "allowed" (.list .any) fields)
  | "forbiddenPattern" =>
    return .forbiddenPattern (← path) (← Json.Fields.required "pattern" .string fields)
  | "custom" => return .custom (← Json.Fields.required "functionName" .string fields)
  | _ => none

end RuleCheck

structure Rule where
  ruleId : String
  description : String := ""
  check : RuleCheck
deriving Inhabited

namespace Rule

def toJson (r : Rule) : Json :=
  .obj [("ruleId", .str r.ruleId), ("description", .str r.description),
    ("ruleType", r.check.toJson)]

def ofJson? : Json.Decoder Rule := fun json => do
  let fields ← Json.record ["ruleId", "description", "ruleType"] json
  return {
    ruleId := ← Json.Fields.required "ruleId" .string fields
    description := ← Json.Fields.defaulted "description" .string "" fields
    check := ← Json.Fields.required "ruleType" RuleCheck.ofJson? fields }

end Rule

end Agents
