import Agents.Definition.Codec
import Agents.Error
import Agents.Json.Parser

/-! # Projects

A project holds agents and the endpoints they share.
-/

namespace Agents

structure Project where
  id : String
  revision : Option String := none
  agents : List Definition := []
  /-- Shared endpoints by name, in order of the names. -/
  endpoints : List (String × Endpoint) := []
deriving Inhabited

namespace Project

def agent? (agentId : String) (p : Project) : Option Definition :=
  p.agents.find? (·.id = agentId)

def endpoint? (name : String) (p : Project) : Option Endpoint := p.endpoints.lookup name

def toJson (p : Project) : Json :=
  .obj (("id", .str p.id) :: Json.member? "revision" Json.str p.revision
    ++ [("agents", .arr (p.agents.map Definition.toJson)),
      ("endpoints", Json.ofMap Endpoint.toJson p.endpoints)])

def ofJson? : Json.Decoder Project := fun json => do
  let fields ← Json.record ["id", "revision", "agents", "endpoints"] json
  return {
    id := ← Json.Fields.required "id" .string fields
    revision := ← Json.Fields.optional "revision" .string fields
    agents := ← Json.Fields.defaulted "agents" (.list Definition.ofJson?) [] fields
    endpoints := ← Json.Fields.defaulted "endpoints" (.map Endpoint.ofJson?) [] fields }

def ofText (text : String) : Except Error Project :=
  match Json.parse text with
  | .error e => .error (.serialization e.message)
  | .ok json =>
    match ofJson? json with
    | none => .error (.serialization "not a project")
    | some p => if p.id = "" then .error (.config "project id must not be empty") else .ok p

end Project

end Agents
