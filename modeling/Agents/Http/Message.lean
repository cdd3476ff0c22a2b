import Agents.Json.Decode

/-! # HTTP requests and responses -/

namespace Agents

structure HttpRequest where
  method : String
  url : String
  headers : List (String × String) := []
  body : Option Json := none
deriving Inhabited

def HttpRequest.toJson (r : HttpRequest) : Json :=
  .obj ([("method", .str r.method), ("url", .str r.url),
      ("headers", .arr (r.headers.map fun (k, v) => .arr [.str k, .str v]))]
    ++ Json.member? "body" id r.body)

structure HttpResponse where
  status : Nat
  /-- Headers in order of their names. -/
  headers : List (String × String) := []
  body : Json
deriving Inhabited

namespace HttpResponse

def isSuccess (r : HttpResponse) : Bool := 200 ≤ r.status && r.status < 300

def toJson (r : HttpResponse) : Json :=
  .obj [("body", r.body), ("headers", Json.ofMap Json.str r.headers), ("status", .ofNat r.status)]

def ofJson? : Json.Decoder HttpResponse := fun json => do
  let fields ← Json.record ["status", "headers", "body"] json
  return {
    status := ← Json.Fields.required "status" (.word 16) fields
    headers := ← Json.Fields.defaulted "headers" (.map .string) [] fields
    body := ← Json.Fields.required "body" .any fields }

end HttpResponse

end Agents
