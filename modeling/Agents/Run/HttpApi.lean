import Agents.Http.Request
import Agents.Run.Engine

/-! # Calling an endpoint

The request is built once and sent in every attempt; only an answer with a status of success is
looked at.
-/

namespace Agents.HttpApi

/-- The endpoint of this name: that of the project, or else one from outside. -/
def endpointNamed (t : TaskContext) (name : String) : Fallible Endpoint := do
  if let some e := t.engine.project.endpoint? name then return e
  match ← ExceptT.mk (Activity.query (.endpoint name)) with
  | some e => return e
  | none => throw (.invalidDefinition t.definition.id ("unknown endpoint '" ++ name ++ "'"))

def endpointOf (t : TaskContext) : EndpointRef → Fallible Endpoint
  | .inline e => pure e
  | .named name => endpointNamed t name

def ensureSuccess (request : HttpRequest) (response : HttpResponse) : Except Error Unit :=
  if response.isSuccess then .ok ()
  else .error (.http (some response.status)
    (request.method ++ " " ++ request.url ++ " returned " ++ toString response.status))

def process (t : TaskContext) (spec : HttpApiSpec) (inputs : Json) : Fallible Json := do
  let endpoint ← endpointOf t spec.endpoint
  let arguments := HttpRequest.arguments spec.parameters (inputFields inputs)
  let request ← MonadExcept.ofExcept (HttpRequest.build endpoint arguments)
  t.retry fun _ => do
    let response ← ExceptT.mk (Activity.query (.http request))
    MonadExcept.ofExcept (ensureSuccess request response)
    t.validated (HttpResponse.outputs spec.response response.body)

end Agents.HttpApi
