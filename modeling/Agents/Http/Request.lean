import Agents.Definition.Basic
import Agents.Error
import Agents.Http.Message
import Agents.Json.Pointer
import Agents.Template
import Agents.Text.Case
import Agents.Url.Origin

/-! # Requests of HTTP agents

A request is built from an endpoint and the values of its parameters; those that are `null` are left
out. The path of the endpoint is cut into segments before its placeholders are filled, so that a
value stays inside its segment. What an agent gets out of the response is found by JSON pointers.
-/

namespace Agents

namespace HttpRequest

structure Argument where
  name : String
  location : ParameterLocation
  value : Json
deriving Inhabited

/-- The parameters that have a value. -/
def arguments (parameters : List HttpParameter) (vars : Json.Fields) : List Argument :=
  (parameters.map fun p => ⟨p.name, p.location, p.value.resolve vars⟩).filter
    (!·.value.isNull)

def texts (location : ParameterLocation) (args : List Argument) : List (String × String) :=
  (args.filter (·.location = location)).map fun a => (a.name, a.value.valueText)

/-! ## Path -/

/-- A placeholder at the beginning of a text: the name in braces and the rest. -/
def placeholder? : List Char → Option (List Char × List Char)
  | '\x7b' :: rest =>
    let isName (c : Char) : Bool := c ≠ '\x7b' && c ≠ '\x7d'
    match rest.takeWhile isName, rest.dropWhile isName with
    | c :: name, '\x7d' :: after => some (c :: name, after)
    | _, _ => none
  | _ => none

/-- Fills the placeholders of a segment; one without a value is left empty. `skip` counts the
characters of a placeholder that are still to be left out. -/
def fill (values : List (String × String)) : (skip : Nat) → List Char → List Char
  | _, [] => []
  | skip + 1, _ :: rest => fill values skip rest
  | 0, c :: rest =>
    match placeholder? (c :: rest) with
    | some (name, _) =>
      ((values.lookup (String.ofList name)).getD "").toList ++ fill values (name.length + 1) rest
    | none => c :: fill values 0 rest

/-- The segments of an endpoint's path; empty ones do not count. -/
def segments (path : String) : List (List Char) :=
  (Url.splitOn '/' path.toList).filter (· ≠ [])

/-! ## Building -/

def build (e : Endpoint) (args : List Argument) : Except Error HttpRequest := do
  let refuse (reason : String) : Error := .http none reason
  let base ← match Url.parse e.baseUrl with
    | .ok u => pure u
    | .error f => throw (refuse ("invalid base url '" ++ e.baseUrl ++ "': " ++ f.message))
  -- of two parameters with one name the last one counts
  let values := (texts .path args).reverse
  let filled := (segments e.path).map fun s => String.ofList (fill values 0 s)
  let url ← match base.withSegments? filled with
    | some u => pure u
    | none => throw (refuse ("base url '" ++ e.baseUrl ++ "' cannot carry a path"))
  let cookies := (texts .cookie args).map fun (name, value) => name ++ "=" ++ value
  let body := (args.filter (·.location = .body)).map fun a => (a.name, a.value)
  return {
    method := Text.toUpper e.method
    url := (url.withPairs (texts .query args)).text
    headers := e.headers ++ texts .header args
      ++ (if cookies = [] then [] else [("Cookie", "; ".intercalate cookies)])
    body := if body.isEmpty then none else some (Json.ofMembers body) }

end HttpRequest

/-- What an agent gets out of a response body: what the pointers find, or without pointers the body
itself if it is an object. -/
def HttpResponse.outputs (pointers : List (String × String)) (body : Json) : Json :=
  if pointers.isEmpty then
    match body with
    | .obj fields => .obj fields
    | body => .obj [("body", body)]
  else
    Json.ofMembers (pointers.filterMap fun (name, pointer) =>
      (Json.pointer? pointer body).map (name, ·))

/-- Whether a path is a base path or lies below it, where only whole segments count. -/
def Url.isWithin (base path : String) : Bool :=
  if base.toList.isPrefixOf path.toList then
    let rest := path.toList.drop base.length
    rest.isEmpty || base.toList.getLast? = some '/' || rest.head? = some '/'
  else false

def Url.ensureAllowed (allowed : List String) (text : String) : Except Error Unit :=
  match Url.parse text with
  | .error f => .error (.http none ("invalid url '" ++ text ++ "': " ++ f.message))
  | .ok target =>
    let bases := allowed.filterMap fun base => (Url.parse base).toOption
    if bases.any fun base =>
        base.sameOrigin target && isWithin base.path.text target.path.text then .ok ()
    else .error (.http none ("url '" ++ text ++ "' is outside the allowed base urls"))

end Agents
