import Agents.Error
import Agents.Json.Decode
import Agents.Text.Base64
import Agents.Text.Blank

/-! # Agent identities and their tokens

An identity is written as one token: the base64 text of
`component/projectId/projectRevision/agentId`. Only the last segment may hold a slash. Reading
aligns short texts to the right, so `projectId/agentId` and `projectId/revision/agentId` are
tokens too.

Reading a written token gives back the identity, with empty optional fields made absent.
-/

namespace Agents

/-- The address of an agent; without a component it lives in the current project. -/
structure Identity where
  component : Option String := none
  projectId : String
  projectRevision : Option String := none
  agentId : String
deriving DecidableEq, Repr, Inhabited

namespace Identity

/-- An empty text is the same as none. -/
def nonEmpty (s : String) : Option String := if s = "" then none else some s

def inProject (projectId agentId : String) : Identity := { projectId, agentId }

def withComponent (component : String) (id : Identity) : Identity :=
  { id with component := nonEmpty component }

def withRevision (revision : String) (id : Identity) : Identity :=
  { id with projectRevision := nonEmpty revision }

/-- The identity with empty optional fields made absent. -/
def normalize (id : Identity) : Identity :=
  { id with
    component := id.component.bind nonEmpty
    projectRevision := id.projectRevision.bind nonEmpty }

/-- Whether the identity lives in this project and names no component. -/
def isLocalTo (projectId : String) (id : Identity) : Bool :=
  id.component.isNone && id.projectId = projectId

/-! ## JSON -/

def toJson (id : Identity) : Json :=
  .obj (Json.member? "component" Json.str id.component ++ [("projectId", .str id.projectId)]
    ++ Json.member? "projectRevision" Json.str id.projectRevision
    ++ [("agentId", .str id.agentId)])

def ofJson? : Json.Decoder Identity := fun json => do
  let fields ← Json.record ["component", "projectId", "projectRevision", "agentId"] json
  return {
    component := ← Json.Fields.optional "component" .string fields
    projectId := ← Json.Fields.required "projectId" .string fields
    projectRevision := ← Json.Fields.optional "projectRevision" .string fields
    agentId := ← Json.Fields.required "agentId" .string fields }

/-! ## Writing -/

inductive EncodeError where
  | missing (field : String)
  | containsSlash (field : String)
deriving DecidableEq, Repr

def EncodeError.message : EncodeError → String
  | .missing field => field ++ " is required"
  | .containsSlash field => field ++ " must not contain '/'"

def containsSlash (s : String) : Bool := s.toList.contains '/'

def segments (id : Identity) : String × String × String × String :=
  (id.component.getD "", id.projectId, id.projectRevision.getD "", id.agentId)

def plainText (id : Identity) : String :=
  let (component, project, revision, agent) := id.segments
  component ++ "/" ++ project ++ "/" ++ revision ++ "/" ++ agent

def encode (id : Identity) : Except EncodeError String :=
  let (component, project, revision, agent) := id.segments
  if project = "" then .error (.missing "projectId")
  else if agent = "" then .error (.missing "agentId")
  else if containsSlash component then .error (.containsSlash "component")
  else if containsSlash project then .error (.containsSlash "projectId")
  else if containsSlash revision then .error (.containsSlash "projectRevision")
  else .ok (Text.Base64.encode id.plainText.toUTF8.toList)

/-- The token, or `projectId/agentId` for an identity that has none. -/
def text (id : Identity) : String :=
  match id.encode with
  | .ok token => token
  | .error _ => id.projectId ++ "/" ++ id.agentId

/-! ## Reading -/

inductive DecodeError where
  | notBase64 (error : Text.Base64.DecodeError)
  | notUtf8
  | segmentCount (found : Nat)
  | missing
deriving DecidableEq, Repr

def DecodeError.message : DecodeError → String
  | .notBase64 error => "token is not valid base64: " ++ error.message
  | .notUtf8 => "token is not valid UTF-8"
  | .segmentCount found => "expected 2 to 4 segments, found " ++ toString found
  | .missing => "projectId and agentId must be present"

/-- Splits at the first `cuts` slashes. -/
def splitSlashes : (cuts : Nat) → List Char → List (List Char)
  | 0, s => [s]
  | cuts + 1, s =>
    match s.dropWhile (· ≠ '/') with
    | [] => [s]
    | _ :: rest => s.takeWhile (· ≠ '/') :: splitSlashes cuts rest

def ofPlainText (text : String) : Except DecodeError Identity :=
  let build (component project revision agent : List Char) : Except DecodeError Identity :=
    if project = [] ∨ agent = [] then .error .missing
    else .ok {
      component := nonEmpty (String.ofList component)
      projectId := String.ofList project
      projectRevision := nonEmpty (String.ofList revision)
      agentId := String.ofList agent }
  match splitSlashes 3 text.toList with
  | [c, p, r, a] => build c p r a
  | [p, r, a] => build [] p r a
  | [p, a] => build [] p [] a
  | found => .error (.segmentCount found.length)

/-- Reads a token; white space around it is ignored. -/
def decode (token : String) : Except DecodeError Identity :=
  match Text.Base64.decode (Text.trim token) with
  | .error e => .error (.notBase64 e)
  | .ok bytes =>
    match String.fromUTF8? bytes.toByteArray with
    | none => .error .notUtf8
    | some text => ofPlainText text

def decode? (token : String) : Option Identity := (decode token).toOption

/-- A refused token as a failure of the run. -/
def ofToken (token : String) : Except Error Identity :=
  (decode token).mapError fun e => .invalidIdentity e.message

/-- The token of an identity, or why it has none as a failure of the run. -/
def toToken (id : Identity) : Except Error String :=
  id.encode.mapError fun e => .invalidIdentity e.message

end Identity

/-! ## References -/

/-- How one agent names another: by a full identity, or by its id in the caller's project. -/
inductive AgentRef where
  | identity (id : Identity)
  | inProject (agentId : String)
deriving DecidableEq, Repr

namespace AgentRef

/-- A text that is no token is an agent id. -/
def parse (text : String) : AgentRef :=
  match Identity.decode text with
  | .ok id => .identity id
  | .error _ => .inProject text

def toIdentity (projectId : String) : AgentRef → Identity
  | .identity id => id
  | .inProject agentId => Identity.inProject projectId agentId

end AgentRef

end Agents
