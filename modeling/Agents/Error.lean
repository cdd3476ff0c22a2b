/-! # Failures of a run

Every operation that can fail reports one `Error`. Its kind is what an ERROR event names, its
message is what a user reads. Only a failed output validation is worth another attempt, and only
failures of a script's own calls may be caught by the script.
-/

namespace Agents

structure Exception where
  name : String
  message : String
deriving DecidableEq, Repr, Inhabited

def Exception.text (e : Exception) : String := e.name ++ ": " ++ e.message

/-- An exception that a script did not catch, with what it was raised from, nearest cause first. -/
structure ScriptFault extends Exception where
  causes : List Exception := []
deriving DecidableEq, Repr, Inhabited

inductive Error where
  | invalidIdentity (reason : String)
  | agentNotFound (agent : String)
  | invalidInput (name reason : String)
  | outputValidation (reason : String)
  | unexpectedResponseFormat (agent : String) (attempts : Nat) (reason : String)
  | script (fault : ScriptFault)
  | resourceExceeded (resource limit : String)
  | unsupportedModule (module : String)
  | model (reason : String)
  | http (status : Option Nat) (reason : String)
  | stateMachine (reason : String)
  | config (reason : String)
  | schemaValidation (reason : String)
  | invalidDefinition (agent reason : String)
  | serialization (reason : String)
  | cancelled
deriving DecidableEq, Repr, Inhabited

namespace Error

def kind : Error → String
  | .invalidIdentity .. => "InvalidIdentity"
  | .agentNotFound .. => "AgentNotFound"
  | .invalidInput .. => "InvalidInput"
  | .outputValidation .. => "OutputValidation"
  | .unexpectedResponseFormat .. => "UnexpectedResponseFormat"
  | .script .. => "ScriptError"
  | .resourceExceeded .. => "ResourceExceeded"
  | .unsupportedModule .. => "UnsupportedModule"
  | .model .. => "ModelError"
  | .http .. => "HttpError"
  | .stateMachine .. => "StateMachineError"
  | .config .. => "ConfigError"
  | .schemaValidation .. => "SchemaValidation"
  | .invalidDefinition .. => "InvalidDefinition"
  | .serialization .. => "SerializationError"
  | .cancelled => "Cancelled"

def message : Error → String
  | .invalidIdentity reason => "invalid agent identity: " ++ reason
  | .agentNotFound agent => "agent '" ++ agent ++ "' not found"
  | .invalidInput name reason => "invalid input '" ++ name ++ "': " ++ reason
  | .outputValidation reason => "output validation failed: " ++ reason
  | .unexpectedResponseFormat agent attempts reason =>
    "unexpected response format from '" ++ agent ++ "' after " ++ toString attempts
      ++ " attempt(s): " ++ reason
  | .script fault => "script error: " ++ fault.toException.text
  | .resourceExceeded resource limit =>
    "resource exceeded: " ++ resource ++ " (limit " ++ limit ++ ")"
  | .unsupportedModule module => "unsupported module '" ++ module ++ "'"
  | .model reason => "model call failed: " ++ reason
  | .http _ reason => "http call failed: " ++ reason
  | .stateMachine reason => "state machine error: " ++ reason
  | .config reason => "configuration error: " ++ reason
  | .schemaValidation reason => "schema validation error: " ++ reason
  | .invalidDefinition agent reason =>
    "invalid agent definition '" ++ agent ++ "': " ++ reason
  | .serialization reason => "serialization error: " ++ reason
  | .cancelled => "execution cancelled"

/-- Only output that failed its validation is worth another attempt. -/
def isRetryable : Error → Bool
  | .outputValidation _ => true
  | _ => false

/-- What a script may catch when one of its calls fails; anything else ends the script. -/
def isCatchable : Error → Bool
  | .script _ | .http .. | .model _ | .outputValidation _ | .unexpectedResponseFormat ..
  | .invalidInput .. | .serialization _ => true
  | _ => false

/-- The texts of the exceptions behind an error, outermost first. -/
def sources : Error → List String
  | .script fault => (fault.toException :: fault.causes).map Exception.text
  | _ => []

end Error

end Agents
