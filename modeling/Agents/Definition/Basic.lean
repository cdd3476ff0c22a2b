import Agents.Binding
import Agents.Model.Message
import Agents.Verify.Rule

/-! # Agent definitions

A definition names an agent, declares its inputs and outputs, and says what kind of agent it is.
There are six kinds: asking a model, running a script, running other agents in steps, letting a
model choose between cases, calling an HTTP endpoint, and generating images.
-/

namespace Agents

/-! ## Declarations -/

inductive ValueType where
  | string
  | number
  | integer
  | boolean
  | object
  | array
  | image
  | any
deriving DecidableEq, Repr, Inhabited

structure InputDecl where
  name : String
  type : ValueType := .any
  isOptional : Bool := false
  default : Option Json := none
  secret : Bool := false
  description : Option String := none
deriving Inhabited

structure OutputDecl where
  name : String
  type : ValueType := .any
  isOptional : Bool := false
  /-- The value is text that is shown while it is being produced. -/
  streamingText : Bool := false
  description : Option String := none
deriving DecidableEq, Repr, Inhabited

/-- Whether what an agent says is shown as a message of its own. -/
inductive RespondAs where
  | message
  | none
deriving DecidableEq, Repr, Inhabited

/-! ## Kinds of agents -/

structure PromptTemplate where
  role : Role
  content : String
deriving DecidableEq, Repr, Inhabited

structure ModelPromptSpec where
  messages : List PromptTemplate
  model : ModelSettings := {}
  maxRetries : Option Nat := none
deriving Inhabited

structure ScriptSpec where
  source : String
  maxRetries : Option Nat := none
deriving DecidableEq, Repr, Inhabited

/-- One agent run of a pipeline; neighbouring concurrent steps run together. -/
structure PipelineStep where
  name : String
  agent : String
  inputs : Bindings := []
  concurrent : Bool := false
deriving Inhabited

structure PipelineSpec where
  steps : List PipelineStep
  outputs : Bindings := []
deriving Inhabited

structure DecisionCase where
  name : String
  description : String := ""
  agent : Option String := none
  inputs : Bindings := []
  stop : Bool := false
deriving Inhabited

structure DecisionSpec where
  instruction : String := ""
  cases : List DecisionCase
  model : ModelSettings := {}
  maxRetries : Option Nat := none
deriving Inhabited

inductive ParameterLocation where
  | path
  | query
  | header
  | cookie
  | body
deriving DecidableEq, Repr, Inhabited

structure HttpParameter where
  name : String
  location : ParameterLocation
  value : Binding
deriving Inhabited

/-- An endpoint; the path may hold `{name}` placeholders. -/
structure Endpoint where
  method : String
  baseUrl : String
  path : String
  headers : List (String × String) := []
deriving DecidableEq, Repr, Inhabited

/-- An endpoint written in the definition, or the name of a shared one. -/
inductive EndpointRef where
  | inline (endpoint : Endpoint)
  | named (name : String)
deriving DecidableEq, Repr, Inhabited

structure HttpApiSpec where
  endpoint : EndpointRef
  parameters : List HttpParameter := []
  /-- Pointers into the response body, by the output they feed. -/
  response : List (String × String) := []
  maxRetries : Option Nat := none
deriving Inhabited

structure ImageGenerationSpec where
  prompt : String
  model : ModelSettings := {}
  count : Nat := 1
deriving Inhabited

inductive AgentKind where
  | modelPrompt (spec : ModelPromptSpec)
  | scriptedLogic (spec : ScriptSpec)
  | pipeline (spec : PipelineSpec)
  | decision (spec : DecisionSpec)
  | httpApi (spec : HttpApiSpec)
  | imageGeneration (spec : ImageGenerationSpec)
deriving Inhabited

/-- An agent as its author wrote it. -/
structure Definition where
  id : String
  name : String
  inputs : List InputDecl := []
  outputs : List OutputDecl := []
  respondAs : Option RespondAs := none
  outputRules : List Rule := []
  kind : AgentKind
deriving Inhabited

namespace Definition

/-- The first declaration of an input. -/
def input? (name : String) (d : Definition) : Option InputDecl :=
  d.inputs.find? (·.name = name)

/-- How often the definition wants a failed attempt repeated; an HTTP agent that says nothing
wants no repetition, other agents then leave it to the caller. -/
def maxRetries (d : Definition) : Option Nat :=
  match d.kind with
  | .modelPrompt spec => spec.maxRetries
  | .scriptedLogic spec => spec.maxRetries
  | .decision spec => spec.maxRetries
  | .httpApi spec => some (spec.maxRetries.getD 0)
  | .pipeline _ | .imageGeneration _ => none

def isStreamingText (name : String) (d : Definition) : Bool :=
  d.outputs.any fun o => o.streamingText && o.name = name

end Definition

end Agents
