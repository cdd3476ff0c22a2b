import Agents.Capability
import Agents.Json.Basic

/-! # Calls of scripts to their host

A script that runs is an `Interaction`: it has ended, or it made a call and goes on with the answer.
Every call of an interaction needs a capability that was granted, which is part of its type.

`Interaction.serve` answers the calls one after another. What becomes of a call that fails is up to
the evaluation of the script.
-/

namespace Agents.Script

/-- A piece of a JSON document that a script composes. -/
inductive DocumentPart where
  /-- Text that is taken as it is. -/
  | raw (text : String)
  /-- An agent whose streamed text becomes a string. -/
  | agent (agent : String) (inputs : Json)
  | value (value : Json)
deriving Inhabited

inductive HostCall where
  | log (message : String)
  | fetch (method url : String) (body : Json)
  | runAgent (agent : String) (inputs : Json) (relayText : Bool)
  | renderJson (parts : List DocumentPart)
deriving Inhabited

namespace HostCall

def capability : HostCall → Capability
  | .log .. => .log
  | .fetch .. => .http
  | .runAgent .. => .runAgent
  | .renderJson .. => .json

end HostCall

def DocumentPart.toJson : DocumentPart → Json
  | .raw s => .obj [("part", "raw"), ("text", s)]
  | .agent name inputs => .obj [("agent", name), ("inputs", inputs), ("part", "agent")]
  | .value v => .obj [("part", "value"), ("value", v)]

def HostCall.toJson : HostCall → Json
  | .log message => .obj [("call", "log"), ("message", message)]
  | .fetch method url body =>
    .obj [("body", body), ("call", "fetch"), ("method", method), ("url", url)]
  | .runAgent agent inputs relayText =>
    .obj [("agent", agent), ("call", "run_agent"), ("inputs", inputs),
      ("relay_text", .bool relayText)]
  | .renderJson parts =>
    .obj [("call", "render_json"), ("parts", .arr (parts.map DocumentPart.toJson))]

structure GrantedCall (granted : CapabilitySet) where
  val : HostCall
  isGranted : granted.has val.capability
  /-- Whether a script makes it to compare two items of an array. -/
  isComparison : Bool := false

/-- A script that runs. -/
inductive Interaction (granted : CapabilitySet) (α : Type) where
  | done (result : α)
  /-- A call whose answer the script waits for. -/
  | call (request : GrantedCall granted) (resume : Except Error Json → Interaction granted α)
  /-- A call without an answer. -/
  | notify (request : GrantedCall granted) (rest : Interaction granted α)

namespace Interaction

variable {granted : CapabilitySet} {α β : Type}

def bind (i : Interaction granted α) (next : α → Interaction granted β) : Interaction granted β :=
  match i with
  | .done result => next result
  | .call request resume => .call request fun answer => (resume answer).bind next
  | .notify request rest => .notify request (rest.bind next)

instance : Monad (Interaction granted) where
  pure := .done
  bind := bind

/-- The same interaction, in which all calls are made to compare items. -/
def comparing : Interaction granted α → Interaction granted α
  | .done result => .done result
  | .call request resume =>
    .call { request with isComparison := true } fun answer => (resume answer).comparing
  | .notify request rest => .notify { request with isComparison := true } rest.comparing

/-- Answers the calls of a script until it ends. A handler that gives nothing never answers, which
ends the script with `timeout`. -/
def serve {m : Type → Type} [Monad m] (handle : HostCall → m (Option (Except Error Json)))
    (timeout : Error) : Interaction granted α → m (Except Error α)
  | .done result => pure (.ok result)
  | .notify request rest => do
    match ← handle request.val with
    | none => pure (.error timeout)
    | some _ => rest.serve handle timeout
  | .call request resume => do
    match ← handle request.val with
    | none => pure (.error timeout)
    | some answer => (resume answer).serve handle timeout

end Interaction

end Agents.Script
