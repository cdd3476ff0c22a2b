import Agents.Script.Builtin
import Agents.Script.State
import Agents.Text.Case

/-! # Functions that reach the host

Each is there only if the script has the capability for it; otherwise a call of it is that of a
function that does not exist. Streams need no capability, since what is pushed into one leaves the
script only with its result.
-/

namespace Agents.Script

/-- What marks a map that stands for an agent in a document. -/
def agentKey : String := "$agent"

/-- The piece of a document that an element of `json(parts)` is. -/
def DocumentPart.ofValue : Value → DocumentPart
  | .string s => .raw s
  | v =>
    match v.toPlainJson with
    | .obj fields =>
      match Json.Fields.get? agentKey fields with
      | some name =>
        .agent (name.str?.getD "") ((Json.Fields.get? "inputs" fields).getD .null)
      | none => .value (.obj fields)
    | json => .value json

/-- The call of the host that a function on these arguments makes. -/
def HostCall.ofFunction? (name : String) (arguments : List Value) : Option HostCall :=
  match name, arguments with
  | "log", [.string message] => some (.log message)
  | "fetch", [.string url] => some (.fetch "GET" url .null)
  | "fetch", [.string method, .string url, body] =>
    some (.fetch (Text.toUpper method) url body.toPlainJson)
  | "run_agent", [.string agent, inputs] => some (.runAgent agent inputs.toPlainJson false)
  | "run_agent", [.string agent, inputs, .object options] =>
    let relayText := match Value.Members.get? "relay" options with
      | some (.bool b) => b
      | _ => false
    some (.runAgent agent inputs.toPlainJson relayText)
  | "json", [.array parts] => some (.renderJson (parts.map DocumentPart.ofValue))
  | _, _ => none

def HostCall.result (c : HostCall) (answer : Json) : Value :=
  match c with
  | .log _ => .unit
  | _ => .ofJson answer

namespace Eval

variable {granted : CapabilitySet}

/-- Tells the host a text, if the script may. -/
def report (text : String) : Eval granted Unit :=
  if h : granted.has (HostCall.log text).capability then notify ⟨.log text, h, false⟩ else pure ()

/-- A function that needs no evaluation of the script: one of the host, of streams, or built in. -/
def native (name : String) (arguments : List Value) : Eval granted (Option Effect) := do
  if let some c := HostCall.ofFunction? name arguments then
    if h : granted.has c.capability then
      return some ⟨c.result (← call ⟨c, h, false⟩), none⟩
  match name, arguments with
  | "agent", [.string agent, inputs] =>
    if granted.has .json then
      return some ⟨.object [(agentKey, .string agent), ("inputs", inputs)], none⟩
    else return none
  | "stream", [] => return some ⟨← newStream, none⟩
  | "push", [.stream id, v] => do
    push id (.data v.toPlainJson)
    return some ⟨.unit, none⟩
  | "fail", [.stream id, .string message] => do
    push id (.failure message)
    return some ⟨.unit, none⟩
  | "print", [] | "debug", [] => do
    report ""
    return some ⟨.unit, none⟩
  | "print", [v] => do
    report v.text
    return some ⟨.unit, none⟩
  | "debug", [v] => do
    report v.inspect
    return some ⟨.unit, none⟩
  | name, arguments =>
    match Builtin.call? name arguments with
    | some result => return some (← ofExcept result)
    | none => return none

end Eval

end Agents.Script
