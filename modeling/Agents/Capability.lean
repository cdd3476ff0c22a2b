import Agents.Error

/-! # Capabilities of scripts

A script may call the host only through the capabilities it was granted.
-/

namespace Agents

inductive Capability where
  | log
  | http
  | runAgent
  | json
deriving DecidableEq, Repr, Inhabited

namespace Capability

/-- Every capability, in the order in which sets list them. -/
def all : List Capability := [.log, .http, .runAgent, .json]

def name : Capability → String
  | .log => "log"
  | .http => "http"
  | .runAgent => "run_agent"
  | .json => "json"

def ofName (name : String) : Except Error Capability :=
  match all.find? (·.name = name) with
  | some c => .ok c
  | none => .error (.config ("unknown host capability '" ++ name ++ "'"))

end Capability

/-- A set of capabilities, listed in order and without repetition. -/
structure CapabilitySet where
  granted : Capability → Bool

namespace CapabilitySet

def ofList (cs : List Capability) : CapabilitySet := ⟨fun c => cs.contains c⟩

def all : CapabilitySet := ⟨fun _ => true⟩

def has (set : CapabilitySet) (c : Capability) : Bool := set.granted c

def toList (set : CapabilitySet) : List Capability := Capability.all.filter set.has

end CapabilitySet

end Agents
