import Agents.Script.Evaluator
import Agents.Script.Import
import Agents.Script.Relay
import Agents.Script.Simplify

/-! # Running a script in its limits

A script runs only if every module it imports is allowed and its arguments are not too large. What
stops it becomes an error: what it threw keeps its name, message and causes, running out of a
resource names the resource, and everything else is told by its text.
-/

namespace Agents.Script

/-! ## Errors -/

def maxCauses : Nat := 8

/-- The exception that a thrown value stands for, and the value it was caused by. -/
def exceptionOf (v : Value) : Exception × Option Value :=
  match v with
  | .object members =>
    let part (key : String) : Option Value :=
      (Value.Members.get? key members).filter (·.typeName ≠ "()")
    (⟨((part "name").map Value.text).getD "Error", ((part "message").map Value.text).getD ""⟩,
      part "cause")
  | v => (⟨"Error", v.text⟩, none)

/-- The causes of an exception, nearest first. -/
def causesOf : (most : Nat) → Option Value → List Exception
  | _, none | 0, _ => []
  | most + 1, some v =>
    let (e, cause) := exceptionOf v
    e :: causesOf most cause

def memoryExceeded (l : SandboxLimits) : Error :=
  .resourceExceeded "memory" (toString l.memoryLimitBytes ++ " bytes")

def timeExceeded (l : SandboxLimits) : Error :=
  .resourceExceeded "time" (toString l.deadlineMs ++ "ms")

/-- The error that a fault ends a script with. -/
def Raised.toError (l : SandboxLimits) (r : Raised) : Error :=
  let named (name message : String) : Error := .script ⟨⟨name, message⟩, []⟩
  match r.fault with
  | .thrown v =>
    let (e, cause) := exceptionOf v
    .script ⟨e, causesOf maxCauses cause⟩
  | .hostFailed e => e
  | .tooManyOperations => .resourceExceeded "operations" (toString l.maxOperations)
  | .deadlinePassed => timeExceeded l
  | .tooLarge | .tooDeep | .tooManyModules => memoryExceeded l
  | .moduleNotFound name => .unsupportedModule name
  | .functionNotFound _ | .variableNotFound _ => named "ReferenceError" r.message
  | .mismatch .. => named "TypeError" r.message
  | f => named "Error" f.message

/-! ## Running -/

/-- What a script ends with: its result, in which a path stands for every stream, and what it sends
for its streams. -/
structure Outcome where
  value : Json
  relay : List RelayMessage

def chunksOf (items : List StreamItem) : List RelayChunk :=
  let chunks := items.map fun
    | .data v => RelayChunk.data v
    | .failure message => .failure message
  match items.getLast? with
  | some (.failure _) => chunks
  | _ => chunks ++ [.done]

/-- What is sent for the streams at some paths. The items of a stream are sent once, for the first
path that it is found at. -/
def relayOf (streams : Array (List StreamItem)) : List (List String × Nat) → List RelayMessage
  | [] => []
  | (path, id) :: rest =>
    (chunksOf (streams[id]?.getD []).reverse).map (⟨Json.Pointer.ofTokens path, ·⟩)
      ++ relayOf (streams.setIfInBounds id []) rest

/-- The result of an evaluation that has ended. -/
def Outcome.ofEnd (l : SandboxLimits) : Except Signal Value × State → Except Error Outcome
  | (.ok v, s) => .ok ⟨v.toJson [], relayOf s.streams (v.streams [])⟩
  | (.error (.raised r), _) => .error (r.toError l)
  | (.error _, _) => .ok ⟨.null, []⟩

/-- Starts a script with variables for its arguments. -/
def start (l : SandboxLimits) (code : String) (arguments : Json.Fields) :
    Interaction l.capabilitySet (Except Error Outcome) :=
  let limits := Limits.ofSandbox l
  match Program.ofText limits.sizes code with
  | .error fault => .done (.error (.script ⟨⟨"SyntaxError", fault.message⟩, []⟩))
  | .ok program =>
    let program := Simplify.program program
    let setting : Setting :=
      ⟨program.functions, limits, l.allowedModules.filterMap Library.ofName?⟩
    let scope := arguments.map fun (name, v) => { name, value := .ofJson v : Variable }
    Outcome.ofEnd l <$> (Eval.program setting program.body).run.run { scope := scope.reverse }

/-- Runs a script to its end with a host that answers its calls. -/
def run {m : Type → Type} [Monad m] (l : SandboxLimits) (code : String) (arguments : Json.Fields)
    (handle : HostCall → m (Option (Except Error Json))) : m (Except Error Outcome) := do
  match checkImports code l.allowedModules with
  | .error e => return .error e
  | .ok _ =>
    if l.memoryLimitBytes < fieldsBinarySize arguments then return .error (memoryExceeded l)
    return (← (start l code arguments).serve handle (timeExceeded l)).bind id

end Agents.Script
