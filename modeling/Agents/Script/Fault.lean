import Agents.Error
import Agents.Script.Value

/-! # Faults of running scripts

What stops a script, or is caught by it. Running out of a resource cannot be caught, and neither can
a call to the host that failed in a way that is not the script's business.
-/

namespace Agents.Script

inductive Fault where
  /-- A value that the script threw, or a call to the host whose failure it may catch. -/
  | thrown (value : Value)
  /-- A call to the host failed, and the script may not catch that. -/
  | hostFailed (e : Error)
  | variableNotFound (name : String)
  | functionNotFound (signature : String)
  | moduleNotFound (name : String)
  | mismatch (expected found : String)
  | arithmetic (reason : String)
  | arrayBounds (size : Nat) (index : Int)
  | stringBounds (size : Nat) (index : Int)
  | bitBounds (index : Int)
  | notIndexable (types : String)
  | noGetter (property type : String)
  | noSetter (property type valueType : String)
  | constantModified (name : String)
  | constantMethod (name : String)
  | notIterable
  | inUse (name : String)
  | noReceiver
  | tooManyOperations
  | tooLarge
  | tooDeep
  | tooManyModules
  | deadlinePassed
deriving Inhabited

namespace Fault

def isCatchable : Fault → Bool
  | .hostFailed _ | .tooManyOperations | .tooLarge | .tooDeep | .tooManyModules
  | .deadlinePassed => false
  | _ => true

/-- What a call that fails raises: a map that names the error and tells its text, if the script may
catch it. -/
def ofError (e : Error) : Fault :=
  if e.isCatchable then
    .thrown (.object [("message", .string e.message), ("name", .string e.kind)])
  else .hostFailed e

private def boundsText (what unit empty : String) (size : Nat) (index : Int) : String :=
  what ++ " index " ++ toString index ++ " out of bounds: " ++
    (match size with
      | 0 => empty ++ " is empty"
      | 1 => "only 1 " ++ unit ++ " in " ++ empty
      | n => "only " ++ toString n ++ " " ++ unit ++ "s in " ++ empty)

def message : Fault → String
  | .thrown v => if v.text = "" then "Runtime error" else "Runtime error: " ++ v.text
  | .variableNotFound name => "Variable not found: " ++ name
  | .functionNotFound signature => "Function not found: " ++ signature
  | .moduleNotFound name => "Module not found: " ++ name
  | .mismatch expected found =>
    "Data type incorrect: " ++ found ++ " (expecting " ++ expected ++ ")"
  | .arithmetic reason => reason
  | .arrayBounds size index => boundsText "Array" "element" "array" size index
  | .stringBounds size index => boundsText "String" "character" "string" size index
  | .bitBounds index =>
    "Bit-field index " ++ toString index ++ " out of bounds: only 64 bits in bit-field"
  | .notIndexable types => "Indexer unavailable: " ++ types
  | .noGetter property type =>
    "Unknown property '" ++ property ++ "' - a getter is not registered for type '" ++ type ++ "'"
  | .noSetter property type valueType =>
    "No writable property '" ++ property ++ "' - a setter is not registered for type '" ++ type
      ++ "' to handle '" ++ valueType ++ "'"
  | .constantModified name => "Cannot modify constant: " ++ name
  | .constantMethod name => "Non-pure method '" ++ name ++ "' cannot be called on constant"
  | .notIterable => "For loop expects iterable type"
  | .inUse name => "Data race detected when accessing variable: " ++ name
  | .noReceiver => "'this' not bound"
  | .tooManyOperations => "Too many operations"
  | .tooLarge => "Data too large"
  | .tooDeep => "Stack overflow"
  | .tooManyModules => "Too many modules imported"
  | .hostFailed _ | .deadlinePassed => "Script terminated"

end Fault

/-- A fault with the functions it passed through, innermost first. -/
structure Raised where
  fault : Fault
  callers : List String := []
deriving Inhabited

namespace Raised

def message (r : Raised) : String :=
  r.callers.foldl (fun text name =>
    text ++ (if name = "" then "\nin call to closure"
      else "\nin call to function '" ++ name ++ "'")) r.fault.message

end Raised

end Agents.Script
