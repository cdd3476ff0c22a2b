import Agents.Json.Decode

/-! # Bindings of inputs to variables

A binding is a literal value or a path into a variable. Resolving never fails: whatever the path
does not find is `null`.
-/

namespace Agents

inductive PathStep where
  | index (index : Nat)
  | key (key : String)
deriving DecidableEq, Repr, Inhabited

namespace PathStep

def toJson : PathStep → Json
  | .index i => .ofNat i
  | .key k => .str k

def ofJson? : Json.Decoder PathStep
  | .str k => some (.key k)
  | json => .index <$> Json.Decoder.word 64 json

def find? : PathStep → Json → Option Json
  | .index i, .arr items => items[i]?
  | .key k, .obj fields => Json.Fields.get? k fields
  | _, _ => none

end PathStep

/-- Where an input's value comes from. -/
inductive Binding where
  | variable (name : String) (path : List PathStep)
  | literal (value : Json)
deriving Inhabited

namespace Binding

def toJson : Binding → Json
  | .variable name path =>
    .obj (("fromVariable", .str name)
      :: Json.memberList? "fromVariablePropPath" PathStep.toJson path)
  | .literal value => .obj [("value", value)]

/-- A variable if the object reads as one, else a literal. -/
def ofJson? : Json.Decoder Binding := fun json => do
  let fields ← json.obj?
  let asVariable : Option Binding := do
    return .variable (← Json.Fields.required "fromVariable" .string fields)
      (← Json.Fields.defaulted "fromVariablePropPath" (.list PathStep.ofJson?) [] fields)
  asVariable <|> (.literal <$> Json.Fields.required "value" .any fields)

def follow (path : List PathStep) (value : Json) : Option Json :=
  path.foldlM (fun value step => step.find? value) value

/-- The value of a binding over some variables; `null` when it names nothing. -/
def resolve (vars : Json.Fields) : Binding → Json
  | .literal value => value
  | .variable name path => ((Json.Fields.get? name vars).bind (follow path)).getD .null

end Binding

/-- Bindings by the name of the input they feed, in order of the names. -/
abbrev Bindings := List (String × Binding)

namespace Bindings

def toJson (bindings : Bindings) : Json := Json.ofMap Binding.toJson bindings

def ofJson? : Json.Decoder Bindings := Json.Decoder.map Binding.ofJson?

def resolve (vars : Json.Fields) (bindings : Bindings) : Json.Fields :=
  Json.Fields.ofList (List.map (fun (name, b) => (name, b.resolve vars)) bindings)

end Bindings

end Agents
