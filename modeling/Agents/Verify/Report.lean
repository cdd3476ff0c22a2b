import Agents.Definition.OutputSchema
import Agents.Error
import Agents.Schema.Basic
import Agents.Text.Search

/-! # Verifying an output

An output is held against a schema first and then against its rules, each in order, and every
failure is reported. A schema that cannot be read is a failure of its own, and no schema (`null`)
demands nothing.
-/

namespace Agents

structure Failure where
  ruleId : String
  message : String
deriving DecidableEq, Repr, Inhabited

structure Report where
  failures : List Failure := []
deriving DecidableEq, Repr, Inhabited

namespace Report

def passed (r : Report) : Bool := r.failures.isEmpty

/-- All failures in one line. -/
def summary (r : Report) : String :=
  "; ".intercalate (r.failures.map fun f => "[" ++ f.ruleId ++ "] " ++ f.message)

end Report

/-- Reports on an output under a schema. -/
structure Verifier where
  verify : Json → OutputSchema → Report

namespace Verifier

/-! ## The schema -/

/-- The rule that failures of the schema are reported under. -/
def schemaRule : String := "json-schema"

def violationText (v : Schema.Violation) : String :=
  "JSON Schema violation at '" ++ v.pointer ++ "': " ++ v.complaint

def structuralFailures (output schema : Json) : List Failure :=
  if schema.isNull then []
  else match Schema.ofJson schema with
    | .error fault => [⟨schemaRule, "invalid JSON Schema document: " ++ fault.message⟩]
    | .ok schema => (schema.violations output).map fun v => ⟨schemaRule, violationText v⟩

/-! ## The rules -/

/-- Says what is wrong with an output, if anything is. -/
abbrev Check := Json → Option String

def splitDots : List Char → List (List Char)
  | [] => [[]]
  | c :: rest =>
    if c = '.' then [] :: splitDots rest
    else match splitDots rest with
      | piece :: pieces => (c :: piece) :: pieces
      | [] => [[c]]

/-- The member of an object, unless it is `null`. -/
def present? (value : Json) (key : List Char) : Option Json :=
  (value.get? (String.ofList key)).filter (!·.isNull)

/-- What a dotted path finds; nothing on the way may be missing or `null`. -/
def resolve? (path : String) (value : Json) : Option Json :=
  (splitDots path.toList).foldlM present? value

/-- What a rule says about an output, given the checks that are registered. -/
def ruleFailure (checks : List (String × Check)) (output : Json) : RuleCheck → Option String
  | .requiredField path =>
    if (resolve? path output).isNone then
      some ("required field '" ++ path ++ "' is missing or null")
    else none
  | .allowedValues path allowed =>
    match resolve? path output with
    | none => some ("field '" ++ path ++ "' is missing; cannot check allowed values")
    | some actual =>
      if allowed.any (· == actual) then none
      else some ("field '" ++ path ++ "' has value " ++ actual.compact
        ++ " which is not in the allowed set")
  | .forbiddenPattern path pattern =>
    match resolve? path output with
    | some (.str s) =>
      if Text.occursIn pattern.toList s.toList then
        some ("field '" ++ path ++ "' contains forbidden pattern '" ++ pattern ++ "'")
      else none
    | _ => none
  | .custom name =>
    match checks.lookup name with
    | some check => check output
    | none => some ("no custom rule registered for function name '" ++ name ++ "'")

def ruleFailures (checks : List (String × Check)) (output : Json) (rules : List Rule) :
    List Failure :=
  rules.filterMap fun r => (ruleFailure checks output r.check).map fun m => ⟨r.ruleId, m⟩

def ofChecks (checks : List (String × Check)) : Verifier where
  verify output schema :=
    ⟨structuralFailures output schema.jsonSchema ++ ruleFailures checks output schema.rules⟩

def accepts (v : Verifier) (schema : OutputSchema) (output : Json) : Bool :=
  (v.verify output schema).passed

/-- Fails unless the output passes. -/
def ensure (v : Verifier) (schema : OutputSchema) (output : Json) : Except Error Unit :=
  if v.accepts schema output then .ok ()
  else .error (.outputValidation (v.verify output schema).summary)

theorem ensure_eq_ok_iff (v : Verifier) (schema : OutputSchema) (output : Json) :
    v.ensure schema output = .ok () ↔ v.accepts schema output = true := by
  unfold ensure
  split <;> simp_all

end Verifier

end Agents
