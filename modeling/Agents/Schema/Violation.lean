import Agents.Binding
import Agents.Json.Numeric
import Agents.Json.Pointer
import Agents.Json.Printer

/-! # Violations of a schema

A violation names a place in the value and the demand that the value there fails.
-/

namespace Agents.Schema

/-- The types of JSON values, in the order of their names. -/
inductive PrimitiveType where
  | array
  | boolean
  | integer
  | null
  | number
  | object
  | string
deriving DecidableEq, Repr, Inhabited

namespace PrimitiveType

def all : List PrimitiveType := [.array, .boolean, .integer, .null, .number, .object, .string]

def name : PrimitiveType → String
  | .array => "array"
  | .boolean => "boolean"
  | .integer => "integer"
  | .null => "null"
  | .number => "number"
  | .object => "object"
  | .string => "string"

def ofName? (name : String) : Option PrimitiveType := all.find? (·.name = name)

/-- Whether a value is of a type; a whole double is an integer, and an integer is a number. -/
def admits : PrimitiveType → Json → Bool
  | .array, .arr _ | .boolean, .bool _ | .null, .null | .number, .num _ | .object, .obj _
  | .string, .str _ => true
  | .integer, .num n => n.isWhole
  | _, _ => false

end PrimitiveType

inductive Bound where
  | maximum
  | exclusiveMaximum
  | minimum
  | exclusiveMinimum
deriving DecidableEq, Repr, Inhabited

def Bound.admits : Bound → (limit : Json.Number) → Json.Number → Bool
  | .maximum, limit, n => !limit.lt n
  | .exclusiveMaximum, limit, n => n.lt limit
  | .minimum, limit, n => !n.lt limit
  | .exclusiveMinimum, limit, n => limit.lt n

/-- The extent of a value that a schema can limit. -/
inductive Extent where
  | characters
  | items
  | properties
deriving DecidableEq, Repr, Inhabited

def Extent.of? : Extent → Json → Option Nat
  | .characters, .str s => some s.length
  | .items, .arr elements => some elements.length
  | .properties, .obj fields => some fields.length
  | _, _ => none

def Extent.count (n : Nat) : Extent → String
  | .characters => toString n ++ (if n = 1 then " character" else " characters")
  | .items => toString n ++ (if n = 1 then " item" else " items")
  | .properties => toString n ++ (if n = 1 then " property" else " properties")

/-- A demand that a value fails. -/
inductive Demand where
  | nothing
  | types (types : List PrimitiveType)
  | constant (expected : Json)
  | enumeration (options : List Json)
  | bound (kind : Bound) (limit : Json.Number)
  | multipleOf (divisor : Json.Number)
  | atLeast (extent : Extent) (count : Nat)
  | atMost (extent : Extent) (count : Nat)
  | distinct
  | required (property : String)
  | onlyKnown (unexpected : List String)
  | anyOf
  | oneOfNone
  | oneOfSeveral
  | not (schema : Json)

def Demand.complaint (value : Json) : Demand → String
  | .nothing => "False schema does not allow " ++ value.compact
  | .types [single] => value.compact ++ " is not of type \"" ++ single.name ++ "\""
  | .types several =>
    let named := (PrimitiveType.all.filter several.contains).map fun t => "\"" ++ t.name ++ "\""
    value.compact ++ " is not of types " ++ ", ".intercalate named
  | .constant expected => expected.compact ++ " was expected"
  | .enumeration options => value.compact ++ " is not one of " ++ (Json.arr options).compact
  | .bound .maximum limit => value.compact ++ " is greater than the maximum of " ++ limit.text
  | .bound .exclusiveMaximum limit =>
    value.compact ++ " is greater than or equal to the maximum of " ++ limit.text
  | .bound .minimum limit => value.compact ++ " is less than the minimum of " ++ limit.text
  | .bound .exclusiveMinimum limit =>
    value.compact ++ " is less than or equal to the minimum of " ++ limit.text
  | .multipleOf divisor =>
    value.compact ++ " is not a multiple of " ++ Decimal.Layout.plain.text divisor.toFloat
  | .atLeast .characters n =>
    value.compact ++ " is shorter than " ++ Extent.count n .characters
  | .atLeast extent n => value.compact ++ " has less than " ++ extent.count n
  | .atMost .characters n => value.compact ++ " is longer than " ++ Extent.count n .characters
  | .atMost extent n => value.compact ++ " has more than " ++ extent.count n
  | .distinct => value.compact ++ " has non-unique elements"
  | .required property => Json.quote property ++ " is a required property"
  | .onlyKnown unexpected =>
    "Additional properties are not allowed ("
      ++ ", ".intercalate (unexpected.map fun name => "'" ++ name ++ "'")
      ++ (if unexpected.length = 1 then " was unexpected)" else " were unexpected)")
  | .anyOf =>
    value.compact ++ " is not valid under any of the schemas listed in the 'anyOf' keyword"
  | .oneOfNone =>
    value.compact ++ " is not valid under any of the schemas listed in the 'oneOf' keyword"
  | .oneOfSeveral =>
    value.compact
      ++ " is valid under more than one of the schemas listed in the 'oneOf' keyword"
  | .not schema => schema.compact ++ " is not allowed for " ++ value.compact

structure Violation where
  path : List PathStep
  value : Json
  demand : Demand

def Violation.pointer (v : Violation) : String :=
  Json.Pointer.ofTokens (v.path.map fun
    | .index i => toString i
    | .key k => k)

def Violation.complaint (v : Violation) : String := v.demand.complaint v.value

end Agents.Schema
