import Agents.Json.Basic
import Agents.Word

/-! # Decoding JSON into records

A record is read from an object, where unknown members are ignored, or from an array that lists
the values of its fields in order. A field is required, optional (absent or `null`), or has a
default for when it is absent.
-/

namespace Agents.Json

/-- Reads a value of a type, or refuses. -/
abbrev Decoder (α : Type) := Json → Option α

namespace Decoder

def any : Decoder Json := some

def string : Decoder String := Json.str?

def bool : Decoder Bool := Json.bool?

/-- A natural number below `2^bits`. -/
def word (bits : Nat) : Decoder Nat := fun json =>
  json.nat?.bind fun n => if n < Word.size bits then some n else none

def float : Decoder Float
  | .num (.int n) => some (Float.ofInt n)
  | .num (.float x) => some x
  | _ => none

def list {α : Type} (item : Decoder α) : Decoder (List α) := fun json =>
  json.arr?.bind fun items => items.mapM item

def map {α : Type} (value : Decoder α) : Decoder (List (String × α)) := fun json =>
  json.obj?.bind fun fields => fields.mapM fun (k, v) => (value v).map (k, ·)

/-- Absent when `null`. -/
def nullable {α : Type} (value : Decoder α) : Decoder (Option α) := fun json =>
  if json.isNull then some none else (value json).map some

def enum {α : Type} (names : List (String × α)) : Decoder α := fun json =>
  json.str?.bind fun name => names.lookup name

end Decoder

/-- The members of a record whose fields have these names in order. -/
def record (names : List String) : Decoder Fields
  | .obj fields => some fields
  | .arr items => if items.length ≤ names.length then some (names.zip items) else none
  | _ => none

namespace Fields

def required {α : Type} (key : String) (value : Decoder α) (fields : Fields) : Option α :=
  (get? key fields).bind value

/-- Absent when the member is missing or `null`. -/
def optional {α : Type} (key : String) (value : Decoder α) (fields : Fields) : Option (Option α) :=
  match get? key fields with
  | none => some none
  | some json => Decoder.nullable value json

/-- Takes the default when the member is missing. -/
def defaulted {α : Type} (key : String) (value : Decoder α) (default : α) (fields : Fields) :
    Option α :=
  match get? key fields with
  | none => some default
  | some json => value json

end Fields

/-! ## Encoding -/

/-- A member that is written only when it is present. -/
def member? {α : Type} (key : String) (encode : α → Json) : Option α → List (String × Json)
  | some a => [(key, encode a)]
  | none => []

/-- A list that is written only when it has elements. -/
def memberList? {α : Type} (key : String) (encode : α → Json) : List α → List (String × Json)
  | [] => []
  | as => [(key, .arr (as.map encode))]

def ofMap {α : Type} (encode : α → Json) (entries : List (String × α)) : Json :=
  ofMembers (entries.map fun (k, v) => (k, encode v))

end Agents.Json
