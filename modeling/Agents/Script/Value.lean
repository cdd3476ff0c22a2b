import Agents.Json.Basic
import Agents.Json.Printer
import Agents.Script.Syntax
import Agents.Text.Quoted

/-! # Values of scripts

Maps are kept in ascending order of their keys. A function carries the arguments it is already
bound to; a closure also carries its body. A variable that a closure captured holds a reference to
a cell, which the closure shares.
-/

namespace Agents.Script

inductive Value where
  | unit
  | bool (value : Bool)
  | int (value : Int)
  | float (value : Float)
  | char (value : Char)
  | string (value : String)
  | blob (bytes : List UInt8)
  | array (items : List Value)
  | object (members : List (String × Value))
  | range (first last : Int) (inclusive : Bool)
  /-- A function by its name; a closure has parameters and a body of its own. -/
  | function (name : String) (bound : List Value) (closure : Option (List String × Stmt))
  | stream (id : Nat)
  | shared (cell : Nat)
deriving Inhabited

namespace Value

def ofLiteral : Literal → Value
  | .unit => .unit
  | .bool b => .bool b
  | .int n => .int n
  | .float x => .float x
  | .char c => .char c
  | .string s => .string s

def toLiteral? : Value → Option Literal
  | .unit => some .unit
  | .bool b => some (.bool b)
  | .int n => some (.int n)
  | .float x => some (.float x)
  | .char c => some (.char c)
  | .string s => some (.string s)
  | _ => none

/-! ## Types -/

def typeName : Value → String
  | .unit => "()"
  | .bool _ => "bool"
  | .int _ => "i64"
  | .float _ => "f64"
  | .char _ => "char"
  | .string _ => "string"
  | .blob _ => "blob"
  | .array _ => "array"
  | .object _ => "map"
  | .range _ _ false => "range"
  | .range _ _ true => "range="
  | .function .. => "Fn"
  | .stream _ => "Stream"
  | .shared _ => "shared"

/-- The type as the signature of a call names it. -/
def signatureType : Value → String
  | .string _ => "&str | ImmutableString | String"
  | v => v.typeName

/-- A call with the types of its arguments. -/
def signature (function : String) (arguments : List Value) : String :=
  function ++ " (" ++ ", ".intercalate (arguments.map signatureType) ++ ")"

/-! ## Text -/

/-- Doubles are positional from `1e-7` to `1e13`, in both cases up to the accuracy of a
single-precision number, and end in `.0` when whole; a zero has no sign. -/
def floatText (x : Float) : String :=
  let layout (least limit : Int) (pointZero : Bool) : Decimal.Layout :=
    { least, limit, plus := "", pointZero, zero := "0.0", signedZero := false }
  if x.isNaN then "NaN"
  else if x.isInf then (if x < 0 then "-inf" else "inf")
  else if x == 0 then "0.0"
  else if x.abs > 9999999827968.0 || x.abs < 0.00000010000000116860974 then
    (layout 1 0 false).text x
  else (layout (-400) 400 true).text x

/-- The bytes of a blob in hexadecimal, with a blank after every eighth. -/
def blobText (bytes : List UInt8) : String :=
  let byte (b : UInt8) : List Char := [Nat.digitChar (b.toNat / 16), Nat.digitChar (b.toNat % 16)]
  String.ofList ('[' :: (bytes.mapIdx fun i b =>
    if i ≠ 0 ∧ i % 8 = 0 then ' ' :: byte b else byte b).flatten ++ [']'])

def functionText (name : String) : String := "Fn(" ++ name ++ ")"

mutual

/-- The text of a value as a part of another one: strings are quoted. -/
def inspect : Value → String
  | .unit => "()"
  | .bool b => if b then "true" else "false"
  | .int n => toString n
  | .float x => floatText x
  | .char c => Text.quotedChar c
  | .string s => Text.quoted s
  | .blob bytes => blobText bytes
  | .array items => "[" ++ inspectItems items ++ "]"
  | .object members => "#\x7b" ++ inspectMembers members ++ "\x7d"
  | .range first last inclusive =>
    toString first ++ (if inclusive then "..=" else "..") ++ toString last
  | .function name _ _ => functionText name
  | .stream _ => "Stream"
  | .shared _ => "shared"

def inspectItems : List Value → String
  | [] => ""
  | [v] => inspect v
  | v :: w :: rest => inspect v ++ ", " ++ inspectItems (w :: rest)

def inspectMembers : List (String × Value) → String
  | [] => ""
  | [(k, v)] => Text.quoted k ++ ": " ++ inspect v
  | (k, v) :: w :: rest => Text.quoted k ++ ": " ++ inspect v ++ ", " ++ inspectMembers (w :: rest)

end

/-- The text of a value on its own. -/
def text : Value → String
  | .unit => ""
  | .char c => toString c
  | .string s => s
  | v => v.inspect

/-! ## Maps -/

namespace Members

def get? (key : String) : List (String × Value) → Option Value
  | [] => none
  | (k, v) :: rest => if k = key then some v else get? key rest

def insert (key : String) (value : Value) : List (String × Value) → List (String × Value)
  | [] => [(key, value)]
  | (k, v) :: rest =>
    if key < k then (key, value) :: (k, v) :: rest
    else if k = key then (key, value) :: rest
    else (k, v) :: insert key value rest

def ofList (members : List (String × Value)) : List (String × Value) :=
  members.foldl (fun ms (k, v) => insert k v ms) []

end Members

/-! ## Size -/

/-- How much a value holds: elements of arrays and blobs, members of maps, bytes of strings. -/
structure Size where
  items : Nat := 0
  members : Nat := 0
  bytes : Nat := 0
deriving DecidableEq, Repr, Inhabited

mutual

/-- Adds a value with everything in it to what was counted before. -/
def addTo (total : Size) : Value → Size
  | .string s => { total with bytes := total.bytes + s.utf8ByteSize }
  | .blob bytes => { total with items := total.items + bytes.length }
  | .array items => addItemsTo { total with items := total.items + items.length } items
  | .object members =>
    addMembersTo { total with members := total.members + members.length } members
  | _ => total

def addItemsTo (total : Size) : List Value → Size
  | [] => total
  | v :: rest => addItemsTo (addTo total v) rest

def addMembersTo (total : Size) : List (String × Value) → Size
  | [] => total
  | (_, v) :: rest => addMembersTo (addTo total v) rest

end

def size (v : Value) : Size := addTo {} v

end Value

end Agents.Script
