import Agents.Json.Basic
import Agents.Json.Pointer
import Agents.Script.Operator
import Agents.Text.Base64

/-! # Exchange of values between scripts and their host

Outside of scripts values are JSON. Bytes cross as `{"$binary": "<base64>"}` and are a blob inside a
script. A stream in a result is replaced by `{"$stream": "<path>"}`, where the path is the JSON
pointer to that place; other values that JSON does not have cross as their text.
-/

namespace Agents.Script

def binaryKey : String := "$binary"

def streamKey : String := "$stream"

/-- The text of the only member of an object, if that has this name. -/
def soleText? (key : String) : Json.Fields → Option String
  | [(k, .str s)] => if k = key then some s else none
  | _ => none

/-! ## Into a script -/

namespace Value

mutual

/-- The value of JSON inside a script; an integer of more than 63 bits becomes a double. -/
def ofJson : Json → Value
  | .null => .unit
  | .bool b => .bool b
  | .num (.int n) => if inRange n then .int n else .float (Float.ofInt n)
  | .num (.float x) => .float x
  | .str s => .string s
  | .arr items => .array (ofJsonItems items)
  | .obj fields =>
    match (soleText? binaryKey fields).bind Text.Base64.decode? with
    | some bytes => .blob bytes
    | none => .object (ofJsonFields fields)

def ofJsonItems : List Json → List Value
  | [] => []
  | item :: rest => ofJson item :: ofJsonItems rest

def ofJsonFields : List (String × Json) → List (String × Value)
  | [] => []
  | (k, item) :: rest => (k, ofJson item) :: ofJsonFields rest

end

/-! ## Out of a script -/

mutual

/-- The JSON of a value that stands at a path. -/
def toJson (path : List String) : Value → Json
  | .unit => .null
  | .bool b => .bool b
  | .int n => Json.ofInt n
  | .float x => Json.ofFloat x
  | .char c => .str (toString c)
  | .string s => .str s
  | .blob bytes => .obj [(binaryKey, .str (Text.Base64.encode bytes))]
  | .array items => .arr (toJsonItems path 0 items)
  | .object members => .obj (toJsonMembers path members)
  | .stream _ => .obj [(streamKey, .str (Json.Pointer.ofTokens path))]
  | v => .str v.text

def toJsonItems (path : List String) (index : Nat) : List Value → List Json
  | [] => []
  | v :: rest => toJson (path ++ [toString index]) v :: toJsonItems path (index + 1) rest

def toJsonMembers (path : List String) : List (String × Value) → List (String × Json)
  | [] => []
  | (k, v) :: rest => (k, toJson (path ++ [k]) v) :: toJsonMembers path rest

end

mutual

/-- The streams in a value that stands at a path, with their own paths, in order. -/
def streams (path : List String) : Value → List (List String × Nat)
  | .array items => itemStreams path 0 items
  | .object members => memberStreams path members
  | .stream id => [(path, id)]
  | _ => []

def itemStreams (path : List String) (index : Nat) : List Value → List (List String × Nat)
  | [] => []
  | v :: rest => streams (path ++ [toString index]) v ++ itemStreams path (index + 1) rest

def memberStreams (path : List String) : List (String × Value) → List (List String × Nat)
  | [] => []
  | (k, v) :: rest => streams (path ++ [k]) v ++ memberStreams path rest

end

end Value

mutual

/-- JSON with `null` in the place of every object that stands for a stream. -/
def withoutStreams : Json → Json
  | .arr items => .arr (itemsWithoutStreams items)
  | .obj [(k, v)] => if k = streamKey then .null else .obj [(k, withoutStreams v)]
  | .obj fields => .obj (fieldsWithoutStreams fields)
  | json => json

def itemsWithoutStreams : List Json → List Json
  | [] => []
  | item :: rest => withoutStreams item :: itemsWithoutStreams rest

def fieldsWithoutStreams : List (String × Json) → List (String × Json)
  | [] => []
  | (k, item) :: rest => (k, withoutStreams item) :: fieldsWithoutStreams rest

end

/-- The JSON of a value where streams have no place, such as an argument of a call. -/
def Value.toPlainJson (v : Value) : Json :=
  if (v.streams []).isEmpty then v.toJson [] else withoutStreams (v.toJson [])

/-! ## What JSON holds -/

mutual

/-- The bytes that the payloads in a value decode to, at most. -/
def binarySize : Json → Nat
  | .arr items => itemsBinarySize items
  | .obj fields =>
    match soleText? binaryKey fields with
    | some text => text.utf8ByteSize / 4 * 3
    | none => fieldsBinarySize fields
  | _ => 0

def itemsBinarySize : List Json → Nat
  | [] => 0
  | item :: rest => binarySize item + itemsBinarySize rest

def fieldsBinarySize : List (String × Json) → Nat
  | [] => 0
  | (_, item) :: rest => binarySize item + fieldsBinarySize rest

end

mutual

/-- The paths that a value names as those of streams, in order. -/
def streamPaths : Json → List String
  | .arr items => itemsStreamPaths items
  | .obj fields =>
    match soleText? streamKey fields with
    | some path => [path]
    | none => fieldsStreamPaths fields
  | _ => []

def itemsStreamPaths : List Json → List String
  | [] => []
  | item :: rest => streamPaths item ++ itemsStreamPaths rest

def fieldsStreamPaths : List (String × Json) → List String
  | [] => []
  | (_, item) :: rest => streamPaths item ++ fieldsStreamPaths rest

end

end Agents.Script
