import Agents.Json.Parser
import Agents.Json.Printer
import Agents.Script.Access
import Agents.Script.Exchange
import Agents.Text.Blank
import Agents.Text.Case
import Agents.Text.Search
import Agents.Text.Utf8
import Agents.Word

/-! # Functions that every script has

A function is found by its name and the types of its arguments; for others it does not exist. Called
as a method it has the value before the point as its first argument. Some functions change that
argument, which `Effect` says.
-/

namespace Agents.Script

/-- What a function gives, and the new value of its first argument if it changes that. -/
structure Effect where
  value : Value
  first : Option Value := none

abbrev Effect? := Option (Except Fault Effect)

namespace Builtin

/-! ## What functions give -/

def give (v : Value) : Effect? := some (.ok ⟨v, none⟩)

def change (v : Value) : Effect? := some (.ok ⟨.unit, some v⟩)

def giveChanging (result v : Value) : Effect? := some (.ok ⟨result, some v⟩)

def refuse (reason : String) : Effect? := some (.error (.arithmetic reason))

def ofLength (n : Nat) : Value := .int n

def ofChars (s : List Char) : Value := .string (String.ofList s)

/-! ## Numbers -/

def digit? (c : Char) : Option Nat :=
  if '0' ≤ c ∧ c ≤ '9' then some (c.toNat - '0'.toNat)
  else if 'a' ≤ c ∧ c ≤ 'z' then some (c.toNat - 'a'.toNat + 10)
  else if 'A' ≤ c ∧ c ≤ 'Z' then some (c.toNat - 'A'.toNat + 10)
  else none

def natOfDigits? (radix : Nat) (s : List Char) : Option Nat :=
  s.foldlM (fun n c => do
    let d ← digit? c
    if d < radix then some (n * radix + d) else none) 0

/-- The integer that a text writes, or why it writes none. -/
def readInt (radix : Nat) (s : List Char) : Except String Int :=
  let digits (negative : Bool) (s : List Char) : Except String Int :=
    match natOfDigits? radix s with
    | none => .error "invalid digit found in string"
    | some n =>
      let n : Int := if negative then -n else n
      if inRange n then .ok n
      else
        .error ("number too " ++ (if negative then "small" else "large")
          ++ " to fit in target type")
  match s with
  | [] => .error "cannot parse integer from empty string"
  | ['+'] | ['-'] => .error "invalid digit found in string"
  | '+' :: rest => digits false rest
  | '-' :: rest => digits true rest
  | s => digits false s

def parseInt (s : String) (radix : Int) : Effect? :=
  if radix < 2 ∨ 36 < radix then refuse ("Invalid radix: '" ++ toString radix ++ "'")
  else
    match readInt radix.toNat (Text.trimChars s.toList) with
    | .ok n => give (.int n)
    | .error reason => refuse ("Error parsing integer number '" ++ s ++ "': " ++ reason)

/-- The number that a text writes: digits with at most one point and an exponent, or a name. -/
def readFloat? (s : List Char) : Option Float := do
  let (negative, s) := match s with
    | '-' :: rest => (true, rest)
    | '+' :: rest => (false, rest)
    | s => (false, s)
  let sign (x : Float) : Float := if negative then -x else x
  let name := s.map Char.toLower
  if name = "inf".toList ∨ name = "infinity".toList then return sign (1.0 / 0.0)
  if name = "nan".toList then return 0.0 / 0.0
  let isMantissa (c : Char) : Bool := c.isDigit || c = '.'
  let mantissa := s.takeWhile isMantissa
  let whole := mantissa.takeWhile (· ≠ '.')
  let fraction := (mantissa.dropWhile (· ≠ '.')).drop 1
  if whole = [] ∧ fraction = [] then none
  let digits ← natOfDigits? 10 (whole ++ fraction)
  let exponent ← match s.dropWhile isMantissa with
    | [] => some 0
    | e :: rest =>
      if e ≠ 'e' ∧ e ≠ 'E' then none
      else match rest with
        | '-' :: ds => if ds = [] then none else (natOfDigits? 10 ds).map fun n => -(n : Int)
        | '+' :: ds => if ds = [] then none else (natOfDigits? 10 ds).map fun n => (n : Int)
        | ds => if ds = [] then none else (natOfDigits? 10 ds).map fun n => (n : Int)
  let e := exponent - fraction.length
  return sign (if digits = 0 then 0.0
    else if e < -5000 - (digits.log2 : Int) then 0.0
    else if 5000 < e then 1.0 / 0.0
    else if e < 0 then Float.ofScientific digits true e.natAbs
    else Float.ofScientific digits false e.natAbs)

def parseFloat (s : String) : Effect? :=
  match readFloat? (Text.trimChars s.toList) with
  | some x => give (.float x)
  | none =>
    refuse ("Error parsing floating-point number '" ++ s ++ "': " ++
      (if (Text.trimChars s.toList) = [] then "cannot parse float from empty string"
        else "invalid float literal"))

def truncate (x : Float) : Float := if x < 0 then x.ceil else x.floor

def floatToInt (x : Float) : Effect? :=
  if x.isNaN then give (.int 0)
  else if truncate x > 9223372036854775807.0 || truncate x < -9223372036854775808.0 then
    let text := if x.isInf then Value.floatText x else Decimal.Layout.plain.text x
    refuse ("Integer overflow: to_int(" ++ text ++ ")")
  else
    let b := Decimal.magnitude (truncate x)
    let n : Nat := match b.exponent with
      | .ofNat e => b.mantissa <<< e
      | .negSucc e => b.mantissa >>> (e + 1)
    give (.int (if Decimal.isNegative x then -(n : Int) else min n (Word.size 63 - 1)))

/-- The byte with the low eight bits of an integer. -/
def byteOf (n : Int) : UInt8 := UInt8.ofNat (n % 256).toNat

def onInt (name : String) (n : Int) (rest : List Value) : Effect? :=
  match name, rest with
  | "abs", [] =>
    if inRange (-n) then give (.int n.natAbs) else refuse ("Negation overflow: -" ++ toString n)
  | "sign", [] => give (.int n.sign)
  | "is_zero", [] => give (.bool (n == 0))
  | "is_odd", [] => give (.bool (n % 2 == 1))
  | "is_even", [] => give (.bool (n % 2 == 0))
  | "to_float", [] => give (.float (Float.ofInt n))
  | "to_int", [] => give (.int n)
  | "max", [.int m] => give (.int (max n m))
  | "min", [.int m] => give (.int (min n m))
  | "max", [.float y] => give (.float (if Float.ofInt n < y then y else Float.ofInt n))
  | "min", [.float y] => give (.float (if y < Float.ofInt n then y else Float.ofInt n))
  | "range", [.int m] => give (.range n m false)
  | "blob", [] => give (.blob (List.replicate n.toNat 0))
  | "blob", [.int m] => give (.blob (List.replicate n.toNat (byteOf m)))
  | _, _ => none

def onFloat (name : String) (x : Float) (rest : List Value) : Effect? :=
  match name, rest with
  | "abs", [] => give (.float x.abs)
  | "sign", [] => give (.int (if x < 0 then -1 else if 0 < x then 1 else 0))
  | "is_zero", [] => give (.bool (x == 0))
  | "floor", [] => give (.float x.floor)
  | "ceiling", [] => give (.float x.ceil)
  | "round", [] => give (.float x.round)
  | "int", [] => give (.float (truncate x))
  | "fraction", [] => give (.float (x - truncate x))
  | "to_int", [] => floatToInt x
  | "to_float", [] => give (.float x)
  | "sqrt", [] => give (.float x.sqrt)
  | "exp", [] => give (.float x.exp)
  | "ln", [] => give (.float x.log)
  | "log", [] => give (.float x.log10)
  | "is_nan", [] => give (.bool x.isNaN)
  | "is_finite", [] => give (.bool x.isFinite)
  | "is_infinite", [] => give (.bool x.isInf)
  | "max", [.float y] => give (.float (if x < y then y else x))
  | "min", [.float y] => give (.float (if y < x then y else x))
  | "max", [.int m] => give (.float (if x < Float.ofInt m then Float.ofInt m else x))
  | "min", [.int m] => give (.float (if Float.ofInt m < x then Float.ofInt m else x))
  | _, _ => none

/-! ## Texts -/

/-- The position among `size` ones that a start names; a negative one counts from the end. -/
def startAt (size : Nat) (start : Int) : Nat :=
  if start < 0 then size - min size start.natAbs else start.toNat

def subString (s : List Char) (start length : Int) : List Char :=
  if length ≤ 0 then [] else (s.drop (startAt s.length start)).take length.toNat

def ofRange (first last : Int) (inclusive : Bool) : Int × Int :=
  let start := max first 0
  let stop := max (if inclusive then last + 1 else last) start
  (start, stop - start)

/-- The pieces between separators, of which the last one may hold separators. -/
def splitTimes (pattern s : List Char) (times : Nat) : List (List Char) :=
  let pieces := Text.splitAll pattern s
  if times = 0 then []
  else if pieces.length ≤ times then pieces
  else pieces.take (times - 1) ++ [((pieces.drop (times - 1)).intersperse pattern).flatten]

def pieces (ps : List (List Char)) : Effect? := give (.array (ps.map ofChars))

def pattern? : Value → Option (List Char)
  | .string t => some t.toList
  | .char c => some [c]
  | _ => none

def indexIn (start : Int) (pattern s : List Char) : Effect? :=
  let i := startAt s.length start
  if s = [] then give (.int (-1))
  else match Text.indexOf? pattern (s.drop i) with
    | some k => give (.int ((i + k : Nat) : Int))
    | none => give (.int (-1))

def padText (s : List Char) (length : Int) (padding : List Char) : List Char :=
  if length ≤ s.length ∨ padding = [] then s
  else
    let missing := length.toNat - s.length
    s ++ (List.replicate (missing / padding.length + 1) padding).flatten.take
      ((missing + padding.length - 1) / padding.length * padding.length)

def onString (name : String) (s : String) (rest : List Value) : Effect? :=
  let cs := s.toList
  match name, rest with
  | "len", [] => give (ofLength cs.length)
  | "is_empty", [] => give (.bool cs.isEmpty)
  | "bytes", [] => give (ofLength s.utf8ByteSize)
  | "to_upper", [] => give (.string (Text.toUpper s))
  | "to_lower", [] => give (.string (Text.toLower s))
  | "make_upper", [] => change (.string (Text.toUpper s))
  | "make_lower", [] => change (.string (Text.toLower s))
  | "trim", [] => change (.string (Text.trim s))
  | "chars", [] | "to_chars", [] => give (.array (cs.map .char))
  | "clear", [] => change (.string "")
  | "pop", [] =>
    match cs.getLast? with
    | some c => giveChanging (.char c) (ofChars cs.dropLast)
    | none => giveChanging .unit (.string s)
  | "pop", [.int n] =>
    if n ≤ 0 then giveChanging (.string "") (.string s)
    else
      let kept := cs.length - n.toNat
      giveChanging (ofChars (cs.drop kept)) (ofChars (cs.take kept))
  | "truncate", [.int n] => change (ofChars (cs.take n.toNat))
  | "get", [.int i] =>
    give (((Value.position? cs.length i).bind (cs[·]?)).elim .unit .char)
  | "set", [.int i, .char c] =>
    match Value.position? cs.length i with
    | some p => change (ofChars (cs.set p c))
    | none => change (.string s)
  | "sub_string", [.int start] => give (ofChars (subString cs start s.utf8ByteSize))
  | "sub_string", [.int start, .int length] => give (ofChars (subString cs start length))
  | "sub_string", [.range first last inclusive] =>
    let (start, length) := ofRange first last inclusive
    give (ofChars (subString cs start length))
  | "crop", [.int start] => change (ofChars (subString cs start s.utf8ByteSize))
  | "crop", [.int start, .int length] => change (ofChars (subString cs start length))
  | "crop", [.range first last inclusive] =>
    let (start, length) := ofRange first last inclusive
    change (ofChars (subString cs start length))
  | "split", [] => give (.array ((Text.words s).map .string))
  | "split", [.int i] =>
    let k := startAt cs.length i
    pieces [cs.take k, cs.drop k]
  | "pad", [.int n, p] => (pattern? p).bind fun p => change (ofChars (padText cs n p))
  | "append", [v] => change (.string (s ++ Operator.joinedText v))
  | "to_blob", [] => give (.blob s.toUTF8.toList)
  | "parse_int", [] => parseInt s 10
  | "parse_int", [.int radix] => parseInt s radix
  | "parse_float", [] => parseFloat s
  | name, [p] =>
    (pattern? p).bind fun p =>
      match name with
      | "contains" => give (.bool (Text.occursIn p cs))
      | "starts_with" => give (.bool (p.isPrefixOf cs))
      | "ends_with" => give (.bool (p.isSuffixOf cs))
      | "index_of" => indexIn 0 p cs
      | "split" => pieces (Text.splitAll p cs)
      | "split_rev" => pieces (Text.splitAll p cs).reverse
      | "remove" => change (ofChars (Text.replaceAll p [] cs))
      | _ => none
  | "index_of", [p, .int start] => (pattern? p).bind fun p => indexIn start p cs
  | "split", [p, .int n] => (pattern? p).bind fun p => pieces (splitTimes p cs (max n 1).toNat)
  | "replace", [p, r] => do
    let p ← pattern? p
    let r ← pattern? r
    change (ofChars (Text.replaceAll p r cs))
  | _, _ => none

def onChar (name : String) (c : Char) (rest : List Value) : Effect? :=
  match name, rest with
  | "to_upper", [] => give ((Text.upperChar c).head?.elim .unit .char)
  | "to_lower", [] => give ((Text.lowerChar c).head?.elim .unit .char)
  | "to_int", [] => give (.int c.toNat)
  | _, _ => none

/-! ## Arrays -/

/-- The position of the first item equal to a value; items of types without equality only match
values of other types. -/
def position (v : Value) (start : Nat) (items : List Value) : Except Fault (Option Nat) :=
  go start (items.drop start)
where
  go (i : Nat) : List Value → Except Fault (Option Nat)
    | [] => .ok none
    | item :: rest =>
      match Operator.same? item v with
      | none => .error (.functionNotFound (Value.signature "==" [item, v]))
      | some true => .ok (some i)
      | some false => go (i + 1) rest

/-- Sorts items of one type; those of a type without an order stay as they are. -/
def sortItems (items : List Value) : Except Fault (List Value) :=
  match items with
  | [] => .ok []
  | first :: _ =>
    if items.any fun v => v.typeName ≠ first.typeName then
      .error (.functionNotFound "sort() cannot be called with elements of different types")
    else
      .ok (items.mergeSort fun a b => ((Operator.order? a b).join.map Ordering.isLE).getD true)

/-- Leaves out items equal to the one before. -/
def dedup : List Value → List Value
  | a :: b :: rest =>
    if Operator.same? a b = some true then dedup (a :: rest) else a :: dedup (b :: rest)
  | items => items
termination_by items => items.length

def onArray (name : String) (items : List Value) (rest : List Value) : Effect? :=
  match name, rest with
  | "len", [] => give (ofLength items.length)
  | "is_empty", [] => give (.bool items.isEmpty)
  | "push", [v] => change (.array (items ++ [v]))
  | "append", [.array more] => change (.array (items ++ more))
  | "pop", [] => giveChanging (items.getLast?.getD .unit) (.array items.dropLast)
  | "shift", [] => giveChanging (items.head?.getD .unit) (.array (items.drop 1))
  | "insert", [.int i, v] =>
    let k := startAt items.length i
    change (.array (items.take k ++ v :: items.drop k))
  | "remove", [.int i] =>
    match Value.position? items.length i with
    | some p => giveChanging (items[p]?.getD .unit) (.array (items.eraseIdx p))
    | none => giveChanging .unit (.array items)
  | "get", [.int i] => give (((Value.position? items.length i).bind (items[·]?)).getD .unit)
  | "set", [.int i, v] =>
    match Value.position? items.length i with
    | some p => change (.array (items.set p v))
    | none => change (.array items)
  | "clear", [] => change (.array [])
  | "truncate", [.int n] => change (.array (items.take n.toNat))
  | "chop", [.int n] => change (.array (items.drop (items.length - n.toNat)))
  | "reverse", [] => change (.array items.reverse)
  | "dedup", [] => change (.array (dedup items))
  | "sort", [] => some ((sortItems items).map fun sorted => ⟨.unit, some (.array sorted)⟩)
  | "extract", [.int start] => give (.array (items.drop (startAt items.length start)))
  | "extract", [.int start, .int n] =>
    give (.array ((items.drop (startAt items.length start)).take n.toNat))
  | "extract", [.range first last inclusive] =>
    let (start, n) := ofRange first last inclusive
    give (.array ((items.drop start.toNat).take n.toNat))
  | "split", [.int i] =>
    let k := startAt items.length i
    giveChanging (.array (items.drop k)) (.array (items.take k))
  | "zip", [.array others] =>
    give (.array (List.zipWith (fun a b => .array [a, b]) items others))
  | "contains", [v] => some ((position v 0 items).map fun p => ⟨.bool p.isSome, none⟩)
  | "index_of", [v] =>
    some ((position v 0 items).map fun p => ⟨.int (p.elim (-1) Int.ofNat), none⟩)
  | "index_of", [v, .int start] =>
    some ((position v (startAt items.length start) items).map fun p =>
      ⟨.int (p.elim (-1) Int.ofNat), none⟩)
  | _, _ => none

/-! ## Blobs -/

def ofByte? (b : Option UInt8) : Value := .int (b.elim 0 fun b => b.toNat)

/-- The bytes that a value adds to a blob: its own, those of its text, or one. -/
def bytesOf? : Value → Option (List UInt8)
  | .blob bytes => some bytes
  | .string s => some s.toUTF8.toList
  | .char c => some c.toString.toUTF8.toList
  | .int n => some [byteOf n]
  | _ => none

def onBlob (name : String) (bytes : List UInt8) (rest : List Value) : Effect? :=
  match name, rest with
  | "len", [] => give (ofLength bytes.length)
  | "is_empty", [] => give (.bool bytes.isEmpty)
  | "contains", [.int n] => give (.bool (bytes.contains (byteOf n)))
  | "push", [.int n] => change (.blob (bytes ++ [byteOf n]))
  | "append", [v] => (bytesOf? v).bind fun more => change (.blob (bytes ++ more))
  | "pop", [] => giveChanging (ofByte? bytes.getLast?) (.blob bytes.dropLast)
  | "shift", [] => giveChanging (ofByte? bytes.head?) (.blob (bytes.drop 1))
  | "insert", [.int i, .int n] =>
    let k := startAt bytes.length i
    change (.blob (bytes.take k ++ byteOf n :: bytes.drop k))
  | "remove", [.int i] =>
    let k := startAt bytes.length i
    giveChanging (ofByte? bytes[k]?) (.blob (bytes.eraseIdx k))
  | "get", [.int i] => give (ofByte? bytes[startAt bytes.length i]?)
  | "set", [.int i, .int n] => change (.blob (bytes.set (startAt bytes.length i) (byteOf n)))
  | "clear", [] => change (.blob [])
  | "truncate", [.int n] => change (.blob (bytes.take n.toNat))
  | "chop", [.int n] => change (.blob (bytes.drop (bytes.length - n.toNat)))
  | "reverse", [] => change (.blob bytes.reverse)
  | "extract", [.int start] => give (.blob (bytes.drop (startAt bytes.length start)))
  | "extract", [.int start, .int n] =>
    give (.blob ((bytes.drop (startAt bytes.length start)).take n.toNat))
  | "extract", [.range first last inclusive] =>
    let (start, n) := ofRange first last inclusive
    give (.blob ((bytes.drop start.toNat).take n.toNat))
  | "split", [.int i] =>
    let k := startAt bytes.length i
    giveChanging (.blob (bytes.drop k)) (.blob (bytes.take k))
  | "to_array", [] => give (.array (bytes.map fun b => .int b.toNat))
  | "as_string", [] => give (.string (Text.Utf8.decode bytes))
  | _, _ => none

/-! ## Maps -/

def onObject (name : String) (members : List (String × Value)) (rest : List Value) : Effect? :=
  match name, rest with
  | "len", [] => give (ofLength members.length)
  | "is_empty", [] => give (.bool members.isEmpty)
  | "keys", [] => give (.array (members.map fun (k, _) => .string k))
  | "values", [] => give (.array (members.map (·.2)))
  | "contains", [.string k] => give (.bool (Value.Members.get? k members).isSome)
  | "get", [.string k] => give ((Value.Members.get? k members).getD .unit)
  | "set", [.string k, v] => change (.object (Value.Members.insert k v members))
  | "remove", [.string k] =>
    giveChanging ((Value.Members.get? k members).getD .unit)
      (.object (members.filter (·.1 ≠ k)))
  | "clear", [] => change (.object [])
  | "mixin", [.object more] =>
    change (.object (more.foldl (fun ms (k, v) => Value.Members.insert k v ms) members))
  | "fill_with", [.object more] =>
    change (.object (members.foldl (fun ms (k, v) => Value.Members.insert k v ms) more))
  | "to_json", [] => give (.string (Value.toPlainJson (.object members)).compact)
  | _, _ => none

def onRange (name : String) (first last : Int) (inclusive : Bool) (rest : List Value) : Effect? :=
  match name, rest with
  | "contains", [.int n] =>
    give (.bool (first ≤ n && (if inclusive then n ≤ last else n < last)))
  | "start", [] => give (.int first)
  | "end", [] => give (.int last)
  | "is_empty", [] => give (.bool (if inclusive then last < first else last ≤ first))
  | "is_inclusive", [] => give (.bool inclusive)
  | "is_exclusive", [] => give (.bool !inclusive)
  | _, _ => none

/-! ## All functions -/

/-- A function on arguments of the right types. -/
def call? (name : String) : List Value → Effect?
  | [] => if name = "blob" then give (.blob []) else none
  | first :: rest =>
    match name, rest with
    | "to_string", [] => give (.string first.text)
    | "to_debug", [] => give (.string first.inspect)
    | name, rest =>
      match first with
      | .int n => onInt name n rest
      | .float x => onFloat name x rest
      | .string s => onString name s rest
      | .char c => onChar name c rest
      | .array items => onArray name items rest
      | .blob bytes => onBlob name bytes rest
      | .object members => onObject name members rest
      | .range a b inclusive => onRange name a b inclusive rest
      | _ => none

/-- The functions that may also be written as a property, without brackets. -/
def properties : List String :=
  ["len", "is_empty", "bytes", "chars", "is_zero", "is_odd", "is_even", "floor", "ceiling", "round",
    "int", "fraction", "is_nan", "is_finite", "is_infinite", "start", "end", "is_inclusive",
    "is_exclusive"]

/-- A property of a value that is no map. -/
def property (name : String) (v : Value) : Except Fault Value :=
  match if properties.contains name then call? name [v] else none with
  | some result => result.map (·.value)
  | none => .error (.noGetter name v.typeName)

end Builtin

end Agents.Script
