import Agents.Proofs.Script.Exchange
import Agents.Script.Session

/-! # How many bytes a script begins with

Before a script starts, the size of the bytes in its arguments is estimated from the lengths of
their texts (`binarySize`). What is counted are the payloads of a value (`payloads`): the objects
whose only member is `$binary` with a text. The blobs inside the script come from the same payloads,
in the same order, less those that are no base64 (`blobs_ofJson`). Of each of the others the estimate
is its length and the padding, as every four symbols count for three bytes (`counted_of_spelled`).

So the estimate is never too low, and too high only by the padding and by what is no base64; and a
script only starts with as many bytes as its limit allows (`binarySize_bounds`).
-/

namespace Agents

open Script

namespace Text.Base64

/-- The bytes that a text counts for: three for every four of its own. -/
def counted (text : String) : Nat := text.utf8ByteSize / 4 * 3

/-- A canonical text counts for its bytes and its padding. -/
theorem counted_of_spelled {text : String} {bs : List UInt8} (h : Spelled text bs) :
    ∃ pads ≤ 2, counted text = bs.length + pads := by
  obtain ⟨ns, pads, hspells, hencode⟩ := encode_spells bs
  obtain rfl : text = encode bs := spelled_iff.mp h
  have hascii : ∀ c ∈ ns.map symbol ++ List.replicate pads '=', c.toNat < 128 := by
    rw [← String.ofList_injective hencode]
    exact fun c hc => (ascii_of_mem_encodeBytes hc).1
  have hbytes : (encode bs).utf8ByteSize = (encode bs).toUTF8.toList.length := by
    rw [toList_eq]
    rfl
  have hsize : (encode bs).utf8ByteSize = ns.length + pads := by
    rw [hbytes, hencode, bytes_ofList_ascii hascii]
    simp
  have hlength := hspells.length_eq
  refine ⟨pads, hspells.pads_le, ?_⟩
  rw [counted, hsize]
  omega

end Text.Base64

open Text.Base64 (counted)

namespace Script

/-! ## Payloads of JSON -/

mutual

/-- The texts of the payloads in a value, in order. What stands in a payload is none. -/
def payloads : Json → List String
  | .arr items => itemsPayloads items
  | .obj fields =>
    match soleText? binaryKey fields with
    | some text => [text]
    | none => fieldsPayloads fields
  | _ => []

def itemsPayloads : List Json → List String
  | [] => []
  | item :: rest => payloads item ++ itemsPayloads rest

def fieldsPayloads : List (String × Json) → List String
  | [] => []
  | (_, item) :: rest => payloads item ++ fieldsPayloads rest

end

def isDecodable (text : String) : Bool := (Text.Base64.decode? text).isSome

def countedSize (texts : List String) : Nat := (texts.map counted).sum

theorem countedSize_append (texts more : List String) :
    countedSize (texts ++ more) = countedSize texts + countedSize more := by
  rw [countedSize, List.map_append, List.sum_append]
  rfl

theorem itemsBinarySize_eq {items : List Json}
    (h : ∀ item ∈ items, binarySize item = countedSize (payloads item)) :
    itemsBinarySize items = countedSize (itemsPayloads items) := by
  induction items with
  | nil => rfl
  | cons item rest ih =>
    obtain ⟨hitem, hrest⟩ := List.forall_mem_cons.mp h
    rw [itemsBinarySize, itemsPayloads, countedSize_append, hitem, ih hrest]

theorem fieldsBinarySize_eq {fields : Json.Fields}
    (h : ∀ member ∈ fields, binarySize member.2 = countedSize (payloads member.2)) :
    fieldsBinarySize fields = countedSize (fieldsPayloads fields) := by
  induction fields with
  | nil => rfl
  | cons member rest ih =>
    obtain ⟨hmember, hrest⟩ := List.forall_mem_cons.mp h
    rw [fieldsBinarySize, fieldsPayloads, countedSize_append, hmember, ih hrest]

theorem binarySize_eq (v : Json) : binarySize v = countedSize (payloads v) := by
  induction v using Json.induct with
  | null | bool | num | str => rfl
  | arr items ih => exact itemsBinarySize_eq ih
  | obj fields ih =>
    rw [binarySize, payloads]
    cases soleText? binaryKey fields with
    | some text => exact (Nat.add_zero (counted text)).symm
    | none => exact fieldsBinarySize_eq ih

/-! ## Blobs of values -/

namespace Value

mutual

/-- The blobs in a value, in order; those that a function is bound to count, too. -/
def blobs : Value → List (List UInt8)
  | .blob bytes => [bytes]
  | .array items => itemsBlobs items
  | .object members => membersBlobs members
  | .function _ bound _ => itemsBlobs bound
  | _ => []

def itemsBlobs : List Value → List (List UInt8)
  | [] => []
  | v :: rest => blobs v ++ itemsBlobs rest

def membersBlobs : List (String × Value) → List (List UInt8)
  | [] => []
  | (_, v) :: rest => blobs v ++ membersBlobs rest

end

theorem itemsBlobs_map {items : List Json}
    (h : ∀ item ∈ items, (ofJson item).blobs = (payloads item).filterMap Text.Base64.decode?) :
    itemsBlobs (items.map ofJson) = (itemsPayloads items).filterMap Text.Base64.decode? := by
  induction items with
  | nil => rfl
  | cons item rest ih =>
    obtain ⟨hitem, hrest⟩ := List.forall_mem_cons.mp h
    rw [List.map_cons, itemsBlobs, itemsPayloads, List.filterMap_append, hitem, ih hrest]

theorem membersBlobs_map {fields : Json.Fields}
    (h : ∀ member ∈ fields,
      (ofJson member.2).blobs = (payloads member.2).filterMap Text.Base64.decode?) :
    membersBlobs (fields.map fun member => (member.1, ofJson member.2)) =
      (fieldsPayloads fields).filterMap Text.Base64.decode? := by
  induction fields with
  | nil => rfl
  | cons member rest ih =>
    obtain ⟨hmember, hrest⟩ := List.forall_mem_cons.mp h
    rw [List.map_cons, membersBlobs, fieldsPayloads, List.filterMap_append, hmember, ih hrest]

/-- The blobs inside a script are the payloads that are base64. A payload that is none becomes a map
with a text in it, and so no blob. -/
theorem blobs_ofJson (v : Json) :
    (ofJson v).blobs = (payloads v).filterMap Text.Base64.decode? := by
  induction v using Json.induct with
  | null | bool | str => rfl
  | num n =>
    cases n with
    | int n =>
      rw [ofJson]
      split <;> rfl
    | float x => rfl
  | arr items ih =>
    rw [ofJson, ofJsonItems_eq]
    exact itemsBlobs_map ih
  | obj fields ih =>
    rw [payloads]
    cases hsole : soleText? binaryKey fields with
    | none =>
      rw [ofJson, hsole, ofJsonFields_eq]
      exact membersBlobs_map ih
    | some text =>
      obtain rfl := soleText?_eq_some_iff.mp hsole
      rw [ofJson, hsole, Option.bind_some, List.filterMap_cons]
      cases Text.Base64.decode? text with
      | none => rfl
      | some bytes => rfl

end Value

/-! ## What is counted and what comes of it -/

def totalBytes (blobs : List (List UInt8)) : Nat := (blobs.map List.length).sum

/-- What is counted are the bytes, the padding, and what is no base64. -/
theorem countedSize_cases (texts : List String) :
    totalBytes (texts.filterMap Text.Base64.decode?) ≤ countedSize texts ∧
      countedSize texts ≤ totalBytes (texts.filterMap Text.Base64.decode?)
        + 2 * (texts.filter isDecodable).length
        + countedSize (texts.filter fun text => !isDecodable text) := by
  induction texts with
  | nil => exact ⟨Nat.le_refl 0, Nat.le_refl 0⟩
  | cons text rest ih =>
    obtain ⟨hlow, hhigh⟩ := ih
    have hcons (texts : List String) : countedSize (text :: texts) =
        counted text + countedSize texts := List.sum_cons
    cases hdecode : Text.Base64.decode? text with
    | none =>
      have hnot : isDecodable text = false := by rw [isDecodable, hdecode]; rfl
      rw [List.filterMap_cons_none hdecode, List.filter_cons_of_neg (by simp [hnot]),
        List.filter_cons_of_pos (by simp [hnot]), hcons, hcons]
      omega
    | some bytes =>
      have hyes : isDecodable text = true := by rw [isDecodable, hdecode]; rfl
      obtain ⟨pads, hpads, hcounted⟩ :=
        Text.Base64.counted_of_spelled (decode?_eq_some_iff.mp hdecode)
      have htotal : totalBytes (bytes :: rest.filterMap Text.Base64.decode?) =
          bytes.length + totalBytes (rest.filterMap Text.Base64.decode?) := List.sum_cons
      rw [List.filterMap_cons_some hdecode, List.filter_cons_of_pos hyes,
        List.filter_cons_of_neg (by simp [hyes]), hcons, htotal, List.length_cons]
      omega

/-! ## Starting -/

def scopeOf (arguments : Json.Fields) : List Variable :=
  arguments.map fun (name, v) => { name, value := .ofJson v }

def scopeBlobs (scope : List Variable) : List (List UInt8) :=
  scope.flatMap (·.value.blobs)

def interpret (l : SandboxLimits) (code : String) (s : State) :
    Interaction l.capabilitySet (Except Error Outcome) :=
  let limits := Limits.ofSandbox l
  match Program.ofText limits.sizes code with
  | .error fault => .done (.error (.script ⟨⟨"SyntaxError", fault.message⟩, []⟩))
  | .ok program =>
    let program := Simplify.program program
    let setting : Setting :=
      ⟨program.functions, limits, l.allowedModules.filterMap Library.ofName?⟩
    Outcome.ofEnd l <$> (Eval.program setting program.body).run.run s

def startState (arguments : Json.Fields) : State := { scope := (scopeOf arguments).reverse }

/-- Starting a script is interpreting it in that state. -/
theorem start_eq (l : SandboxLimits) (code : String) (arguments : Json.Fields) :
    start l code arguments = interpret l code (startState arguments) := rfl

theorem scopeBlobs_scopeOf (arguments : Json.Fields) : scopeBlobs (scopeOf arguments) =
    (fieldsPayloads arguments).filterMap Text.Base64.decode? := by
  induction arguments with
  | nil => rfl
  | cons member rest ih =>
    have hcons : scopeBlobs (scopeOf (member :: rest)) =
        (Value.ofJson member.2).blobs ++ scopeBlobs (scopeOf rest) := List.flatMap_cons
    rw [hcons, ih, Value.blobs_ofJson, fieldsPayloads, List.filterMap_append]

theorem totalBytes_startState (arguments : Json.Fields) :
    totalBytes (scopeBlobs (startState arguments).scope) =
      totalBytes (scopeBlobs (scopeOf arguments)) :=
  (((List.reverse_perm (scopeOf arguments)).flatMap_right _).map _).sum_nat

/-- **Bytes are never counted too low.** What the arguments of a script count for is at least the
number of bytes of all blobs that they become, at any depth. It is more by at most two bytes for
every payload that is base64 and by what the other payloads count for. A script whose imports are
not allowed, or whose arguments count for more than the limit, is refused before it starts; any
other starts with variables whose blobs hold no more bytes than the limit. -/
theorem binarySize_bounds (l : SandboxLimits) (code : String) (arguments : Json.Fields)
    {m : Type → Type} [Monad m] (handle : HostCall → m (Option (Except Error Json))) :
    totalBytes (scopeBlobs (scopeOf arguments)) ≤ fieldsBinarySize arguments ∧
    fieldsBinarySize arguments ≤ totalBytes (scopeBlobs (scopeOf arguments))
      + 2 * ((fieldsPayloads arguments).filter isDecodable).length
      + countedSize ((fieldsPayloads arguments).filter fun text => !isDecodable text) ∧
    ((∃ e, (checkImports code l.allowedModules = .error e ∨
        l.memoryLimitBytes < fieldsBinarySize arguments ∧ e = memoryExceeded l) ∧
        run l code arguments handle = pure (.error e)) ∨
      (run l code arguments handle = do
        return (← (interpret l code (startState arguments)).serve handle (timeExceeded l)).bind id) ∧
      totalBytes (scopeBlobs (startState arguments).scope) ≤ l.memoryLimitBytes) := by
  have hsize : fieldsBinarySize arguments = countedSize (fieldsPayloads arguments) :=
    fieldsBinarySize_eq fun member _ => binarySize_eq member.2
  obtain ⟨hlow, hhigh⟩ := countedSize_cases (fieldsPayloads arguments)
  rw [← scopeBlobs_scopeOf, ← hsize] at hlow hhigh
  refine ⟨hlow, hhigh, ?_⟩
  unfold run
  cases himports : checkImports code l.allowedModules with
  | error e => exact .inl ⟨e, .inl rfl, rfl⟩
  | ok _ =>
    by_cases hlimit : l.memoryLimitBytes < fieldsBinarySize arguments
    · exact .inl ⟨memoryExceeded l, .inr ⟨hlimit, rfl⟩, if_pos hlimit⟩
    · refine .inr ⟨?_, ?_⟩
      · rw [← start_eq]
        exact if_neg hlimit
      · rw [totalBytes_startState]
        exact hlow.trans (Nat.le_of_not_lt hlimit)

/-- One byte may count for three, and what is no base64 counts without becoming a blob. -/
example : let arguments : Json.Fields := [("a", .arr [.obj [("$binary", "YQ==")]]),
    ("b", .obj [("$binary", "YQ==YQ==")]), ("c", .obj [("$binary", "YQ=="), ("d", .null)])]
    fieldsBinarySize arguments = 9 ∧ totalBytes (scopeBlobs (scopeOf arguments)) = 1 ∧
      fieldsPayloads arguments = ["YQ==", "YQ==YQ=="] := by
  decide +kernel

end Script

end Agents
