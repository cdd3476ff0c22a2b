import Agents.Schema.Violation

/-! # JSON schemas

A schema is a list of keywords, each a demand on a value; a value that a keyword is not about
meets it. A document is read into a schema, or refused with the first of its parts that is no
schema. The keywords stand in the order of their names, which is the order in which their
violations are reported. Keywords that are not listed here demand nothing.
-/

namespace Agents

mutual

inductive Schema where
  | always
  | never
  | all (keywords : List Schema.Keyword)

inductive Schema.Keyword where
  | types (types : List Schema.PrimitiveType)
  | constant (expected : Json)
  | enumeration (options : List Json)
  | bound (kind : Schema.Bound) (limit : Json.Number)
  | multipleOf (divisor : Json.Number)
  | atLeast (extent : Schema.Extent) (count : Nat)
  | atMost (extent : Schema.Extent) (count : Nat)
  | distinct
  | required (names : List String)
  | items (each : Schema)
  /-- The members that are listed have schemas of their own. -/
  | properties (known : List (String × Schema))
  /-- The members that are not listed follow `rest`. -/
  | additional (known : List (String × Schema)) (rest : Schema)
  | allOf (schemas : List Schema)
  | anyOf (schemas : List Schema)
  | oneOf (schemas : List Schema)
  | not (schema : Schema) (json : Json)

end

instance : Inhabited Schema := ⟨.always⟩

namespace Schema

/-! ## Equality of values

Members of objects are compared by key, numbers by value. -/

mutual

def same : Json → Json → Bool
  | .null, .null => true
  | .bool a, .bool b => a == b
  | .num a, .num b => a.same b
  | .str a, .str b => a == b
  | .arr as, .arr bs => sameItems as bs
  | .obj as, .obj bs => sameMembers as bs
  | _, _ => false

def sameItems : List Json → List Json → Bool
  | [], [] => true
  | a :: as, b :: bs => same a b && sameItems as bs
  | _, _ => false

def sameMembers : List (String × Json) → List (String × Json) → Bool
  | [], [] => true
  | (k, a) :: as, (l, b) :: bs => k == l && same a b && sameMembers as bs
  | _, _ => false

end

def allDistinct : List Json → Bool
  | [] => true
  | item :: rest => !rest.any (same item) && allDistinct rest

/-! ## Checking a value -/

/-- A violation at this place, unless the demand is met. -/
def demand (met : Bool) (path : List PathStep) (value : Json) (d : Demand) : List Violation :=
  if met then [] else [⟨path, value, d⟩]

mutual

def check (path : List PathStep) (value : Json) : Schema → List Violation
  | .always => []
  | .never => demand false path value .nothing
  | .all keywords => checkKeywords path value keywords

def checkKeywords (path : List PathStep) (value : Json) : List Keyword → List Violation
  | [] => []
  | keyword :: rest => checkKeyword path value keyword ++ checkKeywords path value rest

def checkKeyword (path : List PathStep) (value : Json) : Keyword → List Violation
  | .types ts => demand (ts.any (·.admits value)) path value (.types ts)
  | .constant expected => demand (same value expected) path value (.constant expected)
  | .enumeration options => demand (options.any (same value)) path value (.enumeration options)
  | .bound b limit =>
    match value with
    | .num n => demand (b.admits limit n) path value (.bound b limit)
    | _ => []
  | .multipleOf divisor =>
    match value with
    | .num n => demand (n.isMultipleOf divisor) path value (.multipleOf divisor)
    | _ => []
  | .atLeast extent count =>
    demand ((extent.of? value).all (count ≤ ·)) path value (.atLeast extent count)
  | .atMost extent count =>
    demand ((extent.of? value).all (· ≤ count)) path value (.atMost extent count)
  | .distinct =>
    match value with
    | .arr items => demand (allDistinct items) path value .distinct
    | _ => []
  | .required names =>
    match value with
    | .obj fields => names.flatMap fun name =>
        demand (Json.Fields.get? name fields).isSome path value (.required name)
    | _ => []
  | .items each =>
    match value with
    | .arr items => items.zipIdx.flatMap fun (item, i) => check (path ++ [.index i]) item each
    | _ => []
  | .properties known =>
    match value with
    | .obj fields => checkKnown path fields known
    | _ => []
  | .additional known rest =>
    match value with
    | .obj fields =>
      match known, rest with
      | [], .never =>
        (fields.take 1).flatMap fun (_, first) => demand false path first .nothing
      | known, .never =>
        let unexpected := fields.filter fun (name, _) => (known.lookup name).isNone
        checkKnown path fields known
          ++ demand unexpected.isEmpty path value (.onlyKnown (unexpected.map (·.1)))
      | known, rest =>
        fields.flatMap fun (name, member) =>
          (checkMember path name member known).getD (check (path ++ [.key name]) member rest)
    | _ => []
  | .allOf schemas => checkAll path value schemas
  | .anyOf schemas => demand (countMet value schemas ≠ 0) path value .anyOf
  | .oneOf schemas =>
    match countMet value schemas with
    | 0 => demand false path value .oneOfNone
    | 1 => []
    | _ => demand false path value .oneOfSeveral
  | .not schema json => demand (!(check [] value schema).isEmpty) path value (.not json)

/-- The violations by the listed members that are there. -/
def checkKnown (path : List PathStep) (fields : Json.Fields) :
    List (String × Schema) → List Violation
  | [] => []
  | (name, schema) :: rest =>
    (match Json.Fields.get? name fields with
      | some member => check (path ++ [.key name]) member schema
      | none => []) ++ checkKnown path fields rest

def checkMember (path : List PathStep) (name : String) (member : Json) :
    List (String × Schema) → Option (List Violation)
  | [] => none
  | (known, schema) :: rest =>
    if known = name then some (check (path ++ [.key name]) member schema)
    else checkMember path name member rest

def checkAll (path : List PathStep) (value : Json) : List Schema → List Violation
  | [] => []
  | schema :: rest => check path value schema ++ checkAll path value rest

def countMet (value : Json) : List Schema → Nat
  | [] => 0
  | schema :: rest => (if (check [] value schema).isEmpty then 1 else 0) + countMet value rest

end

def violations (schema : Schema) (value : Json) : List Violation := check [] value schema

/-! ## Reading a document -/

/-- A part of a document that is no schema. -/
structure Fault where
  part : Json
  demand : Demand

def Fault.message (f : Fault) : String := f.demand.complaint f.part

/-- Either keywords over parts of a value, which are checked first, or keywords over the value. -/
structure Entry where
  isApplicator : Bool
  keyword : Except Fault (Option Keyword)

namespace Entry

def fault (isApplicator : Bool) (part : Json) (d : Demand) : Entry :=
  ⟨isApplicator, .error ⟨part, d⟩⟩

def applicator (keyword : Except Fault Keyword) : Entry := ⟨true, keyword.map some⟩

def assertion (keyword : Keyword) : Entry := ⟨false, .ok (some keyword)⟩

def other : Entry := ⟨false, .ok none⟩

def count (make : Nat → Keyword) (value : Json) : Entry :=
  match value with
  | .num n =>
    if n.lt (.int 0) then fault false value (.bound .minimum (.int 0))
    else match n.toNat? with
      | some count => assertion (make count)
      | none => fault false value (.types [.integer])
  | _ => fault false value (.types [.integer])

def number (make : Json.Number → Keyword) (value : Json) : Entry :=
  match value with
  | .num n => assertion (make n)
  | _ => fault false value (.types [.number])

/-- The keyword `type`: a name or a list of different names. -/
def types (value : Json) : Entry :=
  let names : Option (List String) := match value with
    | .str name => some [name]
    | .arr [] => none
    | .arr items => if allDistinct items then items.mapM Json.str? else none
    | _ => none
  match names.bind fun names => names.mapM PrimitiveType.ofName? with
  | some ts => assertion (.types ts)
  | none => fault false value .anyOf

/-- The keyword `required`: a list of different strings. -/
def required (value : Json) : Entry :=
  match value with
  | .arr items =>
    match items.find? fun item => item.str?.isNone with
    | some item => fault false item (.types [.string])
    | none =>
      if allDistinct items then assertion (.required (items.filterMap Json.str?))
      else fault false value .distinct
  | _ => fault false value (.types [.array])

/-- The keywords that hold no schemas. -/
def ofAssertion (key : String) (value : Json) : Entry :=
  match key with
  | "type" => types value
  | "const" => assertion (.constant value)
  | "enum" =>
    match value with
    | .arr options => assertion (.enumeration options)
    | _ => fault false value (.types [.array])
  | "maximum" => number (.bound .maximum) value
  | "exclusiveMaximum" => number (.bound .exclusiveMaximum) value
  | "minimum" => number (.bound .minimum) value
  | "exclusiveMinimum" => number (.bound .exclusiveMinimum) value
  | "multipleOf" =>
    match value with
    | .num n =>
      if Json.Number.lt (.int 0) n then assertion (.multipleOf n)
      else fault false value (.bound .exclusiveMinimum (.int 0))
    | _ => fault false value (.types [.number])
  | "minLength" => count (.atLeast .characters) value
  | "maxLength" => count (.atMost .characters) value
  | "minItems" => count (.atLeast .items) value
  | "maxItems" => count (.atMost .items) value
  | "minProperties" => count (.atLeast .properties) value
  | "maxProperties" => count (.atMost .properties) value
  | "uniqueItems" =>
    match value with
    | .bool true => assertion .distinct
    | .bool false => other
    | _ => fault false value (.types [.boolean])
  | "required" => required value
  | _ => other

end Entry

/-- A schema in a keyword like `not`. -/
def Entry.single (schema : Except Fault Schema) (make : Schema → Keyword) : Entry :=
  .applicator (schema.map make)

/-- A list of schemas, of which there must be one. -/
def Entry.several (value : Json) (schemas : Except Fault (List Schema))
    (make : List Schema → Keyword) : Entry :=
  match schemas with
  | .ok [] => .fault true value (.atLeast .items 1)
  | schemas => .applicator (schemas.map make)

/-- The first fault of a schema document: keywords that hold schemas come first. -/
def firstFault? (entries : List Entry) : Option Fault :=
  let faults (applicators : Bool) : List Fault := entries.filterMap fun e =>
    match e.keyword with
    | .error f => if e.isApplicator == applicators then some f else none
    | .ok _ => none
  (faults true ++ faults false).head?

/-- Members that are not listed are looked at together with those that are. -/
def joinMembers (keywords : List Keyword) : List Keyword :=
  let known := (keywords.findSome? fun
    | .properties known => some known
    | _ => none).getD []
  let hasAdditional := keywords.any fun
    | .additional .. => true
    | _ => false
  keywords.filterMap fun
    | .additional _ rest => some (.additional known rest)
    | .properties known => if hasAdditional then none else some (.properties known)
    | keyword => some keyword

def ofEntries (entries : List Entry) : Except Fault Schema :=
  match firstFault? entries with
  | some fault => .error fault
  | none => .ok (.all (joinMembers (entries.filterMap fun e => e.keyword.toOption.join)))

mutual

def ofJson : Json → Except Fault Schema
  | .bool true => .ok .always
  | .bool false => .ok .never
  | .obj fields => ofEntries (entriesOf fields)
  | value => .error ⟨value, .types [.boolean, .object]⟩

def entriesOf : List (String × Json) → List Entry
  | [] => []
  | (key, value) :: rest =>
    (match key with
      | "items" => .single (ofJson value) .items
      | "not" => .single (ofJson value) fun schema => .not schema value
      | "additionalProperties" =>
        match value with
        | .bool true => .other
        | value => .single (ofJson value) (.additional [])
      | "properties" =>
        match value with
        | .obj members => .applicator ((ofMembers members).map .properties)
        | value => .fault true value (.types [.object])
      | "allOf" =>
        match value with
        | .arr items => .several value (ofItems items) .allOf
        | value => .fault true value (.types [.array])
      | "anyOf" =>
        match value with
        | .arr items => .several value (ofItems items) .anyOf
        | value => .fault true value (.types [.array])
      | "oneOf" =>
        match value with
        | .arr items => .several value (ofItems items) .oneOf
        | value => .fault true value (.types [.array])
      | key => .ofAssertion key value) :: entriesOf rest

def ofItems : List Json → Except Fault (List Schema)
  | [] => .ok []
  | item :: rest =>
    match ofJson item with
    | .error fault => .error fault
    | .ok schema => (ofItems rest).map (schema :: ·)

def ofMembers : List (String × Json) → Except Fault (List (String × Schema))
  | [] => .ok []
  | (name, json) :: rest =>
    match ofJson json with
    | .error fault => .error fault
    | .ok schema => (ofMembers rest).map ((name, schema) :: ·)

end

end Schema

end Agents
