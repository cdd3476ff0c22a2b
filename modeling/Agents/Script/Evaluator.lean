import Agents.Script.ArrayMethod
import Agents.Script.HostFunction
import Agents.Script.Library

/-! # Evaluating scripts

Expressions and statements are evaluated by recursion with fuel for the depth of the recursion. The
reader limits how deep a script nests and calls are limited too, so the fuel of `program` is never
used up. Loops have fuel of their own, since each turn counts as an operation.

A chain of links is evaluated in two steps: first everything in its brackets, then the links from
left to right. On the way the place of the value is kept as a path from a variable, so that a method
that changes its receiver writes it back.
-/

namespace Agents.Script

structure Setting where
  functions : List Function
  limits : Limits
  /-- The modules that may be imported. -/
  modules : List Library

namespace Eval

variable {granted : CapabilitySet}

/-- How a call ended, and what its receiver has become, or its first argument. -/
abbrev Returned := Except Raised Value × Option Value

/-! ## Operators -/

def ofBool (v : Value) : Eval granted Bool :=
  match v with
  | .bool b => pure b
  | v => raise (.mismatch "bool" v.typeName)

def combine (limits : Limits) (op : Option BinaryOp) (old new : Value) : Eval granted Value := do
  match op with
  | none => return new
  | some op =>
    let v ← match op, old, new with
      | .add, .array items, .array more => pure (.array (items ++ more))
      | .add, .array items, v => pure (.array (items ++ [v]))
      | .add, .blob bytes, .int n => pure (.blob (bytes ++ [UInt8.ofNat (n % 256).toNat]))
      | op, old, new => ofExcept (Operator.apply op old new)
    ensureSize limits v
    return v

/-- Whether a value is the one that a case names; types must agree. -/
def matchesPattern (v : Value) : CasePattern → Bool
  | .value l =>
    let w := Value.ofLiteral l
    v.typeName = w.typeName && Operator.same? v w = some true
  | .range first last inclusive =>
    match v with
    | .int n => first ≤ n && (if inclusive then n ≤ last else n < last)
    | _ => false

def isRange : CasePattern → Bool
  | .range .. => true
  | .value _ => false

/-! ## Variables -/

/-- The value of a variable; the name of a function stands for that function. -/
def read (functions : List Function) (name : String) : Eval granted Value := do
  match ← find? name with
  | some x => content name x.value
  | none =>
    if functions.any (·.name = name) then return .function name [] none
    else raise (.variableNotFound name)

/-- Assigns to a variable. While the operator works, the variable holds nothing, so that its value
can be changed in place. -/
def assignVariable (limits : Limits) (op : Option BinaryOp) (name : String) (v : Value) :
    Eval granted Unit := do
  match ← find? name with
  | none => raise (.variableNotFound name)
  | some x =>
    if x.isConstant then raise (.constantModified name)
    write name (← combine limits op (← content name x.value) v)

def assignReceiver (limits : Limits) (op : Option BinaryOp) (v : Value) : Eval granted Unit := do
  match (← get).receiver with
  | none => raise .noReceiver
  | some old =>
    let new ← combine limits op old v
    modify fun s => { s with receiver := some new }

/-! ## Loops -/

inductive Items where
  | list (items : List Value)
  | numbers (next stop : Int)

namespace Items

def ofValue? : Value → Option Items
  | .array items => some (.list items)
  | .string s => some (.list (s.toList.map .char))
  | .blob bytes => some (.list (bytes.map fun b => .int b.toNat))
  | .range first last inclusive => some (.numbers first (if inclusive then last + 1 else last))
  | _ => none

def next? : Items → Option (Value × Items)
  | .list [] => none
  | .list (v :: rest) => some (v, .list rest)
  | .numbers n stop => if n < stop then some (.int n, .numbers (n + 1) stop) else none

end Items

/-- One turn of a loop: nothing to go on with the next one, a value to leave the loop. -/
def turn (body : Eval granted Value) : Eval granted (Option Value) := do
  match ← observe body with
  | .ok _ | .error .continueLoop => return none
  | .error (.breakLoop v) => return some v
  | .error signal => throw signal

/-- Repeats a turn, at most as often as the work that is left allows. -/
def repeatTurns (limits : Limits) {σ : Type} (step : σ → Eval granted (σ ⊕ Value)) (start : σ) :
    Eval granted Value :=
  iterate (fun a => do
    count limits
    step a) (limits.work + 2) start

/-! ## Chains -/

/-- A link whose brackets are evaluated. -/
inductive Access where
  | property (isOptional : Bool) (name : String)
  | index (isOptional : Bool) (index : Value)
  | method (isOptional : Bool) (name : String) (arguments : List Value)

/-- Where a value stands: a path from a variable, or from the receiver if there is no name. -/
structure Location where
  root : Option String
  isConstant : Bool := false
  path : List Step := []

def Location.child (l : Location) (step : Step) : Location := { l with path := l.path ++ [step] }

def writeAt (l : Location) (v : Value) : Eval granted Unit := do
  match l.root with
  | some name =>
    match ← find? name with
    | some { value := .shared cell, .. } =>
      modify fun s => { s with cells := s.cells.modify cell fun held => held.map (·.setPath l.path v) }
    | some x =>
      modify fun s => { s with scope := setVariable name (x.value.setPath l.path v) s.scope }
    | none => return
  | none =>
    modify fun s => { s with receiver := s.receiver.map fun r => r.setPath l.path v }

/-- Evaluates something while the cell of a captured variable may not be used. -/
def borrowing (l : Option Location) {α : Type} (x : Eval granted α) : Eval granted α := do
  let cell? ← match l.bind (·.root) with
    | none => pure none
    | some name => do
      match ← find? name with
      | some { value := .shared cell, .. } => pure (some cell)
      | _ => pure none
  match cell? with
  | none => x
  | some cell =>
    let held := ((← get).cells[cell]?).join
    modify fun s => { s with cells := s.cells.setIfInBounds cell none }
    let outcome ← observe x
    modify fun s => { s with cells := s.cells.setIfInBounds cell held }
    match outcome with
    | .ok a => return a
    | .error signal => throw signal

def assignPart (limits : Limits) (location : Option Location) (v : Value) (access : Access)
    (op : Option BinaryOp) (new : Value) : Eval granted Unit := do
  let ensureMutable (exists? : Bool) : Eval granted Unit := do
    if let some { root, isConstant := true, .. } := location then
      if exists? then raise (.constantModified (root.getD "this"))
  let old ← match access, v with
    | .property _ name, .object members => do
      let old := Value.Members.get? name members
      ensureMutable old.isSome
      pure (old.getD .unit)
    | .property _ name, v =>
      if op.isSome then ofExcept (Builtin.property name v)
      else raise (.noSetter name v.typeName new.typeName)
    | .index _ i, v => do
      let (old, step) ← ofExcept (v.getIndex i)
      ensureMutable (step.isSome || v.typeName ≠ "map")
      pure old
    | .method .., _ => pure .unit
  let part ← combine limits op old new
  let changed ← match access, v with
    | .property _ name, .object members => pure (.object (Value.Members.insert name part members))
    | .property _ name, v => raise (.noSetter name v.typeName part.typeName)
    | .index _ i, v => ofExcept (v.setIndex i part)
    | .method .., v => pure v
  if let some l := location then writeAt l changed

/-- Follows links from a value; the last one is assigned to if there is something to assign.
`method` calls a method on the value at a location. -/
def follow (limits : Limits)
    (method : Option Location → Value → String → List Value → Eval granted Value)
    (assignment : Option (Option BinaryOp × Value)) :
    Option Location → Value → List Access → Eval granted Value
  | _, v, [] => pure v
  | location, v, access :: rest =>
    let isOptional := match access with
      | .property o _ | .index o _ | .method o _ _ => o
    match v, isOptional with
    | .unit, true => pure .unit
    | v, _ =>
      match assignment, rest with
      | some (op, new), [] => do
        assignPart limits location v access op new
        return .unit
      | _, rest => do
        match access, v with
        | .property _ name, .object members =>
          match Value.Members.get? name members with
          | some part =>
            follow limits method assignment (location.map (·.child (.member name))) part rest
          | none => follow limits method assignment none .unit rest
        | .property _ name, v => do
          follow limits method assignment none (← ofExcept (Builtin.property name v)) rest
        | .index _ i, v => do
          let (part, step) ← ofExcept (v.getIndex i)
          follow limits method assignment (do return (← location).child (← step)) part rest
        | .method _ name arguments, v => do
          follow limits method assignment none (← method location v name arguments) rest

/-! ## Functions -/

/-- Ends a call: the variables of the caller are back, a value that was returned is the result, and
a fault remembers the function it came from. -/
def leave (name : String) (before : State) (outcome : Except Signal Value) :
    Eval granted Returned := do
  let receiver := (← get).receiver
  modify fun s =>
    { s with
      scope := before.scope
      modules := before.modules
      receiver := before.receiver
      level := before.level }
  match outcome with
  | .ok v | .error (.giveBack v) | .error (.breakLoop v) => return (.ok v, receiver)
  | .error .continueLoop => return (.ok .unit, receiver)
  | .error (.raised r) =>
    if r.fault.isCatchable then
      return (.error { r with callers := r.callers ++ [name] }, receiver)
    else return (.error r, receiver)

def invoke (limits : Limits) (levels : Nat) (name : String) (parameters : List String)
    (body : Eval granted Value) (receiver : Option Value) (arguments : List Value) :
    Eval granted Returned := do
  count limits
  let before ← get
  if Limits.maxLevel < before.level + levels then raise .tooDeep
  set { before with
    scope := (parameters.zip arguments).reverse.map fun (x, v) => ⟨x, v, false⟩
    receiver
    level := before.level + levels }
  leave name before (← observe body)

/-- Calls a function that needs no evaluation of the script. -/
def callNative (name : String) (receiver : Option Value) (arguments : List Value) :
    Eval granted Effect := do
  match ← native name (receiver.toList ++ arguments) with
  | some effect => return { effect with first := effect.first.or receiver }
  | none => raise (.functionNotFound (Value.signature name (receiver.toList ++ arguments)))

def returned (r : Returned) : Eval granted Value :=
  match r.1 with
  | .ok v => pure v
  | .error r => throw (.raised r)

def ensureFree (bound : List Value) : Eval granted Unit :=
  bound.forM fun v => do let _ ← content "argument" v

/-- How many arguments the items of an array may be passed to a function with. -/
def itemArity (functions : List Function) (most : Nat) : Value → Option Nat
  | .function _ bound (some (parameters, _)) =>
    let free := parameters.length - bound.length
    if free ≤ most then some free else none
  | .function name bound none =>
    (List.range (most + 1)).find? fun n =>
      functions.any fun f => f.name = name && f.parameters.length = bound.length + n
  | _ => none

/-! ## Expressions and statements -/

/-- What a script catches: what was thrown, or a map that tells of the fault. -/
def caught (r : Raised) : Value :=
  match r.fault with
  | .thrown v => v
  | _ => .object [("message", .string r.message)]

def importModule (setting : Setting) (path : Value) (name : Option String) :
    Eval granted Unit := do
  match path with
  | .string path =>
    if Limits.maxImports ≤ (← get).imports then raise .tooManyModules
    match (Library.ofName? path).filter (setting.modules.contains ·) with
    | none => raise (.moduleNotFound path)
    | some library =>
      modify fun s =>
        { s with
          imports := s.imports + 1
          modules := (name.map fun n => (n, library)).toList ++ s.modules }
  | v => raise (.mismatch "string" v.typeName)

def callModule (module function : String) (arguments : List Value) : Eval granted Value := do
  match (← get).modules.find? (·.1 = module) with
  | none => raise (.moduleNotFound module)
  | some (_, library) =>
    match library.call? function arguments with
    | some result => ofExcept result
    | none => raise (.functionNotFound (Value.signature (module ++ "::" ++ function) arguments))

/-- The location and the value of the root of a chain that is a variable or the receiver. -/
def rootOf? (functions : List Function) : Expr → Option (Eval granted (Option Location × Value))
  | .variable name => some do
    let v ← read functions name
    match ← find? name with
    | some x => return (some { root := name, isConstant := x.isConstant }, v)
    | none => return (none, v)
  | .receiver => some do
    match (← get).receiver with
    | some v => return (some { root := none }, v)
    | none => raise .noReceiver
  | _ => none

/-- The variable whose value a function may change when it is the first argument. -/
def changeable? (arguments : List Expr) : Eval granted (Option String) := do
  match arguments with
  | .variable name :: _ =>
    match ← find? name with
    | some { value := .shared _, .. } | none => return none
    | some x => return if x.isConstant then none else some name
  | _ => return none

def isDefined (functions : List Function) (name : String) (arity : Nat) : Bool :=
  functions.any fun f => f.name = name && f.parameters.length = arity

mutual

def expr (setting : Setting) : (fuel : Nat) → Expr → Eval granted Value
  | 0, _ => raise .tooDeep
  | fuel + 1, e => do
    count setting.limits
    match e with
    | .literal l => return .ofLiteral l
    | .variable name => read setting.functions name
    | .receiver =>
      match (← get).receiver with
      | some v => return v
      | none => raise .noReceiver
    | .text parts =>
      parts.foldlM (fun text part => do
        let v ← expr setting fuel part
        let joined := .string (text.text ++ v.text)
        ensureSize setting.limits joined
        return joined) (.string "")
    | .array items =>
      let v := .array (← items.mapM (expr setting fuel))
      ensureSize setting.limits v
      return v
    | .object members =>
      let members ← members.mapM fun (k, e) => return (k, ← expr setting fuel e)
      let v := .object (Value.Members.ofList members)
      ensureSize setting.limits v
      return v
    | .unary op e => ofExcept (Operator.applyUnary op (← expr setting fuel e))
    | .binary op a b =>
      let left ← expr setting fuel a
      let right ← expr setting fuel b
      let v ← ofExcept (Operator.apply op left right)
      ensureSize setting.limits v
      return v
    | .both a b =>
      if ← ofBool (← expr setting fuel a) then return .bool (← ofBool (← expr setting fuel b))
      else return .bool false
    | .either a b =>
      if ← ofBool (← expr setting fuel a) then return .bool true
      else return .bool (← ofBool (← expr setting fuel b))
    | .orElse a b =>
      match ← expr setting fuel a with
      | .unit => expr setting fuel b
      | v => return v
    | .call name arguments =>
      let values ← arguments.mapM (expr setting fuel)
      match name, values with
      | "call", (.function f bound closure) :: rest =>
        returned (← callValue setting fuel 1 (.function f bound closure) none rest)
      | "curry", (.function f bound closure) :: rest =>
        return .function f (bound ++ rest) closure
      | "Fn", [.string f] => return .function f [] none
      | "type_of", [v] => return .string v.typeName
      | "is_def_var", [.string x] => return .bool (← find? x).isSome
      | "is_def_fn", [.string f, .int n] =>
        return .bool (isDefined setting.functions f n.toNat)
      | name, values =>
        if isDefined setting.functions name values.length then
          returned (← callNamed setting fuel 1 name none values)
        else
          match ← changeable? arguments, values with
          | some x, first :: rest => do
            let effect ← callOther setting fuel name (some first) rest
            if let some changed := effect.first then
              write x changed
              ensureSize setting.limits changed
            return effect.value
          | _, _ => return (← callOther setting fuel name none values).value
    | .moduleCall module function arguments =>
      callModule module function (← arguments.mapM (expr setting fuel))
    | .moduleVariable module name =>
      if (← get).modules.any (·.1 = module) then raise (.variableNotFound (module ++ "::" ++ name))
      else raise (.moduleNotFound module)
    | .chain root links => chain setting fuel root links none
    | .closure captures parameters body =>
      let cells ← captures.mapM capture
      return .function "anon$" cells (some (captures ++ parameters, body))
    | .statement s => stmt setting fuel s

/-- A chain of links, of which the last one may be assigned to. -/
def chain (setting : Setting) : (fuel : Nat) → Expr → List Link →
    Option (Option BinaryOp × Value) → Eval granted Value
  | 0, _, _, _ => raise .tooDeep
  | fuel + 1, root, links, assignment => do
    let accesses ← links.mapM fun
      | .property o name => return .property o name
      | .index o i => return .index o (← expr setting fuel i)
      | .method o name arguments => return .method o name (← arguments.mapM (expr setting fuel))
    let (location, v) ← match rootOf? setting.functions root with
      | some found => found
      | none => pure (none, ← expr setting fuel root)
    follow setting.limits (callMethod setting fuel) assignment location v accesses

/-- A method on the value at a location, which is written back. -/
def callMethod (setting : Setting) : (fuel : Nat) → Option Location → Value → String →
    List Value → Eval granted Value
  | 0, _, _, _, _ => raise .tooDeep
  | fuel + 1, location, v, name, arguments => do
    count setting.limits
    match name, v, arguments with
    | "call", .function f bound closure, arguments =>
      returned (← callValue setting fuel 1 (.function f bound closure) none arguments)
    | "curry", .function f bound closure, arguments =>
      return .function f (bound ++ arguments) closure
    | "type_of", v, [] => return .string v.typeName
    | name, v, arguments => do
      let isOwn := isDefined setting.functions name arguments.length
      let outcome ← borrowing location do
        match name, v, arguments with
        | "call", v, (.function f bound closure) :: rest =>
          callValue setting fuel 1 (.function f bound closure) (some v) rest
        | name, .object members, arguments =>
          match Value.Members.get? name members with
          | some (.function f bound closure) =>
            callValue setting fuel 1 (.function f bound closure) (some (.object members)) arguments
          | _ => callNamed setting fuel 1 name (some (.object members)) arguments
        | name, v, arguments => callNamed setting fuel 1 name (some v) arguments
      if let some l := location then
        if let some changed := outcome.2 then
          let isOther := outcome.1.isOk && !isOwn
          if l.isConstant then
            if isOther && (Builtin.call? name (v :: arguments)).any fun r =>
                (r.toOption.bind (·.first)).isSome then
              raise (.constantMethod name)
          else writeAt l changed
          if isOther then ensureSize setting.limits changed
      returned outcome

/-- Calls a function by its name: one of the script, which a receiver is bound in, or another one,
whose first argument the receiver is. -/
def callNamed (setting : Setting) : (fuel : Nat) → (levels : Nat) → String → Option Value →
    List Value → Eval granted Returned
  | 0, _, _, _, _ => raise .tooDeep
  | fuel + 1, levels, name, receiver, arguments => do
    match setting.functions.find? fun f =>
        f.name = name && f.parameters.length = arguments.length with
    | some f =>
      invoke setting.limits levels name f.parameters (block setting fuel f.body) receiver arguments
    | none =>
      let effect ← callOther setting fuel name receiver arguments
      return (.ok effect.value, effect.first)

/-- Calls a function that is not the script's on a receiver, if there is one. The methods of arrays
that call a function are among them. A comparison that fails, for whatever reason, says nothing
about the items that it compares. -/
def callOther (setting : Setting) : (fuel : Nat) → String → Option Value → List Value →
    Eval granted Effect
  | 0, _, _, _ => raise .tooDeep
  | fuel + 1, name, receiver, arguments => do
    match ArrayMethod.withFunction name (receiver.toList ++ arguments) with
    | .array items :: .function g bound closure :: rest =>
      let f := Value.function g bound closure
      let visit (item : Value) (i : Nat) : Eval granted (Value × Value) := do
        let outcome ← match itemArity setting.functions 2 f with
          | some 0 => callValue setting fuel 2 f (some item) []
          | some 2 => callValue setting fuel 2 f none [item, .int i]
          | _ => callValue setting fuel 2 f none [item]
        return (← returned outcome, outcome.2.getD item)
      let fold (result item : Value) (i : Nat) : Eval granted Value := do
        returned (← match itemArity setting.functions 3 f with
          | some 1 => callValue setting fuel 2 f (some item) [result]
          | some 3 => callValue setting fuel 2 f none [result, item, .int i]
          | _ => callValue setting fuel 2 f none [result, item])
      let compare (a b : Value) : Eval granted (Option Value) := do
        match ← observe (comparing (callValue setting fuel 2 f none [a, b])) with
        | .ok (.ok v, _) => return some v
        | .ok (.error ⟨.deadlinePassed, callers⟩, _)
        | .error (.raised ⟨.deadlinePassed, callers⟩) => throw (.raised ⟨.deadlinePassed, callers⟩)
        | .ok (.error _, _) | .error (.raised _) => return none
        | .error signal => throw signal
      match ArrayMethod.run? name items visit fold compare rest with
      | some run =>
        let effect ← run
        return { effect with first := effect.first.or receiver }
      | none => callNative name receiver arguments
    | _ => callNative name receiver arguments

def callValue (setting : Setting) : (fuel : Nat) → (levels : Nat) → Value → Option Value →
    List Value → Eval granted Returned
  | 0, _, _, _, _ => raise .tooDeep
  | fuel + 1, levels, f, receiver, arguments => do
    match f with
    | .function name bound (some (parameters, body)) =>
      let arguments := bound ++ arguments
      if parameters.length ≠ arguments.length then
        raise (.functionNotFound (Value.signature name (arguments.drop bound.length)))
      ensureFree bound
      invoke setting.limits levels "" parameters (stmt setting fuel body) receiver arguments
    | .function name bound none => callNamed setting fuel levels name receiver (bound ++ arguments)
    | v => raise (.mismatch "Fn" v.typeName)

/-- Statements of which the last one gives the value; what they declare ends with them. -/
def block (setting : Setting) : (fuel : Nat) → List Stmt → Eval granted Value
  | 0, _ => raise .tooDeep
  | fuel + 1, body => inBlock (body.foldlM (fun _ s => stmt setting fuel s) .unit)

def stmt (setting : Setting) : (fuel : Nat) → Stmt → Eval granted Value
  | 0, _ => raise .tooDeep
  | fuel + 1, s => do
    count setting.limits
    match s with
    | .expression e => expr setting fuel e
    | .block body => block setting fuel body
    | .declare name isConstant e =>
      declare name (← expr setting fuel e) isConstant
      return .unit
    | .assign op target e =>
      let v ← expr setting fuel e
      count setting.limits
      match target with
      | .variable name => assignVariable setting.limits op name v
      | .receiver => assignReceiver setting.limits op v
      | .chain root links =>
        let _ ← chain setting fuel root links (some (op, v))
      | _ => pure ()
      return .unit
    | .branch condition yes no =>
      if ← ofBool (← expr setting fuel condition) then block setting fuel yes
      else block setting fuel no
    | .repeatWhile condition body =>
      repeatTurns setting.limits (fun () => do
        let goesOn ← match condition with
          | some c => ofBool (← expr setting fuel c)
          | none => pure true
        if !goesOn then return .inr .unit
        match ← turn (block setting fuel body) with
        | some v => return .inr v
        | none => return .inl ()) ()
    | .repeatThen body isNegated condition =>
      repeatTurns setting.limits (fun () => do
        match ← turn (block setting fuel body) with
        | some v => return .inr v
        | none =>
          if (← ofBool (← expr setting fuel condition)) == isNegated then return .inr .unit
          else return .inl ()) ()
    | .forEach name counter source body =>
      match Items.ofValue? (← expr setting fuel source) with
      | none => raise .notIterable
      | some items =>
        repeatTurns setting.limits (fun ((items, i) : Items × Nat) => do
          match items.next? with
          | none => return .inr .unit
          | some (item, rest) =>
            let result ← inBlock do
              if let some c := counter then declare c (.int i)
              declare name item
              turn (block setting fuel body)
            match result with
            | some v => return .inr v
            | none => return .inl (rest, i + 1)) (items, 0)
    | .breakLoop none => throw (.breakLoop .unit)
    | .breakLoop (some e) => throw (.breakLoop (← expr setting fuel e))
    | .continueLoop => throw .continueLoop
    | .giveBack none => throw (.giveBack .unit)
    | .giveBack (some e) => throw (.giveBack (← expr setting fuel e))
    | .raise none => raise (.thrown .unit)
    | .raise (some e) => raise (.thrown (← expr setting fuel e))
    | .attempt body name handler =>
      match ← observe (block setting fuel body) with
      | .ok _ => return .unit
      | .error (.raised r) =>
        if !r.fault.isCatchable then throw (.raised r)
        let outcome ← observe <| inBlock do
          if let some x := name then declare x (caught r)
          block setting fuel handler
        match outcome with
        | .ok _ => return .unit
        | .error (.raised ⟨.thrown .unit, []⟩) => throw (.raised r)
        | .error signal => throw signal
      | .error signal => throw signal
    | .select subject cases default => do
      let v ← expr setting fuel subject
      let accepts (onRange : Bool) (c : SwitchCase) : Eval granted Bool :=
        match c with
        | .mk patterns guard _ => do
          if !(patterns.any fun p => isRange p == onRange && matchesPattern v p) then return false
          match guard with
          | some g => ofBool (← expr setting fuel g)
          | none => return true
      let found ← do
        match ← cases.findM? (accepts false) with
        | some c => pure (some c)
        | none => cases.findM? (accepts true)
      match found, default with
      | some (.mk _ _ action), _ => expr setting fuel action
      | none, some action => expr setting fuel action
      | none, none => return .unit
    | .importModule path name => do
      importModule setting (← expr setting fuel path) name
      return .unit

end

/-- More than the depth that the limits on nesting and on calls allow. -/
def maxDepth : Nat := 100000

def program (setting : Setting) (body : List Stmt) : Eval granted Value := do
  match ← observe (body.foldlM (fun _ s => stmt setting maxDepth s) .unit) with
  | .ok v | .error (.giveBack v) | .error (.breakLoop v) => return v
  | .error .continueLoop => return .unit
  | .error (.raised r) => throw (.raised r)

end Eval

end Agents.Script
