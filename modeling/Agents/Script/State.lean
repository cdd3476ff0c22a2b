import Agents.Config
import Agents.Script.Fault
import Agents.Script.Host
import Agents.Script.Parser

/-! # The state of a running script

A script runs as an `Eval`: it changes a `State`, may be stopped by a `Signal`, and interacts with
its host. Variables form a stack, the innermost first. A variable that a closure captured holds a
cell, which the closure shares; what is read from it is always the content of the cell.

Everything a script does is counted, and the count of what has no fixed cost grows with the size of
the values it looks at. The deadline is a limit on that count, so that a script ends in the same way
wherever it runs.
-/

namespace Agents.Script

/-! ## Limits -/

structure Limits where
  /-- The sizes that a value may have, with everything in it. -/
  sizes : LiteralLimits
  /-- Zero sets no limit. -/
  operations : Nat
  /-- How much work fits in the time until the deadline. -/
  work : Nat

namespace Limits

/-- How much work is done in a millisecond. -/
def workPerMs : Nat := 1000

/-- How many calls may be active at once. -/
def maxLevel : Nat := 64

def maxImports : Nat := 16

/-- An element of an array counts as 16 bytes and a member of a map as 48. -/
def ofSandbox (l : SandboxLimits) : Limits where
  sizes :=
    { stringBytes := l.memoryLimitBytes
      items := max (l.memoryLimitBytes / 16) 1
      members := max (l.memoryLimitBytes / 48) 1 }
  operations := l.maxOperations
  work := l.deadlineMs * workPerMs

/-- Whether a value may be as large as it is. -/
def allows (l : Limits) (s : Value.Size) : Bool :=
  s.bytes ≤ l.sizes.stringBytes && s.items ≤ l.sizes.items && s.members ≤ l.sizes.members

end Limits

/-! ## State -/

structure Variable where
  name : String
  value : Value
  isConstant : Bool := false

inductive StreamItem where
  | data (value : Json)
  | failure (message : String)
deriving Inhabited

inductive Library where
  | json
  | text
deriving DecidableEq, Repr

structure State where
  scope : List Variable := []
  /-- The imported modules by the names they were given, the last one first. -/
  modules : List (String × Library) := []
  /-- What a method of the script was called on. -/
  receiver : Option Value := none
  /-- The contents of captured variables; a cell in use by a method has none. -/
  cells : Array (Option Value) := #[]
  /-- The items of every stream, the last one first. -/
  streams : Array (List StreamItem) := #[]
  operations : Nat := 0
  work : Nat := 0
  /-- How many calls are active. -/
  level : Nat := 0
  imports : Nat := 0

/-- What stops the evaluation of a statement. -/
inductive Signal where
  | raised (r : Raised)
  | breakLoop (value : Value)
  | continueLoop
  | giveBack (value : Value)

abbrev Eval (granted : CapabilitySet) := ExceptT Signal (StateT State (Interaction granted))

namespace Eval

variable {granted : CapabilitySet} {α : Type}

def raise (f : Fault) : Eval granted α := throw (.raised ⟨f, []⟩)

def ofExcept : Except Fault α → Eval granted α
  | .ok a => pure a
  | .error f => raise f

/-- The outcome of an evaluation, whatever stopped it. -/
def observe (x : Eval granted α) : Eval granted (Except Signal α) :=
  ExceptT.mk do return .ok (← x.run)

def call (request : GrantedCall granted) : Eval granted Json := do
  match ← (monadLift (Interaction.call request .done) :
      StateT State (Interaction granted) (Except Error Json)) with
  | .ok answer => return answer
  | .error e => raise (.ofError e)

def notify (request : GrantedCall granted) : Eval granted Unit :=
  (monadLift (Interaction.notify request (.done ())) : StateT State (Interaction granted) Unit)

/-- Evaluates something to compare two items. -/
def comparing (x : Eval granted α) : Eval granted α := fun s => (x.run.run s).comparing

/-- Repeats a step until it gives a result, at most as often as the fuel says. -/
def iterate {σ : Type} (step : σ → Eval granted (σ ⊕ α)) : (fuel : Nat) → σ → Eval granted α
  | 0, _ => raise .deadlinePassed
  | fuel + 1, a => fun s =>
    match step a s with
    | .done (.ok (.inl b), s) => iterate step fuel b s
    | .done (.ok (.inr result), s) => .done (.ok result, s)
    | .done (.error signal, s) => .done (.error signal, s)
    | i => i.bind fun
      | (.ok (.inl b), s) => iterate step fuel b s
      | (.ok (.inr result), s) => .done (.ok result, s)
      | (.error signal, s) => .done (.error signal, s)

/-! ## Counting -/

/-- Counts work that has no operation of its own. -/
def spend (limits : Limits) (work : Nat) : Eval granted Unit := do
  modify fun s => { s with work := s.work + work }
  if limits.work < (← get).work then raise .deadlinePassed

def count (limits : Limits) : Eval granted Unit := do
  modify fun s => { s with operations := s.operations + 1, work := s.work + 1 }
  let s ← get
  if limits.operations ≠ 0 && limits.operations < s.operations then raise .tooManyOperations
  if limits.work < s.work then raise .deadlinePassed

/-- Refuses a value that is too large. Looking at 32 elements takes as long as an operation. -/
def ensureSize (limits : Limits) (v : Value) : Eval granted Unit := do
  match v with
  | .string _ | .blob _ | .array _ | .object _ =>
    let size := v.size
    spend limits ((size.items + size.members) / 32)
    if !limits.allows size then raise .tooLarge
  | _ => return

/-! ## Variables -/

def content (name : String) : Value → Eval granted Value
  | .shared cell => do
    match ((← get).cells[cell]?).join with
    | some v => return v
    | none => raise (.inUse name)
  | v => pure v

def find? (name : String) : Eval granted (Option Variable) := do
  return (← get).scope.find? (·.name = name)

def declare (name : String) (value : Value) (isConstant : Bool := false) : Eval granted Unit :=
  modify fun s => { s with scope := ⟨name, value, isConstant⟩ :: s.scope }

/-- Changes the value of the innermost variable with a name. -/
def setVariable (name : String) (value : Value) : List Variable → List Variable
  | [] => []
  | x :: rest =>
    if x.name = name then { x with value } :: rest else x :: setVariable name value rest

/-- Writes a variable, or the cell it holds. -/
def write (name : String) (value : Value) : Eval granted Unit := do
  match ← find? name with
  | some { value := .shared cell, .. } =>
    modify fun s => { s with cells := s.cells.setIfInBounds cell (some value) }
  | _ => modify fun s => { s with scope := setVariable name value s.scope }

/-- The cell of a variable, which it is given if it has none. -/
def capture (name : String) : Eval granted Value := do
  match ← find? name with
  | none => raise (.variableNotFound name)
  | some { value := .shared cell, .. } => return .shared cell
  | some { value := v, .. } =>
    let cell := (← get).cells.size
    modify fun s =>
      { s with
        cells := s.cells.push (some v)
        scope := setVariable name (.shared cell) s.scope }
    return .shared cell

/-- Evaluates something whose variables and imports do not outlive it. -/
def inBlock (x : Eval granted α) : Eval granted α := do
  let before ← get
  let outcome ← observe x
  modify fun s =>
    { s with
      scope := s.scope.drop (s.scope.length - before.scope.length)
      modules := s.modules.drop (s.modules.length - before.modules.length) }
  match outcome with
  | .ok a => return a
  | .error signal => throw signal

/-! ## Streams -/

def newStream : Eval granted Value :=
  modifyGet fun s => (.stream s.streams.size, { s with streams := s.streams.push [] })

def push (id : Nat) (item : StreamItem) : Eval granted Unit :=
  modify fun s => { s with streams := s.streams.modify id (item :: ·) }

end Eval

end Agents.Script
