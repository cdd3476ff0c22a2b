/-! # Syntax of scripts

A script is a sequence of statements and the functions it defines. Most statements are
expressions too: the value of a block is that of its last statement.

What follows a value in brackets or after a point is a list of links, so that `a.b[0].c()` is one
chain from `a`. A closure lists the variables it captures before its parameters.
-/

namespace Agents.Script

inductive Literal where
  | unit
  | bool (value : Bool)
  | int (value : Int)
  | float (value : Float)
  | char (value : Char)
  | string (value : String)
deriving Repr, Inhabited

inductive UnaryOp where
  | negate
  | plus
  | not
deriving DecidableEq, Repr, Inhabited

def UnaryOp.symbol : UnaryOp → String
  | .negate => "-"
  | .plus => "+"
  | .not => "!"

inductive BinaryOp where
  | add
  | subtract
  | multiply
  | divide
  | modulo
  | power
  | shiftLeft
  | shiftRight
  | bitAnd
  | bitOr
  | bitXor
  | equal
  | notEqual
  | less
  | lessEqual
  | greater
  | greaterEqual
  | range
  | rangeInclusive
deriving DecidableEq, Repr, Inhabited

namespace BinaryOp

def all : List BinaryOp :=
  [.add, .subtract, .multiply, .divide, .modulo, .power, .shiftLeft, .shiftRight, .bitAnd, .bitOr,
    .bitXor, .equal, .notEqual, .less, .lessEqual, .greater, .greaterEqual, .range, .rangeInclusive]

def symbol : BinaryOp → String
  | .add => "+"
  | .subtract => "-"
  | .multiply => "*"
  | .divide => "/"
  | .modulo => "%"
  | .power => "**"
  | .shiftLeft => "<<"
  | .shiftRight => ">>"
  | .bitAnd => "&"
  | .bitOr => "|"
  | .bitXor => "^"
  | .equal => "=="
  | .notEqual => "!="
  | .less => "<"
  | .lessEqual => "<="
  | .greater => ">"
  | .greaterEqual => ">="
  | .range => ".."
  | .rangeInclusive => "..="

def ofSymbol? (symbol : String) : Option BinaryOp := all.find? (·.symbol = symbol)

/-- The operator of an assignment such as `+=`. -/
def ofAssignment? (symbol : String) : Option BinaryOp :=
  [BinaryOp.add, .subtract, .multiply, .divide, .modulo, .power, .shiftLeft, .shiftRight, .bitAnd,
    .bitOr, .bitXor].find? fun op => op.symbol ++ "=" = symbol

/-- Whether the operator compares; values of different types are never equal nor ordered. -/
def isComparison : BinaryOp → Bool
  | .equal | .notEqual | .less | .lessEqual | .greater | .greaterEqual => true
  | _ => false

end BinaryOp

inductive CasePattern where
  | value (value : Literal)
  | range (first last : Int) (inclusive : Bool)
deriving Repr, Inhabited

mutual

inductive Expr where
  | literal (value : Literal)
  | variable (name : String)
  /-- The value that a method of a script was called on. -/
  | receiver
  /-- Text with expressions in it. -/
  | text (parts : List Expr)
  | array (items : List Expr)
  | object (members : List (String × Expr))
  | unary (op : UnaryOp) (operand : Expr)
  | binary (op : BinaryOp) (left right : Expr)
  | both (left right : Expr)
  | either (left right : Expr)
  /-- The right value stands in for a left one that is `()`. -/
  | orElse (left right : Expr)
  | call (function : String) (arguments : List Expr)
  /-- A function of an imported module. -/
  | moduleCall (module function : String) (arguments : List Expr)
  | moduleVariable (module name : String)
  | chain (root : Expr) (links : List Link)
  | closure (captures parameters : List String) (body : Stmt)
  | statement (statement : Stmt)

/-- A step of a chain; an optional one leaves `()` as it is. -/
inductive Link where
  | property (isOptional : Bool) (name : String)
  | index (isOptional : Bool) (index : Expr)
  | method (isOptional : Bool) (name : String) (arguments : List Expr)

inductive Stmt where
  | expression (value : Expr)
  | block (body : List Stmt)
  | declare (name : String) (isConstant : Bool) (value : Expr)
  | assign (op : Option BinaryOp) (target value : Expr)
  | branch (condition : Expr) (yes no : List Stmt)
  /-- Without a condition the loop ends only by leaving it. -/
  | repeatWhile (condition : Option Expr) (body : List Stmt)
  | repeatThen (body : List Stmt) (isNegated : Bool) (condition : Expr)
  | forEach (name : String) (counter : Option String) (source : Expr) (body : List Stmt)
  | breakLoop (value : Option Expr)
  | continueLoop
  | giveBack (value : Option Expr)
  | raise (value : Option Expr)
  | attempt (body : List Stmt) (name : Option String) (handler : List Stmt)
  | select (subject : Expr) (cases : List SwitchCase) (default : Option Expr)
  | importModule (path : Expr) (name : Option String)

inductive SwitchCase where
  | mk (patterns : List CasePattern) (guard : Option Expr) (action : Expr)

end

instance : Inhabited Expr := ⟨.literal .unit⟩
instance : Inhabited Stmt := ⟨.block []⟩
instance : Inhabited Link := ⟨.property false ""⟩
instance : Inhabited SwitchCase := ⟨.mk [] none (.literal .unit)⟩

structure Function where
  name : String
  parameters : List String
  body : List Stmt
deriving Inhabited

structure Program where
  functions : List Function
  body : List Stmt
deriving Inhabited

/-- Whether a statement ends without a semicolon. -/
def Stmt.endsItself : Stmt → Bool
  | .branch .. | .select .. | .repeatWhile .. | .forEach .. | .block _ | .attempt .. => true
  | _ => false

end Agents.Script
