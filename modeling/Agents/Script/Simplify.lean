import Agents.Script.Operator

/-! # Simplifying a script before it runs

Operators on constants are computed when that succeeds, `&&` and `||` with a constant operand are
reduced to the other one, whatever its type, and statements whose value is not used and that could
do nothing but read variables are dropped, also if a variable does not exist.
-/

namespace Agents.Script.Simplify

/-- An operation on constants, computed if it can be. -/
def binary (op : BinaryOp) (left right : Expr) : Expr :=
  match left, right with
  | .literal a, .literal b =>
    match Operator.result? op (.ofLiteral a) (.ofLiteral b) with
    | some (.ok v) =>
      match v.toLiteral? with
      | some l => .literal l
      | none => .binary op left right
    | _ => .binary op left right
  | _, _ => .binary op left right

def both (left right : Expr) : Expr :=
  match left, right with
  | .literal (.bool true), right => right
  | .literal (.bool false), _ => .literal (.bool false)
  | left, .literal (.bool true) => left
  | left, right => .both left right

def either (left right : Expr) : Expr :=
  match left, right with
  | .literal (.bool false), right => right
  | .literal (.bool true), _ => .literal (.bool true)
  | left, .literal (.bool false) => left
  | left, right => .either left right

mutual

/-- Whether an expression can do nothing but read variables. -/
def isPure : Expr → Bool
  | .literal _ | .variable _ => true
  | .text parts | .array parts => arePure parts
  | .object members => arePureMembers members
  | .both a b | .either a b | .orElse a b => isPure a && isPure b
  | .statement s => isPureStmt s
  | _ => false

def arePure : List Expr → Bool
  | [] => true
  | e :: rest => isPure e && arePure rest

def arePureMembers : List (String × Expr) → Bool
  | [] => true
  | (_, e) :: rest => isPure e && arePureMembers rest

def isPureStmt : Stmt → Bool
  | .expression e => isPure e
  | .block body => arePureStmts body
  | .branch c yes no => isPure c && arePureStmts yes && arePureStmts no
  | _ => false

def arePureStmts : List Stmt → Bool
  | [] => true
  | s :: rest => isPureStmt s && arePureStmts rest

end

/-- Drops statements without effect; the last one is kept when its value is used. -/
def dropPure (isUsed : Bool) : List Stmt → List Stmt
  | [] => []
  | [s] => if !isUsed && isPureStmt s then [] else [s]
  | s :: t :: rest =>
    if isPureStmt s then dropPure isUsed (t :: rest) else s :: dropPure isUsed (t :: rest)

mutual

def expr : Expr → Expr
  | .literal l => .literal l
  | .variable n => .variable n
  | .receiver => .receiver
  | .text parts => .text (exprs parts)
  | .array items => .array (exprs items)
  | .object members => .object (memberExprs members)
  | .unary op e => .unary op (expr e)
  | .binary op a b => binary op (expr a) (expr b)
  | .both a b => both (expr a) (expr b)
  | .either a b => either (expr a) (expr b)
  | .orElse a b => .orElse (expr a) (expr b)
  | .call f arguments => .call f (exprs arguments)
  | .moduleCall m f arguments => .moduleCall m f (exprs arguments)
  | .moduleVariable m n => .moduleVariable m n
  | .chain root ls => .chain (expr root) (links ls)
  | .closure captures parameters body => .closure captures parameters (stmt true body)
  | .statement s =>
    match stmt true s with
    | .block [.expression e] => e
    | .block [] => .literal .unit
    | s => .statement s

def exprs : List Expr → List Expr
  | [] => []
  | e :: rest => expr e :: exprs rest

def memberExprs : List (String × Expr) → List (String × Expr)
  | [] => []
  | (k, e) :: rest => (k, expr e) :: memberExprs rest

def links : List Link → List Link
  | [] => []
  | .property o n :: rest => .property o n :: links rest
  | .index o e :: rest => .index o (expr e) :: links rest
  | .method o n arguments :: rest => .method o n (exprs arguments) :: links rest

/-- A statement, whose value may be used or not. -/
def stmt (isUsed : Bool) : Stmt → Stmt
  | .expression e => .expression (expr e)
  | .block body => .block (dropPure isUsed (stmts isUsed body))
  | .declare n c e => .declare n c (expr e)
  | .assign op t e => .assign op (expr t) (expr e)
  | .branch c yes no =>
    match expr c with
    | .literal (.bool true) => .block (dropPure isUsed (stmts isUsed yes))
    | .literal (.bool false) => .block (dropPure isUsed (stmts isUsed no))
    | c => .branch c (dropPure isUsed (stmts isUsed yes)) (dropPure isUsed (stmts isUsed no))
  | .repeatWhile none body => .repeatWhile none (dropPure false (stmts false body))
  | .repeatWhile (some c) body =>
    match expr c with
    | .literal (.bool false) => .block []
    | .literal (.bool true) => .repeatWhile none (dropPure false (stmts false body))
    | c => .repeatWhile (some c) (dropPure false (stmts false body))
  | .repeatThen body negated c => .repeatThen (dropPure false (stmts false body)) negated (expr c)
  | .forEach n k source body => .forEach n k (expr source) (dropPure false (stmts false body))
  | .breakLoop none => .breakLoop none
  | .breakLoop (some e) => .breakLoop (some (expr e))
  | .continueLoop => .continueLoop
  | .giveBack none => .giveBack none
  | .giveBack (some e) => .giveBack (some (expr e))
  | .raise none => .raise none
  | .raise (some e) => .raise (some (expr e))
  | .attempt body n handler =>
    .attempt (dropPure false (stmts false body)) n (dropPure false (stmts false handler))
  | .select e cs none => .select (expr e) (cases cs) none
  | .select e cs (some d) => .select (expr e) (cases cs) (some (expr d))
  | .importModule path n => .importModule (expr path) n

/-- Only the last statement's value is used, if any is. -/
def stmts (isUsed : Bool) : List Stmt → List Stmt
  | [] => []
  | [s] => [stmt isUsed s]
  | s :: t :: rest => stmt false s :: stmts isUsed (t :: rest)

def cases : List SwitchCase → List SwitchCase
  | [] => []
  | .mk patterns none action :: rest => .mk patterns none (expr action) :: cases rest
  | .mk patterns (some g) action :: rest => .mk patterns (some (expr g)) (expr action) :: cases rest

end

def program (p : Program) : Program where
  functions := p.functions.map fun f => { f with body := dropPure true (stmts true f.body) }
  body := dropPure true (stmts true p.body)

end Agents.Script.Simplify
