import Agents.Script.Syntax
import Agents.Script.Token
import Agents.Word

/-! # Reading scripts

The reader goes through the tokens once, from left to right. Operators bind by precedence, the
stronger first and of equal ones the left first, except for powers. While reading, the variables in
scope are known, which decides two things: an assignment to a constant is refused, and a closure
captures the variables that it uses and does not declare.

Nesting is limited; the fuel only bounds the recursion and is never used up, since every function
that calls itself without reading a token calls a different one.
-/

namespace Agents.Script

structure Place where
  level : Nat := 0
  maxLevel : Nat := 64
  inLoop : Bool := false
  atTop : Bool := true
  inFunction : Bool := false
  maxItems : Nat
  maxMembers : Nat
  /-- A bar separates patterns here and is no operator. -/
  barSeparates : Bool := false

structure ReaderState where
  tokens : List Token
  /-- The variables in scope, innermost first; whether each is a constant. -/
  locals : List (String × Bool) := []
  /-- The variables used that are not in scope, in order of their first use. -/
  externals : List String := []
  /-- The functions defined so far, last one first. -/
  functions : List Function := []

abbrev Reader (α : Type) := StateT ReaderState (Except SyntaxFault) α

namespace Reader

/-! ## Tokens -/

def peek : Reader Token := do return (← get).tokens.head?.getD .finish

/-- Takes the next token; after the last one there is always an end. -/
def next : Reader Token := modifyGet fun s =>
  match s.tokens with
  | [] => (.finish, s)
  | token :: rest => (token, { s with tokens := rest })

def skip : Reader Unit := do let _ ← next

def fail {α : Type} (f : SyntaxFault) : Reader α := throw f

def isSymbol (text : String) : Token → Bool
  | .symbol s => s = text
  | _ => false

def isKeyword (word : String) : Token → Bool
  | .keyword w => w = word
  | _ => false

/-- Takes a symbol if it is next. -/
def takeSymbol (text : String) : Reader Bool := do
  if isSymbol text (← peek) then skip; return true else return false

def takeKeyword (word : String) : Reader Bool := do
  if isKeyword word (← peek) then skip; return true else return false

/-- Fails because of the next token, which is not what is missing. -/
def missing {α : Type} (what purpose : String) : Reader α := do
  match ← peek with
  | .fault f => fail (.token f)
  | _ => fail (.missing what purpose)

def expectSymbol (text purpose : String) : Reader Unit := do
  unless ← takeSymbol text do missing text purpose

def deeper (p : Place) : Reader Place := do
  let level := p.level + 1
  if p.maxLevel < level then fail .tooComplex else return { p with level }

def variableName : Reader String := do
  match ← next with
  | .name s => return s
  | .reserved s => if SyntaxFault.isNameText s then fail (.reserved s) else fail .variableExpected
  | .fault f => fail (.token f)
  | _ => fail .variableExpected

/-! ## Variables -/

def declare (name : String) (isConstant : Bool) : Reader Unit :=
  modify fun s => { s with locals := (name, isConstant) :: s.locals }

/-- Reads something whose declarations end with it. -/
def inScope {α : Type} (read : Reader α) : Reader α := do
  let outer := (← get).locals
  let result ← read
  modify fun s => { s with locals := outer }
  return result

/-- Notes that a variable is used. -/
def useVariable (name : String) : Reader Unit :=
  modify fun s =>
    if (s.locals.lookup name).isSome || s.externals.contains name
        || s.functions.any (·.name = name) then s
    else { s with externals := s.externals ++ [name] }

/-! ## Conditions -/

/-- A type that a literal expression is known to have. -/
def literalKind : Expr → Option String
  | .literal .unit => some "()"
  | .literal (.int _) => some "a number"
  | .literal (.float _) => some "a floating-point number"
  | .literal (.char _) => some "a character"
  | .literal (.string _) | .text _ => some "a string"
  | .array _ => some "an array"
  | .object _ => some "an object map"
  | _ => none

def ensureBoolean (e : Expr) : Reader Expr :=
  match literalKind e with
  | some kind => fail (.mismatch "a boolean expression" kind)
  | none => return e

def ensureIterable (e : Expr) : Reader Expr :=
  match e with
  | .array _ => return e
  | .literal (.bool _) => fail (.mismatch "an iterable value" "a boolean")
  | e =>
    match literalKind e with
    | some kind => fail (.mismatch "an iterable value" kind)
    | none => return e

/-- A condition begins with neither a block nor the end. -/
def ensureCondition : Reader Unit := do
  match ← peek with
  | .finish => fail (.expressionExpected "a boolean")
  | token => if isSymbol "\x7b" token then fail (.expressionExpected "a boolean")

def ensureNoAssignment : Reader Unit := do
  match ← peek with
  | .symbol "=" => fail (.token (.badSymbol "Possibly a typo of '=='?"))
  | .symbol s =>
    if (BinaryOp.ofAssignment? s).isSome then
      fail (.token (.badSymbol "Expecting a boolean expression, not an assignment"))
  | _ => return

/-! ## Assignments -/

def isConstantExpr : Expr → Bool
  | .literal _ => true
  | _ => false

def assignment (op : Option BinaryOp) (target value : Expr) : Reader Stmt := do
  let unlessConstant (name : String) : Reader Stmt := do
    match (← get).locals.lookup name with
    | some true => fail (.constantAssigned (some name))
    | _ => return .assign op target value
  match target with
  | .variable name => unlessConstant name
  | .receiver => return .assign op target value
  | .chain root links =>
    let isMethod : Link → Bool
      | .method .. => true
      | _ => false
    if links.any isMethod then fail .notAssignable
    else match root with
      | .variable name => unlessConstant name
      | .receiver => return .assign op target value
      | _ => fail .notAssignable
  | .both .. | .either .. | .orElse .. =>
    if op.isNone then fail (.token (.badSymbol "Possibly a typo of '=='?")) else fail .notAssignable
  | target => if isConstantExpr target then fail (.constantAssigned none) else fail .notAssignable

/-! ## Operators -/

/-- How strongly an operator binds; zero for what is none. -/
def precedence : Token → Nat
  | .symbol s =>
    match s with
    | "||" | "^" | "|" => 30
    | "&&" | "&" => 60
    | "==" | "!=" => 90
    | "!in" => 110
    | "<" | "<=" | ">" | ">=" => 130
    | "??" => 135
    | ".." | "..=" => 140
    | "+" | "-" => 150
    | "*" | "/" | "%" => 180
    | "**" => 190
    | "<<" | ">>" => 210
    | _ => 0
  | .keyword "in" => 110
  | _ => 0

def nextPrecedence (p : Place) : Reader Nat := do
  match ← peek with
  | .reserved s =>
    if SyntaxFault.isNameText s then return 0 else fail (.unknownOperator s)
  | token => if p.barSeparates && isSymbol "|" token then return 0 else return precedence token

/-- The expression of an operator and its operands. -/
def operation (operator : Token) (left right : Expr) : Reader Expr := do
  match operator with
  | .symbol "||" => return .either (← ensureBoolean left) (← ensureBoolean right)
  | .symbol "&&" => return .both (← ensureBoolean left) (← ensureBoolean right)
  | .symbol "??" => return .orElse left right
  | .symbol "!in" => return .unary .not (.call "contains" [right, left])
  | .keyword _ => return .call "contains" [right, left]
  | .symbol s =>
    match BinaryOp.ofSymbol? s with
    | some op => return .binary op left right
    | none => fail (.unknownOperator s)
  | token => fail (.unknownOperator token.text)

/-- Refuses an index of a literal that cannot work. -/
def ensureIndex (base index : Expr) : Reader Unit := do
  let kind (unit : String) : Option String := match index with
    | .literal (.float _) => some "a float"
    | .literal (.char _) => some "a character"
    | .literal .unit => some unit
    | .literal (.bool _) | .both .. | .either .. => some "a boolean"
    | _ => none
  match base with
  | .object _ =>
    let kind := match index with
      | .literal (.int _) => some "a number"
      | _ => kind "()"
    match kind with
    | some k => fail (.badIndex ("Object map expects string index, not " ++ k))
    | none => return
  | .literal (.int _) | .literal (.string _) | .array _ | .text _ =>
    match index with
    | .literal (.string _) | .text _ =>
      fail (.badIndex "Array, string or bit-field expects numeric index, not a string")
    | _ => match kind "()" with
      | some k => fail (.badIndex ("Array, string or bit-field expects integer index, not " ++ k))
      | none => return
  | _ => return

def chain (root : Expr) (link : Link) : Expr :=
  match root with
  | .chain root links => .chain root (links ++ [link])
  | root => .chain root [link]

/-- Whether an expression can be followed by arguments. -/
def callable? : Expr → Option (Option String × String)
  | .variable name => some (none, name)
  | .moduleVariable module name => some (some module, name)
  | _ => none

/-! ## The grammar -/

mutual

def statement (p : Place) : (fuel : Nat) → Reader (Option Stmt)
  | 0 => fail .tooComplex
  | fuel + 1 => do
    let p ← deeper p
    match ← peek with
    | .finish => return none
    | .symbol ";" => skip; return none
    | .symbol "\x7b" => return some (.block (← block p fuel))
    | .keyword "fn" => if p.atTop then skip; function p fuel; return none else fail .nestedFunction
    | .keyword "private" =>
      skip
      unless isKeyword "fn" (← peek) do fail (.missing "fn" "following 'private'")
      if p.atTop then skip; function p fuel; return none else fail .nestedFunction
    | .keyword "if" => skip; return some (← branch p fuel)
    | .keyword "switch" => skip; return some (← select p fuel)
    | .keyword "while" => skip; return some (← whileLoop p fuel)
    | .keyword "loop" =>
      skip
      return some (.repeatWhile none (← block { p with inLoop := true } fuel))
    | .keyword "do" => skip; return some (← doLoop p fuel)
    | .keyword "for" => skip; return some (← forLoop p fuel)
    | .keyword "continue" =>
      if p.inLoop then skip; return some .continueLoop else fail .breakOutsideLoop
    | .keyword "break" =>
      if !p.inLoop then fail .breakOutsideLoop
      else
        skip
        return some (.breakLoop (← optionalValue p true fuel))
    | .keyword "return" => skip; return some (.giveBack (← optionalValue p (!p.atTop) fuel))
    | .keyword "throw" => skip; return some (.raise (← optionalValue p (!p.atTop) fuel))
    | .keyword "try" => skip; return some (← attempt p fuel)
    | .keyword "let" => skip; return some (← declaration p false fuel)
    | .keyword "const" => skip; return some (← declaration p true fuel)
    | .keyword "import" =>
      skip
      let path ← expression p fuel
      if ← takeKeyword "as" then return some (.importModule path (some (← variableName)))
      else return some (.importModule path none)
    | _ =>
      let target ← expression p fuel
      match ← peek with
      | .symbol "=" => skip; return some (← assignment none target (← expression p fuel))
      | .symbol s =>
        match BinaryOp.ofAssignment? s with
        | some op => skip; return some (← assignment (some op) target (← expression p fuel))
        | none => return some (.expression target)
      | _ => return some (.expression target)

/-- The value of a statement that may stand without one; `beforeBrace` if a closing brace also ends
it. -/
def optionalValue (p : Place) (beforeBrace : Bool) : (fuel : Nat) → Reader (Option Expr)
  | 0 => fail .tooComplex
  | fuel + 1 => do
    match ← peek with
    | .finish => return none
    | .symbol ";" => return none
    | token =>
      if beforeBrace && isSymbol "\x7d" token then return none
      else return some (← expression p fuel)

/-- Statements up to the end of a block, or of the script when `top`. -/
def statements (p : Place) (top : Bool) : (fuel : Nat) → Reader (List Stmt)
  | 0 => fail .tooComplex
  | fuel + 1 => do
    match ← peek with
    | .finish => if top then return [] else fail (.missing "\x7d" "to terminate this block")
    | token =>
      if !top && isSymbol "\x7d" token then return []
      else match ← statement p fuel with
        | none => statements p top fuel
        | some s =>
          let token ← peek
          match token with
          | .finish =>
            if top || s.endsItself then return s :: (← statements p top fuel)
            else missing ";" "to terminate this statement"
          | token =>
            if (!top && isSymbol "\x7d" token) || s.endsItself || isSymbol ";" token then
              return s :: (← statements p top fuel)
            else missing ";" "to terminate this statement"

def block (p : Place) : (fuel : Nat) → Reader (List Stmt)
  | 0 => fail .tooComplex
  | fuel + 1 => do
    let p ← deeper p
    expectSymbol "\x7b" "to start a statement block"
    let body ← inScope (statements { p with atTop := false, barSeparates := false } false fuel)
    skip
    return body

/-- A condition and the block that follows it. -/
def condition (p : Place) : (fuel : Nat) → Reader Expr
  | 0 => fail .tooComplex
  | fuel + 1 => do
    ensureCondition
    let e ← ensureBoolean (← expression p fuel)
    ensureNoAssignment
    return e

def branch (p : Place) : (fuel : Nat) → Reader Stmt
  | 0 => fail .tooComplex
  | fuel + 1 => do
    let p ← deeper p
    let guard ← condition p fuel
    let yes ← block p fuel
    if ← takeKeyword "else" then
      if ← takeKeyword "if" then return .branch guard yes [← branch p fuel]
      else return .branch guard yes (← block p fuel)
    else return .branch guard yes []

def whileLoop (p : Place) : (fuel : Nat) → Reader Stmt
  | 0 => fail .tooComplex
  | fuel + 1 => do
    let p ← deeper p
    let guard ← condition p fuel
    return .repeatWhile (some guard) (← block { p with inLoop := true } fuel)

def doLoop (p : Place) : (fuel : Nat) → Reader Stmt
  | 0 => fail .tooComplex
  | fuel + 1 => do
    let p ← deeper p
    let body ← block { p with inLoop := true } fuel
    let negated ← do
      if ← takeKeyword "while" then pure false
      else if ← takeKeyword "until" then pure true
      else fail (.missing "while" "for the do statement")
    return .repeatThen body negated (← condition p fuel)

def forLoop (p : Place) : (fuel : Nat) → Reader Stmt
  | 0 => fail .tooComplex
  | fuel + 1 => do
    let p ← deeper p
    let (name, counter) ← do
      if ← takeSymbol "(" then
        let name ← variableName
        unless ← takeSymbol "," do fail (.missing "," "after the iteration variable name")
        let counter ← variableName
        if counter = name then fail (.duplicateVariable counter)
        unless ← takeSymbol ")" do fail (.missing ")" "to close the iteration variable")
        pure (name, some counter)
      else pure (← variableName, none)
    unless ← takeKeyword "in" do missing "in" "after the iteration variable"
    ensureCondition
    let source ← ensureIterable (← expression p fuel)
    let body ← inScope do
      counter.forM fun c => declare c false
      declare name false
      block { p with inLoop := true } fuel
    return .forEach name counter source body

def attempt (p : Place) : (fuel : Nat) → Reader Stmt
  | 0 => fail .tooComplex
  | fuel + 1 => do
    let p ← deeper p
    let body ← block p fuel
    unless ← takeKeyword "catch" do fail (.missing "catch" "for the 'try' statement")
    let name ← do
      if ← takeSymbol "(" then
        let name ← variableName
        unless ← takeSymbol ")" do fail (.missing ")" "to enclose the catch variable")
        pure (some name)
      else do
        let _ ← takeSymbol "()"
        pure none
    let handler ← inScope do
      name.forM fun n => declare n false
      block p fuel
    return .attempt body name handler

def declaration (p : Place) (isConstant : Bool) : (fuel : Nat) → Reader Stmt
  | 0 => fail .tooComplex
  | fuel + 1 => do
    let name ← variableName
    let value ← do
      if ← takeSymbol "=" then expression p fuel else pure (.literal .unit)
    declare name isConstant
    return .declare name isConstant value

def function (p : Place) : (fuel : Nat) → Reader Unit
  | 0 => fail .tooComplex
  | fuel + 1 => do
    let name ← match ← next with
      | .name s => pure s
      | .reserved s => fail (.reserved s)
      | _ => fail .functionName
    let parameters ← do
      if ← takeSymbol "()" then pure []
      else if ← takeSymbol "(" then
        if ← takeSymbol ")" then pure [] else parameterList name [] fuel
      else fail (.functionParameters name)
    unless isSymbol "\x7b" (← peek) do fail (.functionBody name)
    let outer ← get
    set { outer with locals := parameters.reverse.map fun x => (x, false), externals := [] }
    let place : Place := { p with
      level := 0, maxLevel := p.maxLevel / 2, inLoop := false, atTop := false, inFunction := true }
    let body ← block place fuel
    if outer.functions.any fun f => f.name = name && f.parameters.length = parameters.length then
      fail (.functionExists name parameters.length)
    modify fun s => { s with
      locals := outer.locals
      externals := outer.externals
      functions := ⟨name, parameters, body⟩ :: s.functions }

/-- The parameters of a function after those already read, up to the closing parenthesis. -/
def parameterList (name : String) (before : List String) : (fuel : Nat) → Reader (List String)
  | 0 => fail .tooComplex
  | fuel + 1 => do
    match ← next with
    | .symbol ")" => return before
    | .name s =>
      if before.contains s then fail (.duplicateParameter (some name) s)
      let parameters := before ++ [s]
      match ← next with
      | .symbol ")" => return parameters
      | .symbol "," => parameterList name parameters fuel
      | .fault f => fail (.token f)
      | _ => fail (.missing "," ("to separate the parameters of function '" ++ name ++ "'"))
    | .fault f => fail (.token f)
    | _ => fail (.missing ")" ("to close the parameters list of function '" ++ name ++ "'"))

def select (p : Place) : (fuel : Nat) → Reader Stmt
  | 0 => fail .tooComplex
  | fuel + 1 => do
    let p ← deeper p
    let subject ← expression p fuel
    expectSymbol "\x7b" "to start a switch block"
    let (cases, default) ← switchCases p none fuel
    return .select subject cases default

/-- The cases of a `switch` up to the closing brace. -/
def switchCases (p : Place) (default : Option Expr) :
    (fuel : Nat) → Reader (List SwitchCase × Option Expr)
  | 0 => fail .tooComplex
  | fuel + 1 => do
    let atEnd := "to end this switch block"
    let finishCase (needsComma : Bool) : Reader Unit := do
      match ← peek with
      | .symbol "," => skip
      | .symbol "\x7d" => return
      | .finish => fail (.missing ")" atEnd)
      | .fault f => fail (.token f)
      | _ => if needsComma then fail (.missing "," "to separate the items in this switch block")
    match ← peek with
    | .symbol "\x7d" => skip; return ([], default)
    | .finish => fail (.missing "\x7d" atEnd)
    | token =>
      if default.isSome then fail .defaultCaseNotLast
      else if isSymbol "_" token then
        skip
        if isKeyword "if" (← peek) then fail .defaultCaseCondition
        expectSymbol "=>" "in this switch case"
        let (action, needsComma) ← caseAction p fuel
        finishCase needsComma
        switchCases p (some action) fuel
      else
        let patterns ← casePatterns p fuel
        let guard ← do
          if ← takeKeyword "if" then pure (some (← condition p fuel)) else pure none
        expectSymbol "=>" "in this switch case"
        let (action, needsComma) ← caseAction p fuel
        finishCase needsComma
        let (rest, default) ← switchCases p default fuel
        return (.mk patterns guard action :: rest, default)

/-- The action of a case, and whether a comma has to follow it. -/
def caseAction (p : Place) : (fuel : Nat) → Reader (Expr × Bool)
  | 0 => fail .tooComplex
  | fuel + 1 => do
    match ← statement { p with atTop := false } fuel with
    | none => return (.literal .unit, true)
    | some (.expression e) => return (e, true)
    | some s => return (.statement s, !s.endsItself)

/-- The patterns of a case, separated by bars. -/
def casePatterns (p : Place) : (fuel : Nat) → Reader (List CasePattern)
  | 0 => fail .tooComplex
  | fuel + 1 => do
    let pattern ← match ← expression { p with barSeparates := true } fuel with
      | .literal value => pure (CasePattern.value value)
      | .binary .range (.literal (.int a)) (.literal (.int b)) => pure (.range a b false)
      | .binary .rangeInclusive (.literal (.int a)) (.literal (.int b)) => pure (.range a b true)
      | _ => fail (.expressionExpected "a literal")
    if ← takeSymbol "|" then return pattern :: (← casePatterns p fuel) else return [pattern]

def expression (p : Place) : (fuel : Nat) → Reader Expr
  | 0 => fail .tooComplex
  | fuel + 1 => do
    let p ← deeper p
    binary p 1 (← unary p fuel) fuel

/-- Adds the operators that bind more strongly than `least` to a left operand. -/
def binary (p : Place) (least : Nat) (left : Expr) : (fuel : Nat) → Reader Expr
  | 0 => fail .tooComplex
  | fuel + 1 => do
    let strength ← nextPrecedence p
    let operator ← peek
    let bindsRight := isSymbol "**" operator
    if strength < least || (strength = least && !bindsRight) then return left
    else
      skip
      let right ← unary p fuel
      let following ← nextPrecedence p
      let right ←
        if (strength = following && bindsRight) || strength < following then
          binary p strength right fuel
        else pure right
      let p ← deeper p
      binary p least (← operation operator left right) fuel

def unary (p : Place) : (fuel : Nat) → Reader Expr
  | 0 => fail .tooComplex
  | fuel + 1 => do
    match ← peek with
    | .symbol "-" =>
      skip
      match ← unary (← deeper p) fuel with
      | .literal (.int n) =>
        if n = -(Word.size 63 : Int) then return .literal (.float (-(Float.ofInt n)))
        else return .literal (.int (-n))
      | .literal (.float x) => return .literal (.float (-x))
      | e => return .unary .negate e
    | .symbol "+" =>
      skip
      match ← unary (← deeper p) fuel with
      | .literal (.int n) => return .literal (.int n)
      | .literal (.float x) => return .literal (.float x)
      | e => return .unary .plus e
    | .symbol "!" => skip; return .unary .not (← unary (← deeper p) fuel)
    | .finish => fail .incomplete
    | _ => primary p fuel

def primary (p : Place) : (fuel : Nat) → Reader Expr
  | 0 => fail .tooComplex
  | fuel + 1 => do
    let inner := { p with barSeparates := false, atTop := false }
    let token ← peek
    let root : Expr ← match token with
      | .finish => fail .incomplete
      | .fault f => fail (.token f)
      | .int n => skip; pure (.literal (.int n))
      | .float x => skip; pure (.literal (.float x))
      | .char c => skip; pure (.literal (.char c))
      | .string s => skip; pure (.literal (.string s))
      | .keyword "true" => skip; pure (.literal (.bool true))
      | .keyword "false" => skip; pure (.literal (.bool false))
      | .symbol "()" => skip; pure (.literal .unit)
      | .symbol "\x7b" => pure (.statement (.block (← block inner fuel)))
      | .symbol "(" =>
        skip
        if ← takeSymbol ")" then pure (.literal .unit)
        else
          let e ← expression (← deeper inner) fuel
          unless ← takeSymbol ")" do missing ")" "for a matching ( in this expression"
          pure e
      | .keyword "if" => skip; pure (.statement (← branch inner fuel))
      | .keyword "while" => skip; pure (.statement (← whileLoop inner fuel))
      | .keyword "loop" =>
        skip
        pure (.statement (.repeatWhile none (← block { inner with inLoop := true } fuel)))
      | .keyword "do" => skip; pure (.statement (← doLoop inner fuel))
      | .keyword "for" => skip; pure (.statement (← forLoop inner fuel))
      | .keyword "switch" => skip; pure (.statement (← select inner fuel))
      | .symbol "|" | .symbol "||" => closure inner fuel
      | .textBefore s =>
        skip
        let parts ← textParts (← deeper inner) fuel
        let first := if s = "" then [] else [Expr.literal (.string s)]
        match first ++ parts with
        | [] => pure (.literal (.string ""))
        | parts => pure (.text parts)
      | .symbol "[" => skip; pure (.array (← arrayItems (← deeper inner) 0 fuel))
      | .symbol "#\x7b" => skip; pure (.object (← members (← deeper inner) [] fuel))
      | .name s =>
        skip
        match ← peek with
        | .symbol "(" | .symbol "()" | .symbol "!" | .symbol "::" => pure ()
        | _ => useVariable s
        pure (.variable s)
      | .reserved s =>
        skip
        match ← peek with
        | .symbol "(" | .symbol "()" | .symbol "!" =>
          if Token.callableWords.contains s then pure (.variable s) else fail (.reserved s)
        | _ =>
          if s = "this" then
            if p.inFunction then pure .receiver
            else fail (.token (.badSymbol "'this' can only be used in functions"))
          else fail (.reserved s)
      | token => fail (.token (.unexpected token.text))
    suffixes p root fuel

/-- What follows a value: arguments, indices, properties and methods. -/
def suffixes (p : Place) (root : Expr) : (fuel : Nat) → Reader Expr
  | 0 => fail .tooComplex
  | fuel + 1 => do
    let inner := { p with barSeparates := false, atTop := false }
    let call (arguments : List Expr) : Reader Expr := do
      match callable? root with
      | some (none, name) => suffixes p (.call name arguments) fuel
      | some (some module, name) => suffixes p (.moduleCall module name arguments) fuel
      | none => return root
    match ← peek with
    | .symbol "()" =>
      if (callable? root).isSome then skip; call [] else return root
    | .symbol "(" =>
      match callable? root with
      | some (_, name) => skip; call (← callArguments (← deeper inner) name fuel)
      | none => return root
    | .symbol "!" =>
      match root with
      | .variable name =>
        skip
        if ← takeSymbol "()" then call []
        else
          unless ← takeSymbol "(" do
            fail (.missing "(" "to start arguments list of function call")
          call (← callArguments (← deeper inner) name fuel)
      | _ => return root
    | .symbol "::" =>
      match root with
      | .variable module =>
        skip
        suffixes p (.moduleVariable module (← variableName)) fuel
      | .moduleVariable module name =>
        skip
        suffixes p (.moduleVariable (module ++ "::" ++ name) (← variableName)) fuel
      | _ => return root
    | .symbol s =>
      if s = "[" || s = "?[" then
        skip
        let index ← expression (← deeper inner) fuel
        ensureIndex root index
        unless ← takeSymbol "]" do missing "]" "for a matching [ in this index expression"
        suffixes p (chain root (.index (s = "?[") index)) fuel
      else if s = "." || s = "?." then
        skip
        let name ← match ← next with
          | .name name => pure name
          | .reserved w => if Token.methodWords.contains w then pure w else fail (.reserved w)
          | _ => fail .propertyExpected
        let isOptional := s = "?."
        match ← peek with
        | .symbol "()" => skip; suffixes p (chain root (.method isOptional name [])) fuel
        | .symbol "(" =>
          skip
          let arguments ← callArguments (← deeper inner) name fuel
          suffixes p (chain root (.method isOptional name arguments)) fuel
        | _ => suffixes p (chain root (.property isOptional name)) fuel
      else return root
    | _ => return root

def callArguments (p : Place) (name : String) : (fuel : Nat) → Reader (List Expr)
  | 0 => fail .tooComplex
  | fuel + 1 => do
    let unclosed : SyntaxFault :=
      .missing ")" ("to close the arguments list of this function call '" ++ name ++ "'")
    match ← peek with
    | .symbol ")" => skip; return []
    | .finish => fail unclosed
    | .fault f => fail (.token f)
    | _ =>
      let argument ← expression p fuel
      match ← peek with
      | .symbol ")" => skip; return [argument]
      | .symbol "," => skip; return argument :: (← callArguments p name fuel)
      | .finish => fail unclosed
      | .fault f => fail (.token f)
      | _ =>
        fail (.missing "," ("to separate the arguments to function call '" ++ name ++ "'"))

/-- The items of an array after `count` of them, up to the closing bracket. -/
def arrayItems (p : Place) (count : Nat) : (fuel : Nat) → Reader (List Expr)
  | 0 => fail .tooComplex
  | fuel + 1 => do
    let unclosed : SyntaxFault := .missing "]" "to end this array literal"
    if p.maxItems ≤ count then fail (.literalTooLarge "Size of array literal" p.maxItems)
    match ← peek with
    | .symbol "]" => skip; return []
    | .finish => fail unclosed
    | _ =>
      let item ← expression p fuel
      match ← peek with
      | .symbol "," => skip
      | .symbol "]" => pure ()
      | .finish => fail unclosed
      | .fault f => fail (.token f)
      | _ => fail (.missing "," "to separate the items of this array literal")
      return item :: (← arrayItems p (count + 1) fuel)

/-- The members of a map after those already read, up to the closing brace. -/
def members (p : Place) (before : List String) : (fuel : Nat) → Reader (List (String × Expr))
  | 0 => fail .tooComplex
  | fuel + 1 => do
    let atEnd := "to end this object map literal"
    match ← peek with
    | .symbol "\x7d" => skip; return []
    | .finish => fail (.missing "\x7d" atEnd)
    | _ =>
      let name ← match ← next with
        | .name s | .string s => pure s
        | .textBefore _ => fail .propertyExpected
        | .reserved s =>
          if SyntaxFault.isNameText s then fail (.reserved s)
          else if before.isEmpty then fail (.missing "\x7d" atEnd) else fail .propertyExpected
        | .fault f => fail (.token f)
        | _ => if before.isEmpty then fail (.missing "\x7d" atEnd) else fail .propertyExpected
      if before.contains name then fail (.duplicateProperty name)
      match ← next with
      | .symbol ":" => pure ()
      | .fault f => fail (.token f)
      | _ =>
        fail (.missing ":" ("to follow the property '" ++ name ++ "' in this object map literal"))
      if p.maxMembers ≤ before.length then
        fail (.literalTooLarge "Number of properties in object map literal" p.maxMembers)
      let value ← expression p fuel
      match ← peek with
      | .symbol "," => skip
      | .symbol "\x7d" => pure ()
      | .name _ => fail (.missing "," "to separate the items of this object map literal")
      | .fault f => fail (.token f)
      | _ => fail (.missing "\x7d" atEnd)
      return (name, value) :: (← members p (name :: before) fuel)

/-- The parts of a back-quoted text from an expression on. -/
def textParts (p : Place) : (fuel : Nat) → Reader (List Expr)
  | 0 => fail .tooComplex
  | fuel + 1 => do
    let body ← block p fuel
    let part : Expr := .statement (.block body)
    let literal (s : String) : List Expr := if s = "" then [] else [.literal (.string s)]
    match ← next with
    | .string s => return part :: literal s
    | .textBefore s => return part :: literal s ++ (← textParts p fuel)
    | .fault f => fail (.token f)
    | _ => fail .incomplete

def closure (p : Place) : (fuel : Nat) → Reader Expr
  | 0 => fail .tooComplex
  | fuel + 1 => do
    let parameters ← match ← next with
      | .symbol "||" => pure []
      | _ => closureParameters [] fuel
    let outer ← get
    set { outer with locals := parameters.reverse.map fun x => (x, false), externals := [] }
    let place : Place := { p with inLoop := false, atTop := false, inFunction := true }
    let body ← do
      match ← statement place fuel with
      | some s => pure s
      | none => pure (.block [])
    let captures := (← get).externals
    modify fun s => { s with locals := outer.locals, externals := outer.externals }
    captures.forM useVariable
    return .closure captures parameters body

/-- The parameters of a closure after those already read, up to the closing bar. -/
def closureParameters (before : List String) : (fuel : Nat) → Reader (List String)
  | 0 => fail .tooComplex
  | fuel + 1 => do
    match ← next with
    | .symbol "|" => return before
    | .name s =>
      if before.contains s then fail (.duplicateParameter none s)
      match ← next with
      | .symbol "|" => return before ++ [s]
      | .symbol "," => closureParameters (before ++ [s]) fuel
      | .fault f => fail (.token f)
      | _ => fail (.missing "," "to separate the parameters of anonymous function")
    | .fault f => fail (.token f)
    | _ =>
      fail (.missing "|" "to close the parameters list of anonymous function or closure")

end

end Reader

structure LiteralLimits where
  stringBytes : Nat
  items : Nat
  members : Nat
deriving DecidableEq, Repr

def Program.ofText (limits : LiteralLimits) (text : String) : Except SyntaxFault Program := do
  let tokens := Lexer.scan limits.stringBytes text
  let fuel := 24 * tokens.length + 64
  let place : Place := { maxItems := limits.items, maxMembers := limits.members }
  let (body, state) ← (Reader.statements place true fuel).run { tokens }
  return ⟨state.functions.reverse, body⟩

end Agents.Script
