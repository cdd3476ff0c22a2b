/-! # Faults in the text of a script

A script that cannot be read is refused with the first fault that is met, from left to right.
-/

namespace Agents.Script

inductive LexFault where
  | unexpected (text : String)
  | openString
  | longString (limit : Nat)
  | badEscape (text : String)
  | badNumber (text : String)
  | badChar (text : String)
  | badName (text : String)
  /-- A symbol of another language, or one that has no meaning here, and what to say about it. -/
  | badSymbol (advice : String)
deriving DecidableEq, Repr, Inhabited

def LexFault.message : LexFault → String
  | .unexpected text => "Unexpected '" ++ text ++ "'"
  | .openString => "Open string is not terminated"
  | .longString limit => "Length of string exceeds the maximum limit (" ++ toString limit ++ ")"
  | .badEscape text => "Invalid escape sequence: '" ++ text ++ "'"
  | .badNumber text => "Invalid number: '" ++ text ++ "'"
  | .badChar text => "Invalid character: '" ++ text ++ "'"
  | .badName text => "Variable name is not proper: '" ++ text ++ "'"
  | .badSymbol advice => advice

/-- Tokens that do not make a script. -/
inductive SyntaxFault where
  | token (fault : LexFault)
  | unknownOperator (symbol : String)
  | badIndex (reason : String)
  | functionExists (name : String) (parameters : Nat)
  | functionBody (name : String)
  | functionParameters (name : String)
  /-- A parameter that is named twice; a closure has no name. -/
  | duplicateParameter (function : Option String) (parameter : String)
  | duplicateProperty (name : String)
  | duplicateVariable (name : String)
  | mismatch (expected found : String)
  | expressionExpected (what : String)
  | missing (token purpose : String)
  | constantAssigned (name : Option String)
  | notAssignable
  | literalTooLarge (what : String) (limit : Nat)
  | reserved (word : String)
  | incomplete
  | defaultCaseNotLast
  | defaultCaseCondition
  | propertyExpected
  | variableExpected
  | nestedFunction
  | functionName
  | tooComplex
  | breakOutsideLoop
deriving DecidableEq, Repr, Inhabited

namespace SyntaxFault

def isNameText (s : String) : Bool :=
  s.toList.all (fun c => c.isAlphanum || c = '_') && s.toList.any Char.isAlpha

def message : SyntaxFault → String
  | .token fault => fault.message
  | .unknownOperator symbol => "Unknown operator: '" ++ symbol ++ "'"
  | .badIndex reason => reason
  | .functionExists name 0 => "Function " ++ name ++ " already exists"
  | .functionExists name 1 => "Function " ++ name ++ " with 1 parameter already exists"
  | .functionExists name n =>
    "Function " ++ name ++ " with " ++ toString n ++ " parameters already exists"
  | .functionBody name => "Expecting body statement block for function " ++ name
  | .functionParameters name => "Expecting parameters for function " ++ name
  | .duplicateParameter none parameter =>
    "Duplicated parameter " ++ parameter ++ " for anonymous function"
  | .duplicateParameter (some name) parameter =>
    "Duplicated parameter " ++ parameter ++ " for function " ++ name
  | .duplicateProperty name => "Duplicated property for object map literal: " ++ name
  | .duplicateVariable name => "Duplicated variable name: " ++ name
  | .mismatch expected found => "Expecting " ++ expected ++ ", not " ++ found
  | .expressionExpected what => "Expecting " ++ what ++ " expression"
  | .missing symbol purpose => "Expecting '" ++ symbol ++ "' " ++ purpose
  | .constantAssigned none => "Cannot assign to a constant value"
  | .constantAssigned (some name) => "Cannot assign to constant " ++ name
  | .notAssignable => "Expression cannot be assigned to"
  | .literalTooLarge what limit =>
    what ++ " exceeds the maximum limit (" ++ toString limit ++ ")"
  | .reserved word =>
    "'" ++ word ++ "' is a reserved " ++ (if isNameText word then "keyword" else "symbol")
  | .incomplete => "Script is incomplete"
  | .defaultCaseNotLast => "Default switch case must be the last"
  | .defaultCaseCondition => "This switch case cannot have a condition"
  | .propertyExpected => "Expecting name of a property"
  | .variableExpected => "Expecting name of a variable"
  | .nestedFunction =>
    "Function definitions must be at global level and cannot be inside a block or another function"
  | .functionName => "Expecting name in function declaration"
  | .tooComplex => "Expression exceeds maximum complexity"
  | .breakOutsideLoop => "Break statement should only be used inside a loop"

end SyntaxFault

end Agents.Script
