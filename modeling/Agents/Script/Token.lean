import Agents.Script.SyntaxFault
import Agents.Text.Blank
import Agents.Word

/-! # Tokens of scripts

A text is cut into tokens from left to right; what cannot be cut is a token too, the last one.

Text between back-quotes may hold expressions in `${…}`. It is cut where an expression begins and
resumes after the brace that closes it, so the reader counts the braces that are open.
-/

namespace Agents.Script

inductive Token where
  | int (value : Int)
  | float (value : Float)
  | char (value : Char)
  | string (value : String)
  /-- Text that is followed by an expression in braces. -/
  | textBefore (value : String)
  | name (name : String)
  | keyword (word : String)
  | symbol (text : String)
  /-- A word or symbol that is set aside. -/
  | reserved (word : String)
  | fault (fault : LexFault)
  | finish
deriving Repr, Inhabited

namespace Token

def keywords : List String :=
  ["true", "false", "let", "const", "if", "else", "switch", "do", "while", "until", "loop", "for",
    "in", "fn", "private", "import", "export", "as", "return", "throw", "break", "continue", "try",
    "catch"]

/-- Words that may name neither variables nor functions of a script. -/
def reservedWords : List String :=
  ["async", "await", "call", "case", "curry", "debug", "default", "eval", "Fn", "go", "goto", "is",
    "is_def_fn", "is_def_var", "is_shared", "match", "module", "new", "nil", "null", "package",
    "print", "protected", "public", "shared", "spawn", "static", "super", "sync", "this", "thread",
    "type_of", "use", "var", "void", "with", "yield"]

/-- Reserved words that can be called. -/
def callableWords : List String :=
  ["call", "curry", "debug", "Fn", "is_def_fn", "is_def_var", "is_shared", "print", "type_of"]

/-- Reserved words that can be called as methods. -/
def methodWords : List String := ["call", "curry", "debug", "is_shared", "type_of"]

def text : Token → String
  | .int n => toString n
  | .float _ => "number"
  | .char c => toString c
  | .string s => "\"" ++ s ++ "\""
  | .textBefore _ => "string"
  | .name s | .keyword s | .symbol s | .reserved s => s
  | .fault f => f.message
  | .finish => "\x7bEOF\x7d"

end Token

namespace Lexer

/-! ## Symbols -/

/-- Symbols with a meaning, longest first. -/
def symbols : List String :=
  ["**=", "<<=", ">>=", "..=", "!in", "+=", "-=", "*=", "/=", "%=", "&=", "|=", "^=", "**", "<<",
    ">>", "..", "::", "=>", "==", "!=", "<=", ">=", "&&", "||", "??", "?.", "?[", "()", "#\x7b",
    "\x7b", "\x7d", "(", ")", "[", "]", "+", "-", "*", "/", "%", "&", "|", "^", "!", "=", "<", ">",
    ",", ";", ":", "."]

/-- Symbols without a meaning, longest first. -/
def reservedSymbols : List String :=
  ["===", "!==", "...", "::<", "->", "<-", ":=", ":;", "(*", "*)", "++", "--", "!.", "|>", "<|",
    "~>", "#!", "~", "@", "$", "?", "#"]

/-- What to say about a symbol that belongs to another language. -/
def advice? : String → Option String
  | "===" => some "'===' is not a valid operator. This is not JavaScript! Should it be '=='?"
  | "!==" => some "'!==' is not a valid operator. This is not JavaScript! Should it be '!='?"
  | "->" => some "'->' is not a valid symbol. This is not C or C++!"
  | "<-" => some "'<-' is not a valid symbol. This is not Go! Should it be '<='?"
  | ":=" =>
    some ("':=' is not a valid assignment operator. This is not Go or Pascal! "
      ++ "Should it be simply '='?")
  | ":;" => some "':;' is not a valid symbol. Should it be '::'?"
  | "::<" => some "'::<>' is not a valid symbol. This is not Rust! Should it be '::'?"
  | "(*" | "*)" =>
    some "'(* .. *)' is not a valid comment format. This is not Pascal! Should it be '/* .. */'?"
  | "#" => some "'#' is not a valid symbol. Should it be '#\x7b'?"
  | _ => none

def isWordStart (c : Char) : Bool := c.isAlpha || c = '_'

def isWordChar (c : Char) : Bool := c.isAlphanum || c = '_'

/-- The first of some symbols that a text begins with; one that ends in a letter is not followed by
another. -/
def startsWith? (candidates : List String) (s : List Char) : Option (String × List Char) :=
  (candidates.find? fun c =>
    c.toList.isPrefixOf s && !(c = "!in" && (s.drop 3).head?.any isWordChar)).map
    fun c => (c, s.drop c.length)

/-- The symbol at the front; of all that fit the longest. -/
def symbol? (s : List Char) : Option (Token × List Char) :=
  match startsWith? symbols s, startsWith? reservedSymbols s with
  | some (sym, rest), some (other, after) =>
    if other.length > sym.length then some (refuse other, after) else some (.symbol sym, rest)
  | some (sym, rest), none => some (.symbol sym, rest)
  | none, some (other, after) => some (refuse other, after)
  | none, none => none
where
  /-- A symbol that has no meaning. -/
  refuse (text : String) : Token :=
    match advice? text with
    | some advice => .fault (.badSymbol advice)
    | none => .reserved text

/-! ## Words -/

def word (text : String) : Token :=
  if Token.keywords.contains text then .keyword text
  else if text = "eval" then .fault (.badSymbol "reserved keyword 'eval' is disabled")
  else if Token.reservedWords.contains text then .reserved text
  else if text = "_" then .symbol "_"
  else if text.toList.all (· = '_')
      || ((text.toList.dropWhile (· = '_')).head?.all Char.isDigit) then
    .fault (.badName text)
  else .name text

/-! ## Numbers -/

def digitValue (c : Char) : Nat :=
  if c.isDigit then c.toNat - '0'.toNat
  else if 'a' ≤ c ∧ c ≤ 'f' then c.toNat - 'a'.toNat + 10
  else c.toNat - 'A'.toNat + 10

def isHexDigit (c : Char) : Bool := c.isDigit || ('a' ≤ c && c ≤ 'f') || ('A' ≤ c && c ≤ 'F')

def natOf (base : Nat) (digits : List Char) : Nat :=
  digits.foldl (fun n c => base * n + digitValue c) 0

/-- The digits at the front without their separators, and what follows them. -/
def digitRun (isDigit : Char → Bool) (s : List Char) : List Char × List Char :=
  let run := s.takeWhile fun c => isDigit c || c = '_'
  (run.filter (· ≠ '_'), s.drop run.length)

/-- A number with a prefix that names its base; it has at most 64 bits, which are read as a signed
integer. -/
def radixNumber (base : Nat) (s : List Char) : Token × List Char :=
  let (digits, rest) := digitRun (if base = 16 then isHexDigit else Char.isDigit) s
  if digits.isEmpty || digits.any (fun c => base ≤ digitValue c)
      || Word.size 64 ≤ natOf base digits then
    (.fault (.badNumber (String.ofList digits)), rest)
  else
    let n := natOf base digits
    (.int (if n < Word.size 63 then n else (n : Int) - Word.size 64), rest)

/-- The exponent at the front, if one is there. -/
def exponent? (s : List Char) : Option (Int × List Char) :=
  match s with
  | 'e' :: sign :: rest | 'E' :: sign :: rest =>
    let (negative, digits) :=
      if sign = '-' then (true, rest)
      else if sign = '+' then (false, rest)
      else (false, sign :: rest)
    let (ds, after) := digitRun Char.isDigit digits
    if (sign.isDigit || sign = '-' || sign = '+') && !ds.isEmpty then
      let n : Int := natOf 10 ds
      some (if negative then -n else n, after)
    else none
  | _ => none

/-- `digits · 10^exponent` as a double. -/
def decimalFloat (digits : Nat) (exponent : Int) : Float :=
  match max (-5000) (min 5000 exponent) with
  | .ofNat e => Float.ofScientific digits false e
  | .negSucc e => Float.ofScientific digits true (e + 1)

/-- A decimal number. A point belongs to it when a digit follows, or something that cannot begin
the name of a property. An integer that is too large is a double. -/
def decimalNumber (s : List Char) : Token × List Char :=
  let (whole, rest) := digitRun Char.isDigit s
  let (hasPoint, fraction, rest) :=
    match rest with
    | '.' :: c :: after =>
      if c.isDigit then
        let (digits, after) := digitRun Char.isDigit (c :: after)
        (true, digits, after)
      else if c = '_' || c = '.' || isWordStart c then (false, [], rest)
      else (true, [], c :: after)
    | ['.'] => (false, [], rest)
    | _ => (false, [], rest)
  let digits := natOf 10 (whole ++ fraction)
  match exponent? rest with
  | some (e, after) => (.float (decimalFloat digits (e - fraction.length)), after)
  | none =>
    if hasPoint then (.float (decimalFloat digits (-(fraction.length : Int))), rest)
    else if digits < Word.size 63 then (.int digits, rest)
    else (.float (decimalFloat digits 0), rest)

def number (s : List Char) : Token × List Char :=
  match s with
  | '0' :: 'x' :: rest | '0' :: 'X' :: rest => radixNumber 16 rest
  | '0' :: 'o' :: rest | '0' :: 'O' :: rest => radixNumber 8 rest
  | '0' :: 'b' :: rest | '0' :: 'B' :: rest => radixNumber 2 rest
  | s => decimalNumber s

/-! ## Strings -/

inductive StringEnd where
  | closed
  | expression
  | failed (fault : LexFault)
deriving Repr

/-- The character of an escape after its backslash, and how much of the text it takes. -/
def escape (quote : Char) (s : List Char) : Except LexFault (Char × List Char) :=
  let hex (mark : Char) (count : Nat) (rest : List Char) : Except LexFault (Char × List Char) :=
    let digits := rest.take count
    let written := String.ofList ('\\' :: mark :: digits)
    if digits.length = count ∧ digits.all isHexDigit then
      let n := natOf 16 digits
      if h : n.isValidChar then .ok (Char.ofNatAux n h, rest.drop count)
      else .error (.badEscape written)
    else .error (.badEscape (String.ofList ('\\' :: mark :: (digits.takeWhile isHexDigit)
      ++ ((digits.dropWhile isHexDigit).take 1))))
  match s with
  | [] => .error .openString
  | c :: rest =>
    if c = '\\' ∨ c = quote then .ok (c, rest)
    else if c = 't' then .ok ('\t', rest)
    else if c = 'n' then .ok ('\n', rest)
    else if c = 'r' then .ok ('\r', rest)
    else if c = 'x' then hex c 2 rest
    else if c = 'u' then hex c 4 rest
    else if c = 'U' then hex c 8 rest
    else .error (.badEscape (String.ofList ['\\', c]))

/-- The white space that a continued line begins with. -/
def skipIndent (s : List Char) : List Char := s.dropWhile fun c => Text.isBlank c && c ≠ '\n'

/-- A quoted string after its quote; a doubled quote stands for the quote. The characters are
collected in reverse, with their number of bytes. -/
def quoted (quote : Char) (limit : Nat) :
    (fuel : Nat) → (collected : List Char) → (bytes : Nat) → List Char →
      List Char × StringEnd × List Char
  | 0, collected, _, s => (collected.reverse, .failed .openString, s)
  | fuel + 1, collected, bytes, s =>
    if limit < bytes then (collected.reverse, .failed (.longString limit), s)
    else match s with
      | [] => (collected.reverse, .failed .openString, [])
      | '\\' :: '\n' :: rest => quoted quote limit fuel collected bytes (skipIndent rest)
      | '\\' :: rest =>
        match escape quote rest with
        | .ok (c, rest) => quoted quote limit fuel (c :: collected) (bytes + c.utf8Size) rest
        | .error fault => (collected.reverse, .failed fault, rest)
      | c :: rest =>
        if c = quote then
          match rest with
          | d :: after =>
            if d = quote then quoted quote limit fuel (c :: collected) (bytes + 1) after
            else (collected.reverse, .closed, rest)
          | [] => (collected.reverse, .closed, [])
        else if c = '\n' then (collected.reverse, .failed .openString, rest)
        else quoted quote limit fuel (c :: collected) (bytes + c.utf8Size) rest

/-- Text between back-quotes, up to its end or to the brace of an expression. -/
def freeText (limit : Nat) :
    (fuel : Nat) → (collected : List Char) → (bytes : Nat) → List Char →
      List Char × StringEnd × List Char
  | 0, collected, _, s => (collected.reverse, .failed .openString, s)
  | fuel + 1, collected, bytes, s =>
    if limit < bytes then (collected.reverse, .failed (.longString limit), s)
    else match s with
      | [] => (collected.reverse, .failed .openString, [])
      | '\x60' :: '\x60' :: rest => freeText limit fuel ('\x60' :: collected) (bytes + 1) rest
      | '\x60' :: rest => (collected.reverse, .closed, rest)
      | '$' :: '\x7b' :: rest => (collected.reverse, .expression, rest)
      | c :: rest => freeText limit fuel (c :: collected) (bytes + c.utf8Size) rest

/-! ## Comments -/

/-- What follows a block comment after its opening mark; blocks nest, and may be left open. -/
def skipBlock : (depth : Nat) → List Char → List Char
  | _, [] => []
  | depth, '/' :: '*' :: rest => skipBlock (depth + 1) rest
  | 0, '*' :: '/' :: rest => rest
  | depth + 1, '*' :: '/' :: rest => skipBlock depth rest
  | depth, _ :: rest => skipBlock depth rest

/-! ## Tokens -/

/-- The tokens of a text. For every expression inside a back-quoted text the list `braces` holds
the number of braces that are open in it. -/
def tokens (limit : Nat) : (fuel : Nat) → (braces : List Nat) → List Char → List Token
  | 0, _, _ => [.finish]
  | fuel + 1, braces, s =>
    /- Continues after a piece of back-quoted text. -/
    let afterText (braces : List Nat) (piece : List Char × StringEnd × List Char) : List Token :=
      match piece with
      | (cs, .closed, rest) => .string (String.ofList cs) :: tokens limit fuel braces rest
      | (cs, .expression, rest) =>
        .textBefore (String.ofList cs) :: .symbol "\x7b" :: tokens limit fuel (0 :: braces) rest
      | (_, .failed fault, _) => [.fault fault]
    match s with
    | [] => [.finish]
    | '/' :: '/' :: rest => tokens limit fuel braces (rest.dropWhile (· ≠ '\n'))
    | '/' :: '*' :: rest => tokens limit fuel braces (skipBlock 0 rest)
    | '"' :: rest =>
      match quoted '"' limit (rest.length + 1) [] 0 rest with
      | (_, .failed fault, _) => [.fault fault]
      | (cs, _, rest) => .string (String.ofList cs) :: tokens limit fuel braces rest
    | '\x27' :: rest =>
      match quoted '\x27' limit (rest.length + 1) [] 0 rest with
      | (_, .failed fault, _) => [.fault fault]
      | ([c], _, rest) => .char c :: tokens limit fuel braces rest
      | (cs, _, _) => [.fault (.badChar (String.ofList cs))]
    | '\x60' :: rest =>
      let rest := match rest with
        | '\n' :: rest | '\r' :: '\n' :: rest => rest
        | rest => rest
      afterText braces (freeText limit (rest.length + 1) [] 0 rest)
    | '\x7b' :: rest =>
      .symbol "\x7b" :: tokens limit fuel (match braces with
        | n :: outer => (n + 1) :: outer
        | [] => []) rest
    | '#' :: '\x7b' :: rest =>
      .symbol "#\x7b" :: tokens limit fuel (match braces with
        | n :: outer => (n + 1) :: outer
        | [] => []) rest
    | '\x7d' :: rest =>
      match braces with
      | 0 :: outer =>
        .symbol "\x7d" :: afterText outer (freeText limit (rest.length + 1) [] 0 rest)
      | (n + 1) :: outer => .symbol "\x7d" :: tokens limit fuel (n :: outer) rest
      | [] => .symbol "\x7d" :: tokens limit fuel [] rest
    | c :: rest =>
      if Text.isBlank c then tokens limit fuel braces rest
      else if c.isDigit then
        match number s with
        | (.fault fault, _) => [.fault fault]
        | (token, rest) => token :: tokens limit fuel braces rest
      else if isWordStart c then
        match word (String.ofList (s.takeWhile isWordChar)) with
        | .fault fault => [.fault fault]
        | token => token :: tokens limit fuel braces (s.dropWhile isWordChar)
      else match symbol? s with
        | some (.fault fault, _) => [.fault fault]
        | some (token, rest) => token :: tokens limit fuel braces rest
        | none => [.fault (.unexpected (toString c))]

/-- The tokens of a script; strings may have at most `limit` bytes. -/
def scan (limit : Nat) (text : String) : List Token :=
  let s := match text.toList with
    | '#' :: '!' :: rest => rest.dropWhile (· ≠ '\n')
    | s => s
  tokens limit (s.length + 1) [] s

end Lexer

end Agents.Script
