import Agents.Text.Search

/-! # Arguments of a command

A command takes positional arguments, and options that have a long name and perhaps a letter. The
value of an option is the next argument, or is attached to it. After `--` every argument is
positional. An option may be given twice only if it collects its values.
-/

namespace Agents.CommandLine

structure Positional where
  name : String
  help : String := ""
  /-- The argument is the path of a file, which is never empty. -/
  isPath : Bool := false
deriving DecidableEq, Repr, Inhabited

structure OptionSpec where
  long : String
  letter : Option Char := none
  /-- What the value is called; an option without a value has none. -/
  value : Option String := none
  repeatable : Bool := false
  isPath : Bool := false
  help : String := ""
deriving DecidableEq, Repr, Inhabited

structure CommandSpec where
  name : String
  about : String
  positionals : List Positional := []
  options : List OptionSpec := []
deriving Inhabited

structure Arguments where
  positionals : List String := []
  /-- Options by their long names, in the order in which they were given. -/
  options : List (String × String) := []
deriving DecidableEq, Repr, Inhabited

namespace Arguments

def positional (i : Nat) (a : Arguments) : String := a.positionals[i]?.getD ""

def has (long : String) (a : Arguments) : Bool := a.options.any (·.1 = long)

/-- The values of an option. -/
def all (long : String) (a : Arguments) : List String :=
  (a.options.filter (·.1 = long)).map (·.2)

def one? (long : String) (a : Arguments) : Option String := (a.all long).head?

end Arguments

inductive Refusal where
  /-- The help text was asked for. -/
  | help
  | usage
deriving DecidableEq, Repr, Inhabited

/-! ## Reading -/

/-- How far the arguments were read. -/
structure Reading where
  given : Arguments := {}
  /-- The option that waits for its value. -/
  pending : Option OptionSpec := none
  onlyPositional : Bool := false
deriving Inhabited

namespace CommandSpec

def optionNamed? (long : String) (c : CommandSpec) : Option OptionSpec :=
  c.options.find? (·.long = long)

def optionOf? (letter : Char) (c : CommandSpec) : Option OptionSpec :=
  c.options.find? (·.letter = some letter)

def addPositional (c : CommandSpec) (r : Reading) (arg : String) : Except Refusal Reading :=
  match c.positionals[r.given.positionals.length]? with
  | none => .error .usage
  | some p =>
    if p.isPath ∧ arg = "" then .error .usage
    else .ok { r with given.positionals := r.given.positionals ++ [arg] }

def addOption (r : Reading) (o : OptionSpec) (value : String) : Except Refusal Reading :=
  if (r.given.has o.long && !o.repeatable) || (o.isPath && value = "") then .error .usage
  else .ok { r with given.options := r.given.options ++ [(o.long, value)], pending := none }

/-- Sets an option with the value attached to it, if there is one. -/
def takeOption (r : Reading) (o : OptionSpec) (attached : Option String) :
    Except Refusal Reading :=
  match o.value, attached with
  | some _, some value => addOption r o value
  | some _, none => .ok { r with pending := some o }
  | none, none => addOption r o ""
  | none, some _ => .error .usage

/-- An argument with two dashes, which are left out here. -/
def readLong (c : CommandSpec) (r : Reading) (arg : List Char) : Except Refusal Reading :=
  let (long, attached) := match Text.splitAtFirst ['='] arg with
    | some (long, value) => (String.ofList long, some (String.ofList value))
    | none => (String.ofList arg, none)
  if long = "help" then .error (if attached.isNone then .help else .usage)
  else match c.optionNamed? long with
    | some o => takeOption r o attached
    | none => .error .usage

/-- The letters after one dash; what follows an option with a value is its value. -/
def readLetters (c : CommandSpec) (r : Reading) : List Char → Except Refusal Reading
  | [] => .ok r
  | 'h' :: _ => .error .help
  | letter :: rest =>
    match c.optionOf? letter with
    | none => .error .usage
    | some o =>
      if o.value.isSome then
        takeOption r o (match rest with
          | [] => none
          | '=' :: value => some (String.ofList value)
          | value => some (String.ofList value))
      else do c.readLetters (← takeOption r o none) rest

def readArg (c : CommandSpec) (r : Reading) (arg : String) : Except Refusal Reading :=
  let plain : Except Refusal Reading := match r.pending with
    | some o => addOption r o arg
    | none => c.addPositional r arg
  if r.onlyPositional then c.addPositional r arg
  else match arg.toList with
    | '-' :: c₁ :: rest =>
      if r.pending.isSome then .error .usage
      else match c₁, rest with
        | '-', [] => .ok { r with onlyPositional := true }
        | '-', long => c.readLong r long
        | letter, more => c.readLetters r (letter :: more)
    | _ => plain

/-- Reads all arguments; none may be missing. -/
def read (c : CommandSpec) (args : List String) : Except Refusal Arguments := do
  let r ← args.foldlM c.readArg {}
  if r.pending.isSome || r.given.positionals.length < c.positionals.length then throw .usage
  return r.given

/-! ## Help -/

private def filled (width : Nat) (s : String) : String :=
  s ++ String.ofList (List.replicate (width - s.length) ' ')

/-- Rows of two columns, the first as wide as its widest text. -/
def columns (rows : List (String × String)) : String :=
  let width := (rows.map (·.1.length)).foldl max 0 + 2
  String.join (rows.map fun (left, right) => "  " ++ filled width left ++ right ++ "\n")

def optionForm (o : OptionSpec) : String :=
  (match o.letter with
    | some letter => "-" ++ String.singleton letter ++ ", "
    | none => "    ")
  ++ "--" ++ o.long ++ ((o.value.map fun v => " <" ++ v ++ ">").getD "")

def usage (program : String) (c : CommandSpec) : String :=
  "Usage: " ++ program ++ " " ++ c.name ++ (if c.options.isEmpty then "" else " [OPTIONS]")
    ++ String.join (c.positionals.map fun p => " <" ++ p.name ++ ">")

def help (program : String) (c : CommandSpec) : String :=
  c.about ++ "\n\n" ++ c.usage program ++ "\n\nArguments:\n"
    ++ columns (c.positionals.map fun p => ("<" ++ p.name ++ ">", p.help))
    ++ "\nOptions:\n"
    ++ columns (c.options.map (fun o => (optionForm o, o.help)) ++ [("-h, --help", "Print help")])

end CommandSpec

end Agents.CommandLine
