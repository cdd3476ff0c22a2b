import Agents.CommandLine.Arguments

/-! # Commands of the program

An agent of a project file can be run, and identities can be turned into tokens and back.
-/

namespace Agents.CommandLine

structure RunCommand where
  project : String
  agent : String
  /-- Inputs as `name=value`. -/
  inputs : List String := []
  config : Option String := none
  replies : List String := []
  /-- Events are printed as JSON instead of the text in them. -/
  events : Bool := false
deriving DecidableEq, Repr, Inhabited

inductive Command where
  | run (command : RunCommand)
  | encodeId (project agent : String) (component revision : Option String)
  | decodeId (token : String)
  | help (text : String)
deriving DecidableEq, Repr, Inhabited

namespace Command

def program : String := "demo"

/-! ## What the commands take -/

def runSpec : CommandSpec where
  name := "run"
  about := "Run one agent of a project file"
  positionals := [
    { name := "PROJECT", help := "Project JSON file", isPath := true },
    { name := "AGENT", help := "Agent id or identity token" }]
  options := [
    { long := "input", letter := some 'i', value := some "NAME=VALUE", repeatable := true
      help := "Input value as name=value; values that parse as JSON are used as such" },
    { long := "config", letter := some 'c', value := some "CONFIG", isPath := true
      help := "Runtime configuration (TOML)" },
    { long := "reply", value := some "REPLIES", repeatable := true
      help := "Scripted model reply; repeat to script several calls" },
    { long := "events"
      help := "Print every event as a JSON line instead of the streamed text" }]

def encodeSpec : CommandSpec where
  name := "encode-id"
  about := "Print the token for an agent identity"
  positionals := [{ name := "PROJECT" }, { name := "AGENT" }]
  options := [
    { long := "component", value := some "COMPONENT" },
    { long := "revision", value := some "REVISION" }]

def decodeSpec : CommandSpec where
  name := "decode-id"
  about := "Print the identity a token encodes"
  positionals := [{ name := "TOKEN" }]

/-- Every command with what its arguments mean. -/
def table : List (CommandSpec × (Arguments → Command)) := [
  (runSpec, fun a => .run {
    project := a.positional 0
    agent := a.positional 1
    inputs := a.all "input"
    config := a.one? "config"
    replies := a.all "reply"
    events := a.has "events" }),
  (encodeSpec, fun a =>
    .encodeId (a.positional 0) (a.positional 1) (a.one? "component") (a.one? "revision")),
  (decodeSpec, fun a => .decodeId (a.positional 0))]

/-! ## Help -/

def usage : String := "Usage: " ++ program ++ " <COMMAND>"

/-- The help text of the program; the long one is set differently. -/
def helpText (long : Bool) : String :=
  let about :=
    if long then "Runs LOOM agents from a project file with offline mock models,\n"
      ++ "streaming their text and printing the final outputs."
    else "LOOM agent runtime demo"
  let commands := table.map fun (c, _) => (c.name, c.about)
  let help := ("help", "Print this message or the help of the given subcommand(s)")
  about ++ "\n\n" ++ usage ++ "\n\nCommands:\n" ++ CommandSpec.columns (commands ++ [help])
    ++ "\nOptions:\n"
    ++ if long then "  -h, --help\n          Print help (see a summary with '-h')\n"
      else "  -h, --help  Print help (see more with '--help')\n"

/-! ## Reading -/

def find? (name : String) : Option (CommandSpec × (Arguments → Command)) :=
  table.find? (·.1.name = name)

/-- The command that some arguments ask for; nothing if they cannot be used. -/
def ofArgs? : List String → Option Command
  | [] => none
  | ["help"] | "--help" :: _ => some (.help (helpText true))
  | ["help", name] => (find? name).map fun (c, _) => .help (c.help program)
  | name :: args =>
    match name.toList with
    | '-' :: 'h' :: _ => some (.help (helpText false))
    | _ =>
      match find? name with
      | none => none
      | some (c, meaning) =>
        match c.read args with
        | .ok given => some (meaning given)
        | .error .help => some (.help (c.help program))
        | .error .usage => none

end Command

end Agents.CommandLine
