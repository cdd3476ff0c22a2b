import Agents.Script.Builtin
import Agents.Script.State

/-! # Modules that scripts may import -/

namespace Agents.Script.Library

def ofName? : String → Option Library
  | "json" => some .json
  | "text" => some .text
  | _ => none

/-- A function of a module on arguments of the right types. -/
def call? (library : Library) (function : String) (arguments : List Value) :
    Option (Except Fault Value) :=
  match library, function, arguments with
  | .json, "parse", [.string s] =>
    match Json.parse s with
    | .ok value => some (.ok (.ofJson value))
    | .error e =>
      some (.error (.thrown (.object
        [("message", .string e.message), ("name", .string "SyntaxError")])))
  | .json, "stringify", [v] => some (.ok (.string v.toPlainJson.compact))
  | .text, "words", [.string s] => some (.ok (.array ((Text.words s).map .string)))
  | .text, "lines", [.string s] => some (.ok (.array ((Text.lines s).map .string)))
  | .text, "capitalize", [.string s] => some (.ok (.string (Text.capitalize s)))
  | _, _, _ => none

end Agents.Script.Library
