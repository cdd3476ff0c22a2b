import Agents.CommandLine.Console
import Agents.Task.Uuid
import Agents.Word
import Std.Time.DateTime.Timestamp

/-! # The program

The console of the machine that the program runs on. There is no network: every request fails.
-/

namespace Agents.CommandLine

private def readFailure : IO.Error → String
  | .noFileOrDirectory .. => "No such file or directory (os error 2)"
  | .permissionDenied .. => "Permission denied (os error 13)"
  | .inappropriateType .. => "Is a directory (os error 21)"
  | e => toString e

private def fileText (path : String) : IO (Except String String) := do
  match ← (IO.FS.readBinFile path).toBaseIO with
  | .error e => return .error (readFailure e)
  | .ok bytes =>
    match String.fromUTF8? bytes with
    | some text => return .ok text
    | none => return .error "stream did not contain valid UTF-8"

private def nanoseconds : IO Int := do
  return (← Std.Time.Timestamp.now).toNanosecondsSinceUnixEpoch.val

private def clock : IO Timestamp := do
  let n ← nanoseconds
  return { seconds := n / 1000000000, nanoseconds := (n % 1000000000).toNat }

private def newTask : IO TaskId := do
  let high ← IO.rand 0 (Word.size 37 - 1)
  let low ← IO.rand 0 (Word.size 37 - 1)
  return Uuid.taskId ((← nanoseconds) / 1000000).toNat (high * Word.size 37 + low)

private def print (text : String) : IO Unit := do
  let out ← IO.getStdout
  out.putStr text
  out.flush

def machine : Console IO where
  fileText := fileText
  print := print
  printError := IO.eprint
  clock := clock
  newTask := newTask
  http _ := return .error (.http none "there is no network")

end Agents.CommandLine

def main (args : List String) : IO UInt32 := Agents.CommandLine.machine.main args
