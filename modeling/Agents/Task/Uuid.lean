import Agents.Event
import Agents.Word

/-! # Ids of tasks

The id of a task is a UUID of version 7: the time of its making in milliseconds, the version, and
random bits, so that ids that were made later come later.
-/

namespace Agents.Uuid

/-- A number as hexadecimal digits; of a longer number the last ones. -/
def hex (width n : Nat) : List Char :=
  (List.range width).reverse.map fun i => Nat.digitChar (n / Nat.pow 16 i % 16)

/-- The 128 bits of a UUID made at a time from 74 random bits. -/
def bits (milliseconds random : Nat) : Nat :=
  let time := milliseconds % Word.size 48
  let high := random / Word.size 62 % Word.size 12
  let low := random % Word.size 62
  time <<< 80 + 7 <<< 76 + high <<< 64 + 2 <<< 62 + low

/-- The text of a UUID, in groups of 8, 4, 4, 4 and 12 digits. -/
def text (n : Nat) : String :=
  let ds := hex 32 n
  let group (start length : Nat) : String := String.ofList ((ds.drop start).take length)
  "-".intercalate [group 0 8, group 8 4, group 12 4, group 16 4, group 20 12]

def taskId (milliseconds random : Nat) : TaskId := text (bits milliseconds random)

end Agents.Uuid
