import Agents.Digest.Sha256
import Agents.Event
import Agents.Json.Parser
import Agents.Json.Printer

/-! # The hash chain of recorded events

Each recorded event carries the digest of its run id, its sequence number, the digest before it
and its own text. A list of recorded events is valid when each entry names its predecessor's
digest and its own digest is right; whoever changes an entry changes every digest after it.
-/

namespace Agents

/-- An event with its place in a chain. -/
structure RecordedEvent where
  sequence : Nat
  runId : String
  event : Event
  prevHash : String
  thisHash : String
deriving Inhabited

namespace Chain

/-- What the first entry of a chain names as its predecessor. -/
def genesis : String := String.ofList (List.replicate 64 '0')

/-- The eight bytes of a number, least significant first. -/
def littleEndian (n : Nat) : List UInt8 := (Sha256.bigEndian 8 n).reverse

def hashedBytes (runId : String) (sequence : Nat) (prevHash : String) (event : Event) :
    List UInt8 :=
  runId.toUTF8.toList ++ littleEndian sequence ++ prevHash.toUTF8.toList
    ++ event.toJson.compact.toUTF8.toList

def hash (runId : String) (sequence : Nat) (prevHash : String) (event : Event) : String :=
  Sha256.hex (hashedBytes runId sequence prevHash event)

/-- Whether the entries follow one another from the given digest. -/
def verifyFrom (prevHash : String) : List RecordedEvent → Bool
  | [] => true
  | e :: rest =>
    e.prevHash = prevHash && e.thisHash = hash e.runId e.sequence e.prevHash e.event
      && verifyFrom e.thisHash rest

/-- Whether the entries form a chain from its beginning. -/
def verify (entries : List RecordedEvent) : Bool := verifyFrom genesis entries

end Chain

namespace RecordedEvent

def toJson (e : RecordedEvent) : Json :=
  .obj [("sequence", .ofNat e.sequence), ("run_id", .str e.runId), ("event", e.event.toJson),
    ("prev_hash", .str e.prevHash), ("this_hash", .str e.thisHash)]

def ofJson? : Json.Decoder RecordedEvent := fun json => do
  let fields ← Json.record ["sequence", "run_id", "event", "prev_hash", "this_hash"] json
  return {
    sequence := ← Json.Fields.required "sequence" (.word 64) fields
    runId := ← Json.Fields.required "run_id" .string fields
    event := ← Json.Fields.required "event" Event.ofJson? fields
    prevHash := ← Json.Fields.required "prev_hash" .string fields
    thisHash := ← Json.Fields.required "this_hash" .string fields }

def writeAll (entries : List RecordedEvent) : String := (Json.arr (entries.map toJson)).compact

def readAll? (text : String) : Option (List RecordedEvent) :=
  (Json.parse? text).bind (Json.Decoder.list ofJson?)

end RecordedEvent

end Agents
