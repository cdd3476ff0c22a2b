import Agents.Definition.Codec
import Agents.Error
import Agents.Timestamp

/-! # Events of a run

A run reports what happens as a sequence of events. Most belong to a task, which is one execution
of an agent: its INPUT, the START and the end of its execution, and in between the pieces of its
output, its token counts and its log lines.

The members of an event's JSON object are written in a fixed order, `type` first, because recorded
events are hashed as text.
-/

namespace Agents

abbrev TaskId := String

/-- Where a task's execution has got to. -/
inductive ExecutePhase where
  | start
  | finish
  /-- The task ended by selecting to stop. -/
  | stop
deriving DecidableEq, Repr, Inhabited

def ExecutePhase.name : ExecutePhase → String
  | .start => "EXECUTE_ASSISTANT_START"
  | .finish => "EXECUTE_ASSISTANT_END"
  | .stop => "EXECUTE_SELECT_STOP"

def ExecutePhase.ofJson? : Json.Decoder ExecutePhase :=
  .enum ([.start, .finish, .stop].map fun p => (ExecutePhase.name p, p))

structure ChunkDelta where
  content : Option String := none
  object : Option Json := none
  images : Option (List String) := none
deriving Inhabited

namespace ChunkDelta

def ofText (text : String) : ChunkDelta := { content := some text }

def ofObject (object : Json) : ChunkDelta := { object := some object }

def ofImages (images : List String) : ChunkDelta := { images := some images }

def toJson (d : ChunkDelta) : Json :=
  .obj (Json.member? "content" Json.str d.content ++ Json.member? "object" id d.object
    ++ Json.member? "images" (fun urls => .arr (urls.map Json.str)) d.images)

def ofJson? : Json.Decoder ChunkDelta := fun json => do
  let fields ← Json.record ["content", "object", "images"] json
  return {
    content := ← Json.Fields.optional "content" .string fields
    object := ← Json.Fields.optional "object" .any fields
    images := ← Json.Fields.optional "images" (.list .string) fields }

end ChunkDelta

structure ErrorReport where
  message : String
  kind : Option String := none
  timestamp : Option Timestamp := none
deriving DecidableEq, Repr, Inhabited

namespace ErrorReport

def ofError (e : Error) (now : Timestamp) : ErrorReport := ⟨e.message, some e.kind, some now⟩

def toJson (e : ErrorReport) : Json :=
  .obj (("message", .str e.message) :: (Json.member? "type" Json.str e.kind
    ++ Json.member? "timestamp" Timestamp.toJson e.timestamp))

def ofJson? : Json.Decoder ErrorReport := fun json => do
  let fields ← Json.record ["message", "type", "timestamp"] json
  return {
    message := ← Json.Fields.required "message" .string fields
    kind := ← Json.Fields.optional "type" .string fields
    timestamp := ← Json.Fields.optional "timestamp" Timestamp.ofJson? fields }

end ErrorReport

inductive Event where
  /-- What the user wrote. -/
  | inputParameter (content : String)
  | input (taskId : TaskId) (parentTaskId : Option TaskId) (assistantId assistantName : String)
      (inputParameters : Json) (promptMessages : Option (List ChatMessage))
  | chunk (taskId : TaskId) (assistantId : String) (delta : ChunkDelta)
      (respondAs : Option RespondAs)
  | execute (taskId : TaskId) (parentTaskId : Option TaskId) (assistantId : String)
      (assistantName : Option String) (phase : ExecutePhase) (timestamp : Option Timestamp)
  | usage (taskId : TaskId) (assistantId : String) (usage : Usage)
  | log (taskId : TaskId) (assistantId : String) (log : String) (timestamp : Timestamp)
  | error (error : ErrorReport)
  | progress (payload : Json)
deriving Inhabited

namespace Event

def taskId? : Event → Option TaskId
  | .input taskId .. | .chunk taskId .. | .execute taskId .. | .usage taskId .. | .log taskId .. =>
    some taskId
  | .inputParameter _ | .error _ | .progress _ => none

def typeName : Event → String
  | .inputParameter _ => "INPUT_PARAMETER"
  | .input .. => "INPUT"
  | .chunk .. => "CHUNK"
  | .execute .. => "EXECUTE"
  | .usage .. => "USAGE"
  | .log .. => "LOG"
  | .error _ => "ERROR"
  | .progress _ => "PROGRESS"

def members : Event → List (String × Json)
  | .inputParameter content => [("content", .str content)]
  | .input taskId parent assistant name inputs prompt =>
    ("taskId", .str taskId) :: Json.member? "parentTaskId" Json.str parent
      ++ [("assistantId", .str assistant), ("assistantName", .str name),
        ("inputParameters", inputs)]
      ++ Json.member? "promptMessages" (fun ms => .arr (ms.map ChatMessage.toJson)) prompt
  | .chunk taskId assistant delta respondAs =>
    [("taskId", .str taskId), ("assistantId", .str assistant), ("delta", delta.toJson)]
      ++ Json.member? "respondAs" RespondAs.toJson respondAs
  | .execute taskId parent assistant name phase timestamp =>
    ("taskId", .str taskId) :: Json.member? "parentTaskId" Json.str parent
      ++ [("assistantId", .str assistant)] ++ Json.member? "assistantName" Json.str name
      ++ [("execution", .obj [("currentPhase", .str phase.name)])]
      ++ Json.member? "timestamp" Timestamp.toJson timestamp
  | .usage taskId assistant counts =>
    [("taskId", .str taskId), ("assistantId", .str assistant), ("usage", counts.toJson)]
  | .log taskId assistant line timestamp =>
    [("taskId", .str taskId), ("assistantId", .str assistant), ("log", .str line),
      ("timestamp", timestamp.toJson)]
  | .error report => [("error", report.toJson)]
  | .progress payload => [("payload", payload)]

def toJson (e : Event) : Json := .obj (("type", .str e.typeName) :: e.members)

def phaseOfJson? : Json.Decoder ExecutePhase := fun json => do
  let fields ← Json.record ["currentPhase"] json
  Json.Fields.required "currentPhase" ExecutePhase.ofJson? fields

def ofJson? : Json.Decoder Event := fun json => do
  let fields ← json.obj?
  let text (key : String) : Option String := Json.Fields.required key .string fields
  let text? (key : String) : Option (Option String) := Json.Fields.optional key .string fields
  match ← text "type" with
  | "INPUT_PARAMETER" => return .inputParameter (← text "content")
  | "INPUT" =>
    return .input (← text "taskId") (← text? "parentTaskId") (← text "assistantId")
      (← text "assistantName") (← Json.Fields.required "inputParameters" .any fields)
      (← Json.Fields.optional "promptMessages" (.list ChatMessage.ofJson?) fields)
  | "CHUNK" =>
    return .chunk (← text "taskId") (← text "assistantId")
      (← Json.Fields.required "delta" ChunkDelta.ofJson? fields)
      (← Json.Fields.optional "respondAs" RespondAs.ofJson? fields)
  | "EXECUTE" =>
    return .execute (← text "taskId") (← text? "parentTaskId") (← text "assistantId")
      (← text? "assistantName") (← Json.Fields.required "execution" phaseOfJson? fields)
      (← Json.Fields.optional "timestamp" Timestamp.ofJson? fields)
  | "USAGE" =>
    return .usage (← text "taskId") (← text "assistantId")
      (← Json.Fields.required "usage" Usage.ofJson? fields)
  | "LOG" =>
    return .log (← text "taskId") (← text "assistantId") (← text "log")
      (← Json.Fields.required "timestamp" Timestamp.ofJson? fields)
  | "ERROR" => return .error (← Json.Fields.required "error" ErrorReport.ofJson? fields)
  | "PROGRESS" => return .progress (← Json.Fields.defaulted "payload" .any .null fields)
  | _ => none

end Event

end Agents
