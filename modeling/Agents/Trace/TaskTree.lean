import Agents.Event

/-! # The task tree

What a run looks like to its reader: the user's message, the assistant's answer, one trace per
task that was seen, and one sub-message per task other than the main one that had something to say.
-/

namespace Agents

/-- Output collected in the order it came. -/
structure OutputBuffer where
  content : String := ""
  objects : List Json := []
  images : List String := []
deriving Inhabited

namespace OutputBuffer

def append (b : OutputBuffer) (d : ChunkDelta) : OutputBuffer where
  content := b.content ++ d.content.getD ""
  objects := b.objects ++ d.object.toList
  images := b.images ++ d.images.getD []

def toJson (b : OutputBuffer) : Json :=
  .obj [("content", .str b.content), ("objects", .arr b.objects),
    ("images", .arr (b.images.map Json.str))]

end OutputBuffer

structure LogEntry where
  message : String
  timestamp : Timestamp
deriving DecidableEq, Repr, Inhabited

def LogEntry.toJson (e : LogEntry) : Json :=
  .obj [("message", .str e.message), ("timestamp", e.timestamp.toJson)]

structure Trace where
  taskId : TaskId
  parentTaskId : Option TaskId := none
  assistantId : String
  assistantName : String := ""
  /-- How many traces stood above this one when it was first seen. -/
  deep : Nat := 0
  inputParameters : Json := .null
  promptMessages : Option (List ChatMessage) := none
  output : OutputBuffer := {}
  logs : List LogEntry := []
  usage : Option Usage := none
  startTime : Option Timestamp := none
  endTime : Option Timestamp := none
  stop : Bool := false
deriving Inhabited

def Trace.toJson (t : Trace) : Json :=
  .obj (("taskId", .str t.taskId) :: Json.member? "parentTaskId" Json.str t.parentTaskId
    ++ [("assistantId", .str t.assistantId), ("assistantName", .str t.assistantName),
      ("deep", .ofNat t.deep), ("inputParameters", t.inputParameters)]
    ++ Json.member? "promptMessages" (fun ms => .arr (ms.map ChatMessage.toJson)) t.promptMessages
    ++ [("output", t.output.toJson), ("logs", .arr (t.logs.map LogEntry.toJson))]
    ++ Json.member? "usage" Usage.toJson t.usage
    ++ Json.member? "startTime" Timestamp.toJson t.startTime
    ++ Json.member? "endTime" Timestamp.toJson t.endTime
    ++ [("stop", .bool t.stop)])

/-- What a task other than the main one has said. -/
structure SubMessage where
  taskId : TaskId
  assistantId : String
  output : OutputBuffer := {}
deriving Inhabited

def SubMessage.toJson (s : SubMessage) : Json :=
  .obj [("taskId", .str s.taskId), ("assistantId", .str s.assistantId),
    ("output", s.output.toJson)]

structure TaskTree where
  userId : String
  userContent : String := ""
  assistantId : String
  /-- The output of the main task. -/
  answer : OutputBuffer := {}
  traces : List Trace := []
  subMessages : List SubMessage := []
  usage : Option Usage := none
  error : Option ErrorReport := none
  cancelled : Bool := false
  /-- The first task that a piece of output came from. -/
  mainTaskId : Option TaskId := none
deriving Inhabited

namespace TaskTree

/-- The empty tree for the two messages with these ids. -/
def new (userId assistantId : String) : TaskTree := { userId, assistantId }

/-- A run that failed or was cancelled takes no further events. -/
def isFrozen (t : TaskTree) : Bool := t.cancelled || t.error.isSome

def trace? (taskId : TaskId) (t : TaskTree) : Option Trace :=
  t.traces.find? (·.taskId = taskId)

def subMessage? (taskId : TaskId) (t : TaskTree) : Option SubMessage :=
  t.subMessages.find? (·.taskId = taskId)

def toJson (t : TaskTree) : Json :=
  .obj ([("user", .obj [("id", .str t.userId), ("content", .str t.userContent)]),
      ("assistant", .obj ([("id", .str t.assistantId), ("content", .str t.answer.content),
          ("images", .arr (t.answer.images.map Json.str)), ("objects", .arr t.answer.objects),
          ("inputMessages", .arr (t.traces.map Trace.toJson)),
          ("subMessages", .arr (t.subMessages.map SubMessage.toJson))]
        ++ Json.member? "usage" Usage.toJson t.usage
        ++ Json.member? "error" ErrorReport.toJson t.error
        ++ [("cancelled", .bool t.cancelled)]))]
    ++ Json.member? "mainTaskId" Json.str t.mainTaskId)

end TaskTree

end Agents
