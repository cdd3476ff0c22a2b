import Agents.Run.Engine

/-! # Asking a model

A model that follows schemas is asked twice: for the text of the streamed outputs, and for an object
with the others. Any other model is asked once, for text with the object in a block between
delimiters; what is outside of blocks is the narrative. In both cases the narrative becomes the
value of the streamed outputs that the model did not set itself.

What the user has read is not written again: narrative is reported in the first attempt only.
-/

namespace Agents.ModelPrompt

def prompt (t : TaskContext) (spec : ModelPromptSpec) (inputs : Json) :
    Fallible (List ChatMessage) := do
  return Template.renderMessages (t.scope inputs (← t.memory)) spec.messages

/-- The outputs with the narrative in every streamed output that has no value. -/
def fillStreamed (d : Definition) (narrative : String) (outputs : Json.Fields) : Json.Fields :=
  (d.outputs.filter (·.streamingText)).foldl (fun fields o =>
    if Json.Fields.contains o.name fields then fields
    else Json.Fields.insert o.name (.str (Text.trim narrative)) fields) outputs

/-- Reports pieces of narrative, if this is the first attempt. -/
def reportNarrative (t : TaskContext) (attempt : Nat) (pieces : List String) : Fallible Unit :=
  if attempt = 1 then TaskContext.report (pieces.flatMap t.emitter.text) else pure ()

/-! ## Structured answers -/

/-- The members of an answer that has to be an object. -/
def objectOf (text : String) : Except Error Json.Fields :=
  match Json.parse (Text.trim text) with
  | .ok (.obj fields) => .ok fields
  | .ok other =>
    .error (.outputValidation ("structured output is not an object: " ++ other.compact))
  | .error e => .error (.outputValidation ("structured output is not valid JSON: " ++ e.message))

/-- The answer to the first call, with its narrative reported as it arrives. -/
def narrate (t : TaskContext) (messages : List ChatMessage) (settings : ModelSettings)
    (attempt : Nat) : Fallible Response := do
  let stream ← TaskContext.callModel messages settings
  reportNarrative t attempt (stream.received.filterMap (·.content))
  MonadExcept.ofExcept (Response.ofStream stream)

/-- One attempt with a model that follows schemas. The call for the text comes to its end before the
call for the object begins. If they went on side by side, the outputs would be the same; a failure
of one of them would cut the other short, so that the error and the last pieces of narrative before
it may be others. -/
def structuredAttempt (t : TaskContext) (messages : List ChatMessage) (settings : ModelSettings)
    (attempt : Nat) : Fallible Json := do
  let d := t.definition
  let narrative ←
    if d.outputs.any (·.streamingText) then narrate t messages settings attempt else pure {}
  let schema := (OutputSchema.structured d).jsonSchema
  let stream ← TaskContext.callModel messages { settings with responseSchema := some schema }
  let answer ← MonadExcept.ofExcept (Response.ofStream stream)
  t.reportUsage (Response.addUsage narrative.usage answer.usage)
  let fields ← MonadExcept.ofExcept (objectOf answer.text)
  return .obj (fillStreamed d narrative.text fields)

/-! ## Answers with blocks -/

/-- What a model is told about the block; an agent whose outputs are all streamed needs none. -/
def instruction? (d : Definition) (delimiters : Delimiters) : Option String :=
  if d.outputs.all (·.streamingText) then none
  else some ("After your answer, output a single JSON object matching this schema, "
    ++ "starting on its own line with " ++ String.ofList delimiters.start ++ " and ending with "
    ++ String.ofList delimiters.finish ++ ":\n" ++ (OutputSchema.structured d).jsonSchema.compact)

/-- The members of a text that is an object; any other text has none. -/
def membersOf (text : String) : Json.Fields :=
  match Json.parse (Text.trim text) with
  | .ok (.obj fields) => fields
  | _ => []

/-- The outputs in an answer: those of the whole text, and over them those of each block. -/
def outputsOf (d : Definition) (raw : String) (blocks : List String) (narrative : String) : Json :=
  .obj (fillStreamed d narrative
    (((raw :: blocks).map membersOf).foldl Json.Fields.overlay []))

def textOf? : ExtractChunk → Option String
  | .text s => some (String.ofList s)
  | .block _ => none

def blockOf? : ExtractChunk → Option String
  | .text _ => none
  | .block s => some (String.ofList s)

/-- The fragments of a streamed answer, split into narrative and blocks. -/
def chunksOf (delimiters : Delimiters) (stream : Stream ModelDelta) : Stream ExtractChunk :=
  (Extractor.new delimiters).extractStream
    (stream.map fun item => item.map fun d => (d.content.getD "").toList)

def fencedAttempt (t : TaskContext) (messages : List ChatMessage) (settings : ModelSettings)
    (attempt : Nat) : Fallible Json := do
  let d := t.definition
  let delimiters := t.engine.config.extraction
  let told := ((instruction? d delimiters).map ChatMessage.system).toList
  let stream ← TaskContext.callModel (messages ++ told) settings
  let chunks := chunksOf delimiters stream
  reportNarrative t attempt (chunks.received.filterMap textOf?)
  let chunks ← MonadExcept.ofExcept chunks.collect
  let answer ← MonadExcept.ofExcept (Response.ofStream stream)
  t.reportUsage answer.usage
  return outputsOf d answer.text (chunks.filterMap blockOf?)
    (String.join (chunks.filterMap textOf?))

/-- Asks until the outputs meet the schema. -/
def process (t : TaskContext) (spec : ModelPromptSpec) (inputs : Json) : Fallible Json := do
  let model ← MonadExcept.ofExcept t.model
  let messages ← prompt t spec inputs
  let settings := t.settings spec.model
  t.retry fun attempt => do
    let outputs ←
      if model.isStructured settings then structuredAttempt t messages settings attempt
      else fencedAttempt t messages settings attempt
    t.validated outputs

end Agents.ModelPrompt
