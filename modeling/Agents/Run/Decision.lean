import Agents.Run.Engine
import Agents.Text.Quoted
import Agents.Text.Search

/-! # Letting a model choose

A model is shown the cases of a decision and names one of them, by calling a tool or in plain text.
An answer that names no case is an invalid output, so the model is asked again. The chosen case
hands over to an agent, or stops the decision.
-/

namespace Agents.Decision

def selectTool : String := "select_case"

def toolSpec (spec : DecisionSpec) : ToolSpec where
  name := selectTool
  description := "Select the case that best fits the input."
  parameters := .obj [
    ("properties", .obj [("case", .obj [
      ("enum", .arr (spec.cases.map fun c => .str c.name)), ("type", .str "string")])]),
    ("required", .arr [.str "case"]), ("type", .str "object")]

def caseList (cases : List DecisionCase) : String :=
  "\n".intercalate (cases.map fun c => "- " ++ c.name ++ ": " ++ c.description)

def prompt (spec : DecisionSpec) (inputs : Json) : List ChatMessage :=
  let system := spec.instruction ++ "\n\nChoose exactly one case. Call \x60" ++ selectTool
    ++ "\x60, or answer with the case name alone.\n" ++ caseList spec.cases
  [.system (String.ofList (Text.trimStart system.toList)), .user inputs.compact]

/-! ## Reading the answer -/

def caseNamed? (cases : List DecisionCase) (name : String) : Option DecisionCase :=
  cases.find? (·.name = name)

/-- The case that a call of the tool names. The arguments may be JSON text. -/
def caseOfCall? (cases : List DecisionCase) (call : ToolCall) : Option DecisionCase := do
  if call.name ≠ selectTool then none
  let arguments ← match call.arguments with
    | .str text => (Json.parse text).toOption
    | json => some json
  caseNamed? cases (← (← arguments.get? "case").str?)

/-- The longest case name in a text; of equally long ones the last. -/
def caseWithin? (cases : List DecisionCase) (text : String) : Option DecisionCase :=
  let found := cases.filter fun c => c.name ≠ "" && Text.occursIn c.name.toList text.toList
  found.foldl (fun best c => match best with
    | some b => if c.name.utf8ByteSize < b.name.utf8ByteSize then some b else some c
    | none => some c) none

/-- The case that an answer selects: by a call, as the whole text, or within the text. -/
def select? (cases : List DecisionCase) (answer : Response) : Option DecisionCase :=
  let text := Text.trim answer.text
  answer.toolCalls.findSome? (caseOfCall? cases) <|> caseNamed? cases text
    <|> caseWithin? cases text

def select (cases : List DecisionCase) (answer : Response) : Except Error DecisionCase :=
  match select? cases answer with
  | some c => .ok c
  | none => .error (.outputValidation
      ("model answer selects no known case: " ++ Text.quoted (Text.trim answer.text)))

/-! ## Deciding -/

def successor? (c : DecisionCase) : Option String := if c.stop then none else c.agent

/-- What the successor is given: the case's own inputs if it has any. -/
def successorInputs (c : DecisionCase) (inputs : Json) : Json :=
  if c.inputs.isEmpty then inputs else .obj (c.inputs.resolve (inputFields inputs))

/-- Asks until a case is selected. -/
def choose (t : TaskContext) (spec : DecisionSpec) (inputs : Json) : Fallible DecisionCase := do
  let _ ← MonadExcept.ofExcept t.model
  let messages := prompt spec (redact t.definition inputs)
  let settings := t.settings spec.model
  let settings := { settings with tools := settings.tools ++ [toolSpec spec] }
  t.retry fun _ => do
    let deltas ← TaskContext.callModel messages settings
    let answer ← MonadExcept.ofExcept (Response.ofStream deltas)
    t.reportUsage answer.usage
    MonadExcept.ofExcept (select spec.cases answer)

/-- Hands over to the agent of the selected case, or stops. -/
def process (t : TaskContext) (spec : DecisionSpec) (inputs : Json) : Fallible TaskResult := do
  let chosen ← choose t spec inputs
  match successor? chosen with
  | none => return ⟨.obj [], true⟩
  | some agent =>
    let outputs ← t.runChild agent (successorInputs chosen inputs)
    return ⟨← t.validated outputs, false⟩

end Agents.Decision
