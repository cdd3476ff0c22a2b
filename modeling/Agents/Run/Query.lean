import Agents.Definition.Basic
import Agents.Event
import Agents.Http.Message
import Agents.Identity
import Agents.Model.Stream

/-! # What a run asks for

A run has no model, no network and no memory of its own. Whatever it needs from outside it asks for
by a query, and a query says what kind of answer it takes.
-/

namespace Agents

inductive Query where
  /-- A model's answer to some messages. -/
  | model (messages : List ChatMessage) (settings : ModelSettings)
  /-- The addresses of generated images. -/
  | images (prompt : String) (settings : ModelSettings) (count : Nat)
  /-- An agent outside of the project. -/
  | agent (identity : Identity)
  /-- An endpoint outside of the project. -/
  | endpoint (name : String)
  /-- The memory variables of an agent. -/
  | memory (identity : Identity)
  | http (request : HttpRequest)
  | clock
  /-- The id of a task that begins. -/
  | newTask
  /-- The outputs that were remembered under a fingerprint. -/
  | recall (fingerprint : String)
  | remember (fingerprint : String) (outputs : Json)

@[reducible] def Query.Answer : Query → Type
  | .model .. => Except Error (Stream ModelDelta)
  | .images .. => Except Error (List String)
  | .agent _ => Except Error (Option Definition)
  | .endpoint _ => Except Error (Option Endpoint)
  | .memory _ => Except Error (List (String × Json))
  | .http _ => Except Error HttpResponse
  | .clock => Timestamp
  | .newTask => TaskId
  | .recall _ => Option Json
  | .remember .. => Unit

end Agents
