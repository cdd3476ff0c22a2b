import Agents.Error
import Agents.Model.Message

/-! # Streamed answers

A stream is the list of what arrives: items, and failures among them. Whoever reads one takes the
items in order and gives up at the first failure. What a model streams are deltas; a response is
what they add up to.
-/

namespace Agents

abbrev Stream (α : Type) := List (Except Error α)

namespace Stream

/-- The items before the first failure. -/
def received {α : Type} : Stream α → List α
  | .ok item :: rest => item :: received rest
  | _ => []

def collect {α : Type} : Stream α → Except Error (List α)
  | [] => .ok []
  | .ok item :: rest => (collect rest).map (item :: ·)
  | .error e :: _ => .error e

/-- A stream that can be collected was received as a whole. -/
theorem received_of_collect {α : Type} {s : Stream α} {items : List α}
    (h : s.collect = .ok items) : s.received = items := by
  induction s generalizing items with
  | nil => simp_all [collect, received]
  | cons x rest ih =>
    cases x with
    | error e => simp [collect] at h
    | ok item =>
      cases hr : collect rest with
      | error e => simp [collect, hr, Except.map] at h
      | ok rs =>
        simp only [collect, hr, Except.map, Except.ok.injEq] at h
        simp [received, ih hr, ← h]

end Stream

/-! ## Responses of a model -/

structure Response where
  text : String := ""
  usage : Option Usage := none
  toolCalls : List ToolCall := []
deriving Inhabited

namespace Response

def addUsage : Option Usage → Option Usage → Option Usage
  | some a, some b => some (a + b)
  | some a, none => some a
  | none, b => b

def add (r : Response) (d : ModelDelta) : Response where
  text := r.text ++ d.content.getD ""
  usage := addUsage r.usage d.usage
  toolCalls := r.toolCalls ++ d.toolCalls

def ofDeltas (ds : List ModelDelta) : Response := ds.foldl add {}

def ofStream (s : Stream ModelDelta) : Except Error Response := s.collect.map ofDeltas

end Response

end Agents
