import Agents.Cache
import Agents.Run.Activity

/-! # Services

Services answer the queries of an activity and take its events. What the cache of a run is asked
for is answered from the cache itself, if there is one: it remembers what it was given.
-/

namespace Agents

/-- What is there outside of a run. -/
structure Services (m : Type → Type) where
  model : List ChatMessage → ModelSettings → m (Except Error (Stream ModelDelta))
  images : (prompt : String) → ModelSettings → (count : Nat) → m (Except Error (List String))
  agent : Identity → m (Except Error (Option Definition))
  endpoint : (name : String) → m (Except Error (Option Endpoint))
  memory : Identity → m (Except Error (List (String × Json)))
  http : HttpRequest → m (Except Error HttpResponse)
  clock : m Timestamp
  newTask : m TaskId
  /-- Takes an event. -/
  report : Event → m Unit

namespace Services

variable {m : Type → Type} [Monad m]

def answer (s : Services m) : (q : Query) → StateT (Option Cache) m q.Answer
  | .model messages settings => s.model messages settings
  | .images prompt settings count => s.images prompt settings count
  | .agent identity => s.agent identity
  | .endpoint name => s.endpoint name
  | .memory identity => s.memory identity
  | .http request => s.http request
  | .clock => s.clock
  | .newTask => s.newTask
  | .recall fingerprint => return (← get).bind (·.get? fingerprint)
  | .remember fingerprint outputs => modify (·.map (·.set fingerprint outputs))

/-- Serves an activity to its end; one that is too deep gives nothing. -/
def serve {α : Type} (s : Services m) : Activity α → StateT (Option Cache) m (Option α)
  | .done result => return some result
  | .report event rest => do
    s.report event
    s.serve rest
  | .ask query resume => do s.serve (resume (← s.answer query))
  | .tooDeep => return none

end Services

end Agents
