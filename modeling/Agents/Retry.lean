import Agents.Error
import Agents.Word

/-! # Repeating failed attempts

Only an output that failed its validation is attempted again, as long as the budget lasts and the
deadline has not passed. The last such failure is reported with the number of attempts made.
-/

namespace Agents.Retry

/-- Attempts are counted in 32 bits. -/
def maxAttempts : Nat := Word.size 32 - 1

def attempts (maxRetries : Nat) : Nat := min (maxRetries + 1) maxAttempts

/-- The failure that is reported when no attempt is left. -/
def exhausted (agent : String) (attempts : Nat) (last : Error) : Error :=
  .unexpectedResponseFormat agent attempts last.message

/-- Makes attempt `n`, and further ones while `remaining` allows. The clock is asked after a failed
attempt only. -/
def runFrom {m : Type → Type} [Monad m] {α : Type} (agent : String) (isPastDeadline : m Bool)
    (attempt : Nat → m (Except Error α)) : (remaining n : Nat) → m (Except Error α)
  | remaining, n => do
    match ← attempt n with
    | .ok value => return .ok value
    | .error e =>
      if !e.isRetryable then return .error e
      else match remaining with
        | 0 => return .error (exhausted agent n e)
        | remaining + 1 =>
          if ← isPastDeadline then return .error (exhausted agent n e)
          else runFrom agent isPastDeadline attempt remaining (n + 1)

/-- Makes attempts 1, 2, … until one succeeds, fails for good, or none is left. -/
def run {m : Type → Type} [Monad m] {α : Type} (agent : String) (maxRetries : Nat)
    (isPastDeadline : m Bool) (attempt : Nat → m (Except Error α)) : m (Except Error α) :=
  runFrom agent isPastDeadline attempt (attempts maxRetries - 1) 1

end Agents.Retry
