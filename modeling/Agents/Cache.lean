import Agents.Json.Basic

/-! # Cached results

A cache remembers the outputs of finished runs by their fingerprint. Storing under a known
fingerprint replaces what was stored before.
-/

namespace Agents

structure Cache where
  entries : List (String × Json) := []
deriving Inhabited

namespace Cache

def get? (key : String) (c : Cache) : Option Json := Json.Fields.get? key c.entries

def set (key : String) (value : Json) (c : Cache) : Cache :=
  ⟨Json.Fields.insert key value c.entries⟩

def size (c : Cache) : Nat := c.entries.length

theorem get?_set_self (key : String) (value : Json) (c : Cache) :
    (c.set key value).get? key = some value :=
  Json.Fields.get?_insert_self key value c.entries

theorem get?_set_ne {key other : String} (h : other ≠ key) (value : Json) (c : Cache) :
    (c.set key value).get? other = c.get? other :=
  Json.Fields.get?_insert_ne h value c.entries

end Cache

end Agents
