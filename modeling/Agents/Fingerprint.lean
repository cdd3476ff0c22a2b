import Agents.Digest.Sha256
import Agents.Identity
import Agents.Json.Printer

/-! # Fingerprints of runs

The fingerprint of an agent and its inputs is the digest of the agent's token, a line break and
the compact text of the inputs. Runs with one fingerprint share a cached output.
-/

namespace Agents

def fingerprintText (identity : Identity) (inputs : Json) : String :=
  identity.text ++ "\n" ++ inputs.compact

def fingerprint (identity : Identity) (inputs : Json) : String :=
  Sha256.hex (fingerprintText identity inputs).toUTF8.toList

end Agents
