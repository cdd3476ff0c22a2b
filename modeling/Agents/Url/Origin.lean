import Agents.Url.Parser

/-! # Origins

Two URLs have the same origin when they name the same server: the same scheme, host and port. A URL
whose scheme has no servers has an origin of its own, which is that of no other URL; that of a
`blob` is the origin of the URL in its path.
-/

namespace Agents.Url

/-- The server that a URL names, where blobs in blobs are followed as far as the fuel goes. -/
def originAt? : (fuel : Nat) → Url → Option (String × Host × Nat)
  | 0, _ => none
  | fuel + 1, u =>
    if u.scheme = "blob" then
      match parse u.path.text with
      | .ok inner => originAt? fuel inner
      | .error _ => none
    else do
      let standard ← defaultPort? u.scheme
      let a ← u.authority
      return (u.scheme, a.host, a.port.getD standard)

/-- The server that a URL names, if it names one. A blob in a blob has a shorter path. -/
def origin? (u : Url) : Option (String × Host × Nat) := originAt? (u.path.text.length + 1) u

def sameOrigin (u v : Url) : Bool :=
  match u.origin?, v.origin? with
  | some o, some p => o == p
  | _, _ => false

end Agents.Url
