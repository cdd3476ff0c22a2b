import Agents.Url.Host

/-! # Absolute URLs

A URL is kept in its parts. Its path is either a list of segments, each written after a slash, or a
text without structure, as in `mailto:someone`.
-/

namespace Agents

namespace Url

/-- What stands between the slashes and the path. -/
structure Authority where
  username : String := ""
  password : String := ""
  host : Host
  /-- Absent when it is the default of the scheme. -/
  port : Option Nat := none
deriving DecidableEq, Repr, Inhabited

inductive Path where
  | segments (segments : List String)
  | plain (text : String)
deriving DecidableEq, Repr, Inhabited

def Path.text : Path → String
  | .segments ss => String.join (ss.map ("/" ++ ·))
  | .plain s => s

/-- The schemes that a server is found with, and their ports. -/
def defaultPort? : String → Option Nat
  | "http" | "ws" => some 80
  | "https" | "wss" => some 443
  | "ftp" => some 21
  | _ => none

/-- Whether URLs of a scheme always have an authority and a path. -/
def isSpecial (scheme : String) : Bool := (defaultPort? scheme).isSome || scheme = "file"

def Authority.text (a : Authority) : String :=
  let password := if a.password = "" then "" else ":" ++ a.password
  let user := a.username ++ password
  (if user = "" then "" else user ++ "@") ++ a.host.text
    ++ (match a.port with
      | some p => ":" ++ toString p
      | none => "")

end Url

structure Url where
  scheme : String
  authority : Option Url.Authority := none
  path : Url.Path
  query : Option String := none
  fragment : Option String := none
deriving DecidableEq, Repr, Inhabited

namespace Url

/-- What stands before the path. Without an authority, a path that begins with two slashes is kept
from being read as one by a segment for the directory itself. -/
def beforePath (u : Url) : String :=
  match u.authority, u.path with
  | some a, _ => "//" ++ a.text
  | none, .segments ("" :: _ :: _) => "/."
  | none, _ => ""

def text (u : Url) : String :=
  u.scheme ++ ":" ++ u.beforePath ++ u.path.text
    ++ (match u.query with
      | some q => "?" ++ q
      | none => "")
    ++ (match u.fragment with
      | some f => "#" ++ f
      | none => "")

/-! ## Paths -/

/-- Whether a segment means the directory itself. -/
def isSingleDot (segment : String) : Bool := [".", "%2e"].contains segment.toLower

/-- Whether a segment means the directory above. -/
def isDoubleDot (segment : String) : Bool :=
  ["..", ".%2e", "%2e.", "%2e%2e"].contains segment.toLower

/-- A path with one more segment; dots are resolved. -/
def addSegment (segments : List String) (segment : String) (isLast : Bool) : List String :=
  let closing := if isLast then [""] else []
  if isDoubleDot segment then segments.dropLast ++ closing
  else if isSingleDot segment then segments ++ closing
  else segments ++ [segment]

/-- Tabs and line ends, which count nowhere in a URL. -/
def isIgnored (c : Char) : Bool := c = '\t' || c = '\n' || c = '\r'

/-- A path without its last segment, if that is empty; the root stays. -/
def popEmptySegment : List String → List String
  | [] => []
  | [s] => [s]
  | segments => if segments.getLast? = some "" then segments.dropLast else segments

/-- A path with a text as one more segment. The root has no segment to keep. -/
def pushSegment (isSpecial : Bool) (segments : List String) (text : String) : List String :=
  if text = "." ∨ text = ".." then segments
  else
    let set := if isSpecial then Percent.inSpecialSegment else Percent.inSegment
    let encoded := Percent.encode set (text.toList.filter (!isIgnored ·))
    addSegment (if segments = [""] then [] else segments) (String.ofList encoded) true

/-- The URL with more segments in its path, unless its path has none. -/
def withSegments? (texts : List String) (u : Url) : Option Url :=
  match u.path with
  | .plain _ => none
  | .segments segments =>
    some { u with
      path := .segments
        (texts.foldl (pushSegment (isSpecial u.scheme)) (popEmptySegment segments)) }

/-! ## Queries -/

def withPairs (pairs : List (String × String)) (u : Url) : Url :=
  if pairs = [] then u
  else
    let before := match u.query with
      | some q => if q = "" then "" else q ++ "&"
      | none => ""
    { u with query := some (before ++ Percent.encodePairs pairs) }

end Url

end Agents
