import Agents.Url.Basic

/-! # Reading absolute URLs

A URL begins with its scheme. What follows depends on it: after a scheme such as `http` there is
always an authority, whatever number of slashes is written, and a backslash counts as a slash; after
any other scheme there is an authority only after two slashes, and a path without a leading slash
has no segments.
-/

namespace Agents.Url

/-- Cuts a text before the first character of a set. -/
def cut (set : Char → Bool) (s : List Char) : List Char × List Char :=
  (s.takeWhile (!set ·), s.dropWhile (!set ·))

def isSlash (isSpecial : Bool) (c : Char) : Bool := c = '/' || (isSpecial && c = '\\')

def endsAuthority (isSpecial : Bool) (c : Char) : Bool :=
  isSlash isSpecial c || c = '?' || c = '#'

/-- The scheme in lower case and what follows its colon. -/
def scheme? (s : List Char) : Option (String × List Char) :=
  let name := s.takeWhile fun c => c.isAlphanum || c = '+' || c = '-' || c = '.'
  match s.head?, s.dropWhile fun c => c.isAlphanum || c = '+' || c = '-' || c = '.' with
  | some first, ':' :: rest =>
    if first.isAlpha then some ((String.ofList name).toLower, rest) else none
  | _, _ => none

/-! ## Authority -/

/-- The user and password before the last at sign, if there is one, and the rest. -/
def userInfo (authority : List Char) : Except UrlError (String × String × List Char) :=
  if !authority.contains '@' then .ok ("", "", authority)
  else
    let rest := (authority.reverse.takeWhile (· ≠ '@')).reverse
    let user := authority.take (authority.length - rest.length - 1)
    if user = [] then if rest = [] then .error .emptyHost else .ok ("", "", rest)
    else
      let encode (s : List Char) : String := String.ofList (Percent.encode Percent.inUserInfo s)
      let (name, password) := cut (· = ':') user
      let (name, password) := (encode name, encode (password.drop 1))
      if rest = [] ∧ (name ≠ "" ∨ password ≠ "") then .error .emptyHost
      else .ok (name, password, rest)

/-- The part before the colon of the port; colons inside brackets belong to the host. -/
def cutPort : (inBrackets : Bool) → List Char → List Char × List Char
  | _, [] => ([], [])
  | inBrackets, c :: rest =>
    if c = ':' ∧ !inBrackets then ([], c :: rest)
    else
      let (host, port) := cutPort (c = '[' || (inBrackets && c ≠ ']')) rest
      (c :: host, port)

/-- The port after a colon; the default one is left out. -/
def readPort (scheme : String) (s : List Char) : Except UrlError (Option Nat) :=
  let digits := s.drop 1
  if !digits.all Char.isDigit then .error .invalidPort
  else
    let n := digits.foldl (fun n c => 10 * n + (c.toNat - '0'.toNat)) 0
    if 65535 < n then .error .invalidPort
    else .ok (if digits = [] ∨ defaultPort? scheme = some n then none else some n)

def readAuthority (scheme : String) (s : List Char) : Except UrlError Authority := do
  let (username, password, rest) ← userInfo s
  let (host, after) := cutPort false rest
  if host = [] ∧ (isSpecial scheme ∨ after ≠ []) then throw .emptyHost
  let host ← if isSpecial scheme then Host.parse host else Host.parseOpaque host
  return { username, password, host, port := ← readPort scheme after }

/-- The host of a `file` URL, which may be empty. -/
def fileHost (s : List Char) : Except UrlError Authority := do
  if s = [] then return { host := .domain "" }
  let host ← Host.parse s
  return { host := if host = .domain "localhost" then .domain "" else host }

/-! ## Path, query and fragment -/

/-- The segments of a path after its leading slash. -/
def segmentsFrom (isSpecial : Bool) (done : List String) : (segment : List Char) → List Char →
    List String
  | segment, [] => addSegment done (encode segment) true
  | segment, c :: rest =>
    if isSlash isSpecial c then
      segmentsFrom isSpecial (addSegment done (encode segment) false) [] rest
    else segmentsFrom isSpecial done (segment ++ [c]) rest
where
  encode (s : List Char) : String := String.ofList (Percent.encode Percent.inPath s)

def segmentPath (isSpecial : Bool) (s : List Char) : Path :=
  match s with
  | [] => .segments (if isSpecial then [""] else [])
  | c :: rest =>
    .segments (segmentsFrom isSpecial [] [] (if isSlash isSpecial c then rest else c :: rest))

/-- A URL whose path begins the text. -/
def withRest (scheme : String) (authority : Option Authority) (path : List Char → Path)
    (s : List Char) : Url :=
  let (pathText, rest) := cut (fun c => c = '?' || c = '#') s
  let (queryText, fragmentText) := cut (· = '#') rest
  let querySet := if isSpecial scheme then Percent.inSpecialQuery else Percent.inQuery
  { scheme, authority
    path := path pathText
    query := if queryText = [] then none
      else some (String.ofList (Percent.encode querySet (queryText.drop 1)))
    fragment := if fragmentText = [] then none
      else some (String.ofList (Percent.encode Percent.inFragment (fragmentText.drop 1))) }

/-! ## All together -/

/-- Control characters and blanks, which do not count around a URL. -/
def isOuterBlank (c : Char) : Bool := c.toNat ≤ 0x20

def trimOuter (s : List Char) : List Char :=
  ((s.dropWhile isOuterBlank).reverse.dropWhile isOuterBlank).reverse

def parse (text : String) : Except UrlError Url :=
  let input := (trimOuter text.toList).filter (!isIgnored ·)
  match scheme? input with
  | none => .error .relativeWithoutBase
  | some ("file", rest) =>
    match rest with
    | a :: b :: afterSlashes =>
      if isSlash true a && isSlash true b then do
        let (host, rest) := cut (endsAuthority true) afterSlashes
        return withRest "file" (some (← fileHost host)) (segmentPath true) rest
      else .ok (withRest "file" (some { host := .domain "" }) (segmentPath true) rest)
    | rest => .ok (withRest "file" (some { host := .domain "" }) (segmentPath true) rest)
  | some (scheme, rest) =>
    if isSpecial scheme then do
      let (before, rest) := cut (endsAuthority true) (rest.dropWhile (isSlash true))
      return withRest scheme (some (← readAuthority scheme before)) (segmentPath true) rest
    else
      match rest with
      | '/' :: '/' :: afterSlashes => do
        let (before, rest) := cut (endsAuthority false) afterSlashes
        return withRest scheme (some (← readAuthority scheme before)) (segmentPath false) rest
      | '/' :: _ => .ok (withRest scheme none (segmentPath false) rest)
      | rest =>
        .ok (withRest scheme none
          (fun s => .plain (String.ofList (Percent.encode Percent.isControl s))) rest)

end Agents.Url
