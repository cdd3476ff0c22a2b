import Agents.Text.Case
import Agents.Url.Percent
import Agents.Word

/-! # Hosts

A host is a domain, an IPv4 address or an IPv6 address. A domain is written in lower case and in
ASCII, where labels with other characters are written in punycode; one whose last label is a number
is an IPv4 address, in any of the notations that these have.
-/

namespace Agents

inductive UrlError where
  | relativeWithoutBase
  | emptyHost
  | invalidDomain
  | forbiddenCharacter
  | invalidIpv4
  | invalidIpv6
  | invalidPort
deriving DecidableEq, Repr, Inhabited

def UrlError.message : UrlError → String
  | .relativeWithoutBase => "relative URL without a base"
  | .emptyHost => "empty host"
  | .invalidDomain => "invalid international domain name"
  | .forbiddenCharacter => "invalid domain character"
  | .invalidIpv4 => "invalid IPv4 address"
  | .invalidIpv6 => "invalid IPv6 address"
  | .invalidPort => "invalid port number"

namespace Url

inductive Host where
  | domain (name : String)
  | ipv4 (address : Nat)
  /-- Eight pieces of 16 bits. -/
  | ipv6 (pieces : List Nat)
deriving DecidableEq, Repr, Inhabited

def splitOn (separator : Char) : List Char → List (List Char)
  | [] => [[]]
  | c :: rest =>
    if c = separator then [] :: splitOn separator rest
    else match splitOn separator rest with
      | piece :: pieces => (c :: piece) :: pieces
      | [] => [[c]]

namespace Host

/-! ## IPv4 -/

/-- A number in decimal, octal after `0` or hexadecimal after `0x`. -/
def number? (s : List Char) : Option Nat :=
  let digits (base : Nat) (s : List Char) : Option Nat :=
    s.foldlM (fun n c => do
      let d ← Percent.hexValue? c
      if d < base then some (n * base + d) else none) 0
  match s with
  | [] => none
  | '0' :: 'x' :: rest | '0' :: 'X' :: rest => digits 16 rest
  | '0' :: d :: rest => digits 8 (d :: rest)
  | s => digits 10 s

/-- Whether the last label of a domain is a number. -/
def endsInNumber (domain : List Char) : Bool :=
  let labels := (splitOn '.' domain).reverse
  let last? := match labels with
    | [] :: rest => rest.head?
    | last :: _ => some last
    | [] => none
  match last? with
  | none => false
  | some last => (!last.isEmpty && last.all Char.isDigit) || (number? last).isSome

def ofIpv4 (domain : List Char) : Except UrlError Host := do
  let labels := splitOn '.' domain
  let labels := if labels.getLast? = some [] then labels.dropLast else labels
  if 4 < labels.length then throw .invalidIpv4
  let numbers ← labels.mapM fun l =>
    match number? l with
    | some n => if n < Word.size 32 then pure n else throw .invalidIpv4
    | none => throw .invalidIpv4
  let leading := numbers.dropLast
  let last := numbers.getLast?.getD 0
  if leading.any (255 < ·) || Word.size 32 / Nat.pow 256 leading.length ≤ last then
    throw .invalidIpv4
  let weights := [Word.size 24, Word.size 16, Word.size 8]
  return .ipv4 ((List.zipWith (· * ·) leading weights).foldl (· + ·) last)

/-! ## IPv6 -/

def hexPiece? (s : List Char) : Option Nat :=
  if s.isEmpty || 4 < s.length then none
  else s.foldlM (fun n c => (Percent.hexValue? c).map (16 * n + ·)) 0

/-- The two pieces that an IPv4 address at the end of an IPv6 address stands for. -/
def dottedPieces? (s : List Char) : Option (List Nat) := do
  let labels := splitOn '.' s
  if labels.length ≠ 4 then none
  let numbers ← labels.mapM fun l =>
    if l.isEmpty || 3 < l.length || !l.all Char.isDigit || (l.head? = some '0' && 1 < l.length) then
      none
    else (number? l).filter (· < 256)
  match numbers with
  | [a, b, c, d] => some [256 * a + b, 256 * c + d]
  | _ => none

/-- The pieces between colons, of which the last one may be an IPv4 address. -/
def pieces? (s : List Char) : Option (List Nat) :=
  let parts := splitOn ':' s
  let leading := parts.dropLast.mapM hexPiece?
  match parts.getLast? with
  | none => none
  | some last => do
    let front ← leading
    if last.contains '.' then return front ++ (← dottedPieces? last)
    else return front ++ [← hexPiece? last]

/-- The two sides of the first `::`. -/
def splitGap : List Char → Option (List Char × List Char)
  | ':' :: ':' :: rest => some ([], rest)
  | c :: rest => (splitGap rest).map fun (a, b) => (c :: a, b)
  | [] => none

def ofIpv6 (s : List Char) : Except UrlError Host :=
  let side (s : List Char) : Option (List Nat) := if s.isEmpty then some [] else pieces? s
  let pieces : Option (List Nat) :=
    match splitGap s with
    | none => (pieces? s).filter (·.length = 8)
    | some (before, after) => do
      if before.contains '.' then none
      let front ← side before
      let back ← side after
      if 7 < front.length + back.length then none
      some (front ++ List.replicate (8 - front.length - back.length) 0 ++ back)
  match pieces with
  | some ps => .ok (.ipv6 ps)
  | none => .error .invalidIpv6

/-- The longest run of zero pieces, as its start and length; the first one of equal length. -/
def longestZeros (pieces : List Nat) : Nat × Nat :=
  let run (start : Nat) : Nat := ((pieces.drop start).takeWhile (· = 0)).length
  (List.range pieces.length).foldl
    (fun best start => if best.2 < run start then (start, run start) else best) (0, 0)

def ipv6Text (pieces : List Nat) : String :=
  let hex (ps : List Nat) : String :=
    ":".intercalate (ps.map fun p => String.ofList (Nat.toDigits 16 p))
  let (start, length) := longestZeros pieces
  if length < 2 then hex pieces
  else hex (pieces.take start) ++ "::" ++ hex (pieces.drop (start + length))

/-! ## Domains -/

def isForbidden (c : Char) : Bool :=
  c.toNat ≤ 0x20 || c.toNat = 0x7F || "%#/:<>?@[\\]^\x60\x7b|\x7d".toList.contains c

/-- The step of the bias that punycode adapts its digits by. -/
def adaptBias (delta count : Nat) (isFirst : Bool) : Nat :=
  let delta := if isFirst then delta / 700 else delta / 2
  let rec reduce : (fuel delta k : Nat) → Nat
    | 0, delta, k => k + 36 * delta / (delta + 38)
    | fuel + 1, delta, k =>
      if 455 < delta then reduce fuel (delta / 35) (k + 36) else k + 36 * delta / (delta + 38)
  reduce 32 (delta + delta / count) 0

def punycodeDigit (n : Nat) : Char := if n < 26 then Char.ofNat (97 + n) else Char.ofNat (22 + n)

/-- A number in the variable-length digits of punycode. -/
def punycodeNumber (bias : Nat) : (fuel q k : Nat) → List Char
  | 0, _, _ => []
  | fuel + 1, q, k =>
    let t := if k ≤ bias then 1 else min 26 (k - bias)
    if q < t then [punycodeDigit q]
    else
      punycodeDigit (t + (q - t) % (36 - t))
        :: punycodeNumber bias fuel ((q - t) / (36 - t)) (k + 36)

structure PunycodeState where
  n : Nat := 128
  delta : Nat := 0
  bias : Nat := 72
  handled : Nat
  output : List Char := []

/-- Encodes every occurrence of one code point. -/
def punycodePass (label : List Char) (basic m : Nat) (s : PunycodeState) : PunycodeState :=
  let s := { s with delta := s.delta + (m - s.n) * (s.handled + 1), n := m }
  let s := label.foldl (fun s c =>
    if c.toNat < m then { s with delta := s.delta + 1 }
    else if c.toNat = m then
      { s with
        output := s.output ++ punycodeNumber s.bias 64 s.delta 36
        bias := adaptBias s.delta (s.handled + 1) (s.handled = basic)
        delta := 0
        handled := s.handled + 1 }
    else s) s
  { s with delta := s.delta + 1, n := m + 1 }

def punycode (label : List Char) : List Char :=
  let basic := label.filter (·.toNat < 128)
  let others := ((label.filter (128 ≤ ·.toNat)).map Char.toNat).eraseDups.mergeSort
  let start : PunycodeState := { handled := basic.length }
  let s := others.foldl (fun s m => punycodePass label basic.length m s) start
  basic ++ (if basic.isEmpty then [] else ['-']) ++ s.output

def asciiLabel (label : List Char) : List Char :=
  if label.all (·.toNat < 128) then label else "xn--".toList ++ punycode label

def domainToAscii (s : List Char) : Except UrlError (List Char) :=
  let lower := (Text.toLower (String.ofList s)).toList
  let dotted := lower.map fun c => if c = '。' then '.' else c
  if dotted.any isForbidden then .error .invalidDomain
  else .ok (".".toList.intercalate ((splitOn '.' dotted).map asciiLabel))

/-- The host of a scheme such as `http`. -/
def parse (s : List Char) : Except UrlError Host :=
  match s with
  | '[' :: rest =>
    if rest.getLast? = some ']' then ofIpv6 rest.dropLast else .error .invalidIpv6
  | s =>
    match String.fromUTF8? ⟨(Percent.decode s).toArray⟩ with
    | none => .error .invalidDomain
    | some decoded => do
      let domain ← domainToAscii decoded.toList
      if domain = [] then throw .emptyHost
      if endsInNumber domain then ofIpv4 domain else return .domain (String.ofList domain)

/-- What the host of a scheme without servers may not hold. -/
def isForbiddenOpaque (c : Char) : Bool := c = '\x00' || " #/:<>?@[\\]^|".toList.contains c

/-- The host of any other scheme, which is kept as it is. -/
def parseOpaque (s : List Char) : Except UrlError Host :=
  match s with
  | '[' :: rest =>
    if rest.getLast? = some ']' then ofIpv6 rest.dropLast else .error .invalidIpv6
  | s =>
    if s.any isForbiddenOpaque then .error .forbiddenCharacter
    else .ok (.domain (String.ofList (Percent.encode Percent.isControl s)))

def text : Host → String
  | .domain name => name
  | .ipv4 address =>
    ".".intercalate ([24, 16, 8, 0].map fun shift => toString (address >>> shift % 256))
  | .ipv6 pieces => "[" ++ ipv6Text pieces ++ "]"

end Host

end Url

end Agents
