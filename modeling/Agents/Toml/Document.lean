import Agents.Json.Basic

/-! # Tables of a TOML document

A document builds a tree of tables step by step: a header opens a table, and a line assigns a value
to a dotted key inside the open table. A table is opened once, and a key is assigned once. What a
header or a dotted key only passes through may be completed later: by a header if a longer header
implied it, by a dotted key if a dotted key made it.
-/

namespace Agents.Toml

/-- How a table came about. -/
inductive Origin where
  /-- A header named it. -/
  | declared
  /-- A longer header passed through it. -/
  | implied
  /-- A dotted key passed through it. -/
  | dotted
deriving DecidableEq, Repr, Inhabited

/-- A node of the tree; the values are those of JSON, and an inline table is a value. -/
inductive Node where
  | value (value : Json)
  | table (origin : Origin) (entries : List (String × Node))
  /-- The tables of a repeated header, last one first. -/
  | tables (elements : List (List (String × Node)))
deriving Inhabited

abbrev Entries := List (String × Node)

namespace Entries

def get? (key : String) : Entries → Option Node
  | [] => none
  | (k, node) :: rest => if k = key then some node else get? key rest

/-- Replaces the node of a key, or adds it. -/
def set (key : String) (node : Node) : Entries → Entries
  | [] => [(key, node)]
  | (k, n) :: rest => if k = key then (k, node) :: rest else (k, n) :: set key node rest

end Entries

/-- Changes the entries at the end of a path. Tables on the way are made when missing; by `dotted`
keys only tables that no header declared may be passed. -/
def descend (dotted : Bool) (change : Origin → Entries → Option Entries) :
    List String → Origin → Entries → Option Entries
  | [], origin, entries => change origin entries
  | key :: path, _, entries =>
    match Entries.get? key entries with
    | none => do
      let origin := if dotted then Origin.dotted else .implied
      let inner ← descend dotted change path origin []
      return Entries.set key (.table origin inner) entries
    | some (.value _) => none
    | some (.table origin inner) =>
      if dotted && origin = .declared then none
      else do
        let inner ← descend dotted change path origin inner
        return Entries.set key (.table origin inner) entries
    | some (.tables []) => none
    | some (.tables (last :: before)) => do
      let last ← descend dotted change path .declared last
      return Entries.set key (.tables (last :: before)) entries

def assign (path : List String) (key : String) (value : Json) (entries : Entries) :
    Option Entries :=
  descend true (fun origin entries =>
    if !path.isEmpty && origin ≠ .dotted then none
    else if (Entries.get? key entries).isSome then none
    else some (Entries.set key (.value value) entries)) path .declared entries

def openTable (path : List String) (key : String) (root : Entries) : Option Entries :=
  descend false (fun _ entries =>
    match Entries.get? key entries with
    | none => some (Entries.set key (.table .declared []) entries)
    | some (.table .implied inner) => some (Entries.set key (.table .declared inner) entries)
    | some _ => none) path .declared root

/-- Opens one more table of a repeated header. -/
def openElement (path : List String) (key : String) (root : Entries) : Option Entries :=
  descend false (fun _ entries =>
    match Entries.get? key entries with
    | none => some (Entries.set key (.tables [[]]) entries)
    | some (.tables elements) => some (Entries.set key (.tables ([] :: elements)) entries)
    | some _ => none) path .declared root

/-- Assigns a value to a dotted key in the table that a header opened last. -/
def assignIn (header path : List String) (key : String) (value : Json) (root : Entries) :
    Option Entries :=
  descend false (fun _ entries => assign path key value entries) header .declared root

mutual

def Node.toJson : Node → Json
  | .value v => v
  | .table _ entries => Json.ofMembers (membersOf entries)
  | .tables elements => .arr (tablesOf elements).reverse

def membersOf : List (String × Node) → List (String × Json)
  | [] => []
  | (key, node) :: rest => (key, node.toJson) :: membersOf rest

def tablesOf : List (List (String × Node)) → List Json
  | [] => []
  | entries :: rest => Json.ofMembers (membersOf entries) :: tablesOf rest

end

end Agents.Toml
