/-! # JSON values

Objects are lists of members kept in ascending order of their keys, which is also the order of the
keys' UTF-8 bytes. `Fields.insert` keeps that order, and a later member with the same key wins.
Numbers are either exact integers or doubles; `1` and `1.0` are different values.
-/

namespace Agents

/-- A JSON number: an integer of at most 64 bits, or a finite double. -/
inductive Json.Number where
  | int (value : Int)
  | float (value : Float)
deriving Repr, Inhabited

inductive Json where
  | null
  | bool (value : Bool)
  | num (value : Json.Number)
  | str (text : String)
  | arr (items : List Json)
  | obj (fields : List (String × Json))
deriving Repr, Inhabited

namespace Json

/-- Members of an object, in ascending order of their keys. -/
abbrev Fields := List (String × Json)

def ofNat (n : Nat) : Json := .num (.int n)

def ofInt (n : Int) : Json := .num (.int n)

/-- A double as a JSON value; infinities and NaN have none and become `null`. -/
def ofFloat (x : Float) : Json := if x.isFinite then .num (.float x) else .null

instance : Coe String Json := ⟨.str⟩

/-! ## Equality -/

/-- Doubles compare by value, so the two zeros are equal; an integer never equals a double. -/
def Number.beq : Number → Number → Bool
  | .int a, .int b => a == b
  | .float a, .float b => a == b
  | _, _ => false

instance : BEq Number := ⟨Number.beq⟩

mutual

/-- Structural equality, with `Number.beq` at the numbers. -/
def beq : Json → Json → Bool
  | .null, .null => true
  | .bool a, .bool b => a == b
  | .num a, .num b => a == b
  | .str a, .str b => a == b
  | .arr as, .arr bs => beqItems as bs
  | .obj as, .obj bs => beqFields as bs
  | _, _ => false

def beqItems : List Json → List Json → Bool
  | [], [] => true
  | a :: as, b :: bs => beq a b && beqItems as bs
  | _, _ => false

def beqFields : List (String × Json) → List (String × Json) → Bool
  | [], [] => true
  | (k, a) :: as, (l, b) :: bs => k == l && beq a b && beqFields as bs
  | _, _ => false

end

instance : BEq Json := ⟨beq⟩

/-! ## Objects -/

namespace Fields

def get? (key : String) : Fields → Option Json
  | [] => none
  | (k, v) :: rest => if k = key then some v else get? key rest

def contains (key : String) (fields : Fields) : Bool := (fields.get? key).isSome

/-- Adds a member at its place, or replaces the value of the one with this key. -/
def insert (key : String) (value : Json) : Fields → Fields
  | [] => [(key, value)]
  | (k, v) :: rest =>
    if key < k then (key, value) :: (k, v) :: rest
    else if k = key then (key, value) :: rest
    else (k, v) :: insert key value rest

/-- The object with these members; of members with one key the last wins. -/
def ofList (members : List (String × Json)) : Fields :=
  members.foldl (fun fields (k, v) => insert k v fields) []

/-- `fields` with every member of `news` written over it. -/
def overlay (fields news : Fields) : Fields :=
  news.foldl (fun fields (k, v) => insert k v fields) fields

def keys (fields : Fields) : List String := fields.map (·.1)

def values (fields : Fields) : List Json := fields.map (·.2)

@[simp] theorem get?_nil (key : String) : get? key [] = none := rfl

theorem get?_cons (key k : String) (v : Json) (rest : Fields) :
    get? key ((k, v) :: rest) = if k = key then some v else get? key rest := rfl

theorem get?_insert_self (key : String) (value : Json) (fields : Fields) :
    get? key (insert key value fields) = some value := by
  induction fields with
  | nil => simp [insert, get?]
  | cons head rest ih =>
    obtain ⟨k, v⟩ := head
    unfold insert
    split
    · simp [get?]
    · split
      · simp [get?]
      · next h => simp [get?, h, ih]

theorem get?_insert_ne {key other : String} (h : other ≠ key) (value : Json) (fields : Fields) :
    get? other (insert key value fields) = get? other fields := by
  induction fields with
  | nil => simp [insert, get?, Ne.symm h]
  | cons head rest ih =>
    obtain ⟨k, v⟩ := head
    unfold insert
    split
    · simp [get?, Ne.symm h]
    · split
      · next hk => subst hk; simp [get?, Ne.symm h]
      · simp only [get?, ih]

end Fields

def ofMembers (members : List (String × Json)) : Json := .obj (Fields.ofList members)

def get? (key : String) : Json → Option Json
  | .obj fields => Fields.get? key fields
  | _ => none

/-- The value of a member; `null` when there is none. -/
def get (key : String) (json : Json) : Json := (json.get? key).getD .null

def str? : Json → Option String
  | .str s => some s
  | _ => none

def bool? : Json → Option Bool
  | .bool b => some b
  | _ => none

def arr? : Json → Option (List Json)
  | .arr items => some items
  | _ => none

def obj? : Json → Option Fields
  | .obj fields => some fields
  | _ => none

def nat? : Json → Option Nat
  | .num (.int n) => if 0 ≤ n then some n.toNat else none
  | _ => none

def isNull : Json → Bool
  | .null => true
  | _ => false

end Json

end Agents
