/-
Module: ParameterLog.Json.Value
Purpose: JSON values and the maps that configurations and parameter data are.
Main exports: Number, Value, Members, Members.insert, Members.find?, Value.same,
  Value.arranged, Value.WellFormed
-/
import ParameterLog.Json.Double

/-!
A map is the list of its members in increasing order of their names, so a map has one
representation and its text is canonical: it can be hashed. Names are ordered by their code points,
which is the order of their UTF-8 bytes. Whole numbers from `-2 ^ 63` to `2 ^ 64 - 1` are integers
and all others are doubles; an integer is never the same value as a double.
-/

namespace ParameterLog.Json

/-- A JSON number. -/
inductive Number where
  | integer (n : Int)
  | double (d : Double)
deriving Repr, DecidableEq, Inhabited

/-- A JSON value. -/
inductive Value where
  | null
  | bool (b : Bool)
  | number (n : Number)
  | text (s : String)
  | array (items : List Value)
  | object (members : List (String × Value))
deriving Repr, Inhabited

/-- The members of a map, in increasing order of their names. -/
abbrev Members := List (String × Value)

namespace Members

/-- Sets a member, replacing one of the same name. -/
def insert (name : String) (value : Value) : Members → Members
  | [] => [(name, value)]
  | (other, kept) :: rest =>
    if name < other then (name, value) :: (other, kept) :: rest
    else if name = other then (name, value) :: rest
    else (other, kept) :: insert name value rest

/-- The value of a member. -/
def find? (members : Members) (name : String) : Option Value := List.lookup name members

/-- The map without a member. -/
def erase (members : Members) (name : String) : Members :=
  members.filter fun member => member.1 != name

/-- The map of a list of members, of which the last of each name counts. -/
def ofList (members : List (String × Value)) : Members :=
  members.foldl (fun map member => insert member.1 member.2 map) []

end Members

namespace Number

/-- Two numbers are the same number: doubles are compared by value. -/
def same : Number → Number → Bool
  | .integer a, .integer b => a == b
  | .double a, .double b => a.sameNumber b
  | _, _ => false

/-- Whole numbers that are kept as integers: those from `-2 ^ 63` to `2 ^ 64 - 1`. -/
def inRange (n : Int) : Bool := -9223372036854775808 ≤ n && n ≤ 18446744073709551615

end Number

namespace Value

/-- A value that is a text. -/
instance : Coe String Value := ⟨.text⟩

/-- A natural number as a value. -/
def ofNat (n : Nat) : Value := .number (.integer n)

/-- A value, or `null` for none. -/
def ofOption : Option Value → Value
  | some value => value
  | none => .null

/-- The map of a list of members. -/
def map (members : List (String × Value)) : Value := .object (Members.ofList members)

mutual

/-- Two values are the same: equal but for the sign of zeros. -/
def same : Value → Value → Bool
  | .null, .null => true
  | .bool a, .bool b => a == b
  | .number a, .number b => a.same b
  | .text a, .text b => a == b
  | .array a, .array b => sameItems a b
  | .object a, .object b => sameMembers a b
  | _, _ => false

/-- Two lists hold the same values in the same order. -/
def sameItems : List Value → List Value → Bool
  | [], [] => true
  | a :: as, b :: bs => same a b && sameItems as bs
  | _, _ => false

/-- Two maps have the same names with the same values. -/
def sameMembers : List (String × Value) → List (String × Value) → Bool
  | [], [] => true
  | (m, a) :: as, (n, b) :: bs => m == n && same a b && sameMembers as bs
  | _, _ => false

end

/-- Two optional values are both absent or both the same. -/
def sameOption : Option Value → Option Value → Bool
  | none, none => true
  | some a, some b => same a b
  | _, _ => false

mutual

/-- The value with the members of every map in the order of their names. -/
def arranged : Value → Value
  | .array items => .array (arrangedItems items)
  | .object members => .object (arrangedMembers members)
  | other => other

/-- Items with the members of every map in order. -/
def arrangedItems : List Value → List Value
  | [] => []
  | v :: rest => arranged v :: arrangedItems rest

/-- Members in order, and those of every map inside them. -/
def arrangedMembers : List (String × Value) → Members
  | [] => []
  | (name, v) :: rest => Members.insert name (arranged v) (arrangedMembers rest)

end

mutual

/-- The number of levels of arrays and maps in a value. -/
def depth : Value → Nat
  | .array items => depthItems items + 1
  | .object members => depthMembers members + 1
  | _ => 0

/-- The depth of the deepest item. -/
def depthItems : List Value → Nat
  | [] => 0
  | v :: rest => max (depth v) (depthItems rest)

/-- The depth of the deepest member. -/
def depthMembers : List (String × Value) → Nat
  | [] => 0
  | (_, v) :: rest => max (depth v) (depthMembers rest)

end

/-- The names of a map increase. -/
def Ordered (members : Members) : Prop := members.Pairwise fun a b => a.1 < b.1

mutual

/-- Every number is a whole number in range, and the names of every map increase. -/
def WellFormed : Value → Prop
  | .number (.integer n) => Number.inRange n = true
  | .number (.double _) => False
  | .array items => WellFormedItems items
  | .object members => Ordered members ∧ WellFormedMembers members
  | _ => True

/-- Every item is well-formed. -/
def WellFormedItems : List Value → Prop
  | [] => True
  | v :: rest => WellFormed v ∧ WellFormedItems rest

/-- Every member's value is well-formed. -/
def WellFormedMembers : List (String × Value) → Prop
  | [] => True
  | (_, v) :: rest => WellFormed v ∧ WellFormedMembers rest

end

end Value
end ParameterLog.Json
