import DataSpec.Decimal.Double

/-!
# JSON values

`Json` is the value of a JSON text. An object is the list of its members in the order
in which they were written, so a document that is built member by member is printed in
that order. `Json.setMember` is the way to build one : a second value for the same name
replaces the first and keeps its place.

Numbers are integers of at most 64 bits; any other number has double precision. A part of
a text that nobody can read may still stand where it is passed over (`unreadable`), so a
value that is kept as it is has to be free of such parts (`Json.isReadable`).
-/

set_option autoImplicit false

namespace DataSpec

/-- The value of a JSON text. -/
inductive Json where
  | null
  | bool (b : Bool)
  | int (n : Int)
  | decimal (d : Double)
  | str (s : String)
  | arr (items : List Json)
  | obj (members : List (String × Json))
  /-- A text with half of a surrogate pair, a number beyond the largest, an object with
  such a name, or an array or object that is nested too deep. -/
  | unreadable
deriving Inhabited, BEq

namespace Json

/-- Give `name` the value `v` : in the place of an earlier member of that name, or last. -/
def setMember (name : String) (v : Json) : List (String × Json) → List (String × Json)
  | [] => [(name, v)]
  | (n, w) :: rest => if n = name then (n, v) :: rest else (n, w) :: setMember name v rest

/-- The first member with a name. -/
def member? (name : String) : List (String × Json) → Option Json
  | [] => none
  | (n, w) :: rest => if n = name then some w else member? name rest

/-- The value under a member of an object. -/
def get? : Json → String → Option Json
  | .obj members, name => member? name members
  | _, _ => none

/-- The members in order, each name once : the first place and the last value. -/
def mergeMembers (l : List (String × Json)) : List (String × Json) :=
  l.foldl (fun acc m => setMember m.1 m.2 acc) []

mutual

/-- The value in which no object has a name twice. -/
def merged : Json → Json
  | .arr items => .arr (mergedItems items)
  | .obj members => .obj (mergeMembers (mergedMembers members))
  | v => v

/-- `merged` on every item. -/
def mergedItems : List Json → List Json
  | [] => []
  | v :: rest => v.merged :: mergedItems rest

/-- `merged` on the value of every member. -/
def mergedMembers : List (String × Json) → List (String × Json)
  | [] => []
  | (n, v) :: rest => (n, v.merged) :: mergedMembers rest

end

mutual

/-- Whether every part can be read. -/
def isReadable : Json → Bool
  | .unreadable => false
  | .arr items => areReadable items
  | .obj members => areMembersReadable members
  | _ => true

/-- Whether every part of every item can be read. -/
def areReadable : List Json → Bool
  | [] => true
  | v :: rest => v.isReadable && areReadable rest

/-- Whether every part of every member can be read. -/
def areMembersReadable : List (String × Json) → Bool
  | [] => true
  | (_, v) :: rest => v.isReadable && areMembersReadable rest

end

/-- The list of texts as an array. -/
def strings (l : List String) : Json := .arr (l.map .str)

/-- The value, or `null` for none. -/
def orNull : Option Json → Json
  | some v => v
  | none => .null

/-- A text, or `null` for none. -/
def strOrNull (s : Option String) : Json := orNull (s.map .str)

/-- A member with a text, left out if there is none. -/
def textMember (name : String) (s : Option String) : List (String × Json) :=
  match s with
  | some s => [(name, .str s)]
  | none => []

/-- A natural number. -/
def nat (n : Nat) : Json := .int n

end Json

end DataSpec
