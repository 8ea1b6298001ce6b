import DataSpec.Json.Basic
import DataSpec.SortedMap

/-!
# Reading values out of JSON

Every type with a written form has a reader `Json → Option α`, made from the readers
here. A record is read by `Json.record`: from an object, by the names of its members, or
from an array, by their order. An object may have members of other names, but none of
its own twice; an array may not be longer than the record. Models are read from looser
objects, in which a member that is `null` counts as missing.
-/

set_option autoImplicit false

namespace DataSpec.Json

/-- A text. -/
def str? : Json → Option String
  | .str s => some s
  | _ => none

/-- A value that is kept as it is, every part of which can be read. -/
def whole? (v : Json) : Option Json := if v.isReadable then some v.merged else none

/-- A truth value. -/
def bool? : Json → Option Bool
  | .bool b => some b
  | _ => none

/-- An integer. -/
def int? : Json → Option Int
  | .int n => some n
  | _ => none

/-- An integer that has 64 bits with its sign. -/
def int64? (v : Json) : Option Int :=
  v.int?.filter fun n => decide (Int64.minValue.toInt ≤ n) && decide (n ≤ Int64.maxValue.toInt)

/-- A natural number below `bound`. -/
def natBelow? (bound : Nat) (v : Json) : Option Nat :=
  v.int?.bind fun n => if 0 ≤ n ∧ n < bound then some n.toNat else none

/-- A list of values, each read by `f`. -/
def list? {α : Type} (f : Json → Option α) : Json → Option (List α)
  | .arr items => items.mapM f
  | _ => none

/-- A value read by `f`, or `null` for none. -/
def option? {α : Type} (f : Json → Option α) : Json → Option (Option α)
  | .null => some none
  | v => (f v).map some

/-- A list of exactly two values. -/
def pair? {α β : Type} (f : Json → Option α) (g : Json → Option β) : Json → Option (α × β)
  | .arr [a, b] =>
    match f a, g b with
    | some x, some y => some (x, y)
    | _, _ => none
  | _ => none

/-- How a value gets to its reader. -/
inductive Origin where
  /-- From where it is written. -/
  | direct
  /-- From a buffer, in which it was kept till another member said how to read it. -/
  | buffered
deriving DecidableEq

/-- Whether a value stands for none. In a buffer an empty object does, too. -/
def isNothing : Origin → Json → Bool
  | _, .null => true
  | .buffered, .obj [] => true
  | _, _ => false

/-- A name out of a finite list. It may also be written as an object with that one member
and no value. -/
def named? {α : Type} (origin : Origin) (ofName? : String → Option α) : Json → Option α
  | .str s => ofName? s
  | .obj [(s, v)] => if isNothing origin v then ofName? s else none
  | _ => none

/-- An object as a map : keys are read by `key`, values by `f`, and of equal keys the last
value counts. -/
def map? {α β : Type} [KeyOrder α] (key : String → Option α) (f : Json → Option β) :
    Json → Option (SortedMap α β)
  | .obj members =>
    (members.mapM fun (m : String × Json) =>
      match key m.1, f m.2 with
      | some k, some v => some (k, v)
      | _, _ => none).map SortedMap.ofList
  | _ => none

/-! ## Records -/

/-- What a record says about one of its members. -/
inductive Member where
  | given (v : Json)
  /-- An object without this member. -/
  | missing
  /-- An array that ends before this member. -/
  | beyondEnd

namespace Member

variable {α : Type}

/-- A member that has to be there. -/
def required (f : Json → Option α) : Member → Option α
  | .given v => f v
  | _ => none

/-- A member that may be missing from an object, or be `null`. -/
def optional (f : Json → Option α) : Member → Option (Option α)
  | .given v => option? f v
  | .missing => some none
  | .beyondEnd => none

/-- A member that may be missing and then is `d`. -/
def withDefault (d : α) (f : Json → Option α) : Member → Option α
  | .given v => f v
  | _ => some d

end Member

/-- The values of a list in order, and `beyondEnd` when it is over; none if it is longer
than the list of names. -/
def positional : List String → List Json → Option (List Member)
  | [], [] => some []
  | [], _ :: _ => none
  | _ :: names, [] => (positional names []).map (.beyondEnd :: ·)
  | _ :: names, v :: rest => (positional names rest).map (.given v :: ·)

/-- The members of the given names, none if one of them occurs twice. -/
def byName (members : List (String × Json)) (names : List String) : Option (List Member) :=
  names.mapM fun name =>
    match members.filter fun m => m.1 = name with
    | [] => some .missing
    | [m] => some (.given m.2)
    | _ => none

/-- The members of a record with the given names, in their order. -/
def record (names : List String) : Json → Option (List Member)
  | .obj members => byName members names
  | .arr items => positional names items
  | _ => none

/-- Whether an object has a member of the first name before any of the second. -/
def leads (name other : String) : Json → Bool
  | .obj members =>
    (members.find? fun m => m.1 = name || m.1 = other).any fun m => m.1 = name
  | _ => false

/-! ## Loose objects

Where an object is written by hand, a member that is `null` counts as missing. -/

/-- A member that is neither missing nor `null`. -/
def field? (v : Json) (name : String) : Option Json :=
  match v.get? name with
  | some .null => none
  | w => w

/-- A member that has to be there. -/
def need {α : Type} (v : Json) (name : String) (f : Json → Option α) : Option α :=
  (v.field? name).bind f

/-- A member that has a default. -/
def orElse {α : Type} (v : Json) (name : String) (d : α) (f : Json → Option α) : Option α :=
  match v.field? name with
  | none => some d
  | some w => f w

/-- A member that may be missing. -/
def maybe {α : Type} (v : Json) (name : String) (f : Json → Option α) : Option (Option α) :=
  match v.field? name with
  | none => some none
  | some w => (f w).map some

/-- A truth value, false if it is missing. -/
def flag? (v : Json) (name : String) : Option Bool := v.orElse name false bool?

/-- A list of texts, empty if it is missing. -/
def strings? (v : Json) (name : String) : Option (List String) := v.orElse name [] (list? str?)

/-- A value that has one of several forms : the name of the form, and what belongs to it. A
form to which nothing belongs may be written as its name. -/
def variant? : Json → Option (String × Json)
  | .str s => some (s, .null)
  | .obj (m :: _) => some m
  | _ => none

end DataSpec.Json
