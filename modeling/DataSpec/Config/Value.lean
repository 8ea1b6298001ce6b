import DataSpec.Decimal.Shortest
import DataSpec.Json.Basic
import DataSpec.Text.LowerCase
import DataSpec.Toml.Basic

/-!
# Values from sources of settings

All sources of settings, whatever their format, are turned into a `ConfigValue`, a table.
Tables are laid over each other key by key (`ConfigValue.overlay`), without regard to the
case of keys. A source may also name a place within tables and lists
(`ConfigValue.putAt`).

A setting is read from such a value as loosely as possible : a text may be given as a number
or a truth value, a truth value as a number or a word, and a name in any case.
-/

set_option autoImplicit false

namespace DataSpec

/-- A value from a source of settings. -/
inductive ConfigValue where
  | nothing
  | flag (b : Bool)
  | integer (n : Int)
  | decimal (d : Double)
  | text (s : String)
  | list (items : List ConfigValue)
  | table (entries : List (String × ConfigValue))
deriving Inhabited

namespace ConfigValue

/-! ## Other forms -/

/-- An integer, which has at most 64 bits with its sign. -/
def ofInt (n : Int) : ConfigValue :=
  if Int64.maxValue.toInt < n then .decimal (.ofNat false n.toNat) else .integer n

mutual

/-- The value of a key in a TOML text. -/
def ofToml : Toml.Value → ConfigValue
  | .text s => .text s
  | .integer n => .integer n
  | .decimal d => .decimal d
  | .flag b => .flag b
  | .moment written => .text written
  | .list items => .list (ofTomlItems items)
  | .table members => .table (ofTomlMembers members)

/-- `ofToml` on every item. -/
def ofTomlItems : List Toml.Value → List ConfigValue
  | [] => []
  | v :: rest => ofToml v :: ofTomlItems rest

/-- `ofToml` on the value of every key. -/
def ofTomlMembers : List (String × Toml.Value) → List (String × ConfigValue)
  | [] => []
  | (name, v) :: rest => (name, ofToml v) :: ofTomlMembers rest

end

mutual

/-- The value of a JSON text. -/
def ofJson : Json → ConfigValue
  | .null | .unreadable => .nothing
  | .bool b => .flag b
  | .int n => ofInt n
  | .decimal d => .decimal d
  | .str s => .text s
  | .arr items => .list (ofJsonItems items)
  | .obj members => .table (ofJsonMembers members)

/-- `ofJson` on every item. -/
def ofJsonItems : List Json → List ConfigValue
  | [] => []
  | v :: rest => ofJson v :: ofJsonItems rest

/-- `ofJson` on the value of every member. -/
def ofJsonMembers : List (String × Json) → List (String × ConfigValue)
  | [] => []
  | (name, v) :: rest => (name, ofJson v) :: ofJsonMembers rest

end

/-! ## Tables -/

/-- The entries of a table; anything else has none. -/
def entries : ConfigValue → List (String × ConfigValue)
  | .table entries => entries
  | _ => []

/-- The items of a list; anything else has none. -/
def items : ConfigValue → List ConfigValue
  | .list items => items
  | _ => []

/-- The first entry with a name. -/
def lookup? (name : String) (l : List (String × ConfigValue)) : Option ConfigValue :=
  (l.find? fun e => e.1 = name).map Prod.snd

/-- Give `name` the value `v`, in the place of an earlier entry with that name, or last. -/
def withEntry (name : String) (v : ConfigValue) :
    List (String × ConfigValue) → List (String × ConfigValue)
  | [] => [(name, v)]
  | (n, w) :: rest => if n = name then (n, v) :: rest else (n, w) :: withEntry name v rest

/-- The value under a name in any case, an empty table if there is none. -/
def entryAt (v : ConfigValue) (name : String) : ConfigValue :=
  (lookup? (Text.lowerCase name) v.entries).getD (.table [])

/-- The table with a value under the lower-case form of a name. What is no table is
forgotten. -/
def put (v : ConfigValue) (name : String) (w : ConfigValue) : ConfigValue :=
  .table (withEntry (Text.lowerCase name) w v.entries)

mutual

/-- A value laid over another one : the entries of a table are laid over those below, and
anything else takes the place of what is below. A table without entries changes nothing. -/
def overlay (v : ConfigValue) : ConfigValue → ConfigValue
  | .table entries => overlayEntries v entries
  | w => w

/-- Entries laid over a value one by one. -/
def overlayEntries (v : ConfigValue) : List (String × ConfigValue) → ConfigValue
  | [] => v
  | (name, w) :: rest => overlayEntries (v.put name (overlay (v.entryAt name) w)) rest

end

/-! ## Places -/

/-- A step to a place : to an entry of a table, or to an item of a list. -/
inductive Step where
  | key (name : String)
  /-- A negative position counts from the end. -/
  | item (position : Int)

/-- The place of an item in a list of a length. -/
def place (length : Nat) (position : Int) : Nat :=
  (if position < 0 then length + position else position).toNat

/-- A list with another item at a place, and with nothing at the places before it that it
did not have. -/
def withItem (i : Nat) (v : ConfigValue) (l : List ConfigValue) : List ConfigValue :=
  (l ++ List.replicate (i + 1 - l.length) ConfigValue.nothing).set i v

/-- A value laid over what is at a place. What is on the way and is not of the right kind is
forgotten. As an item of a list the value is not laid over the one before. -/
def putAt (w : ConfigValue) : List Step → ConfigValue → ConfigValue
  | [], v => v.overlay w
  | .key name :: steps, v => v.put name (putAt w steps (v.entryAt name))
  | .item position :: steps, v =>
    let i := place v.items.length position
    let old := v.items.getD i (.table [])
    .list (withItem i (if steps.isEmpty then w else putAt w steps old) v.items)

/-- Whether a character may stand in the name of a step. -/
def isNameChar (c : Char) : Bool := c.isAlphanum || c = ' ' || c = '_' || c = '-'

/-- Whether a character is blank between the brackets of a step. -/
def isBlank (c : Char) : Bool := c = ' ' || c = '\t' || c = '\r' || c = '\n'

/-- A position up to its closing bracket, and what follows it. -/
def position? (cs : List Char) : Option (Int × List Char) :=
  let cs := cs.dropWhile isBlank
  let (negative, cs) := if cs.head? = some '-' then (true, cs.drop 1) else (false, cs)
  let (digits, cs) := Decimal.spanDigits cs
  let n : Int := Decimal.natOfDigits digits
  let position := if negative then -n else n
  match cs.dropWhile isBlank with
  | ']' :: rest =>
    if digits.isEmpty || position < Int64.minValue.toInt || Int64.maxValue.toInt < position then
      none
    else some (position, rest)
  | _ => none

/-- Steps, each with a sign in front of it; `fuel` is more than their length. -/
def stepsFrom? : Nat → List Char → Option (List Step)
  | _, [] => some []
  | fuel + 1, '.' :: cs =>
    let name := cs.takeWhile isNameChar
    if name.isEmpty then none
    else (stepsFrom? fuel (cs.dropWhile isNameChar)).map (.key (String.ofList name) :: ·)
  | fuel + 1, '[' :: cs =>
    (position? cs).bind fun (position, rest) =>
      (stepsFrom? fuel rest).map (.item position :: ·)
  | _, _ => none

/-- The steps that are spelled by a key at the top, which is a name itself if it spells
none. -/
def steps (key : String) : List Step :=
  (stepsFrom? (key.length + 2) ('.' :: key.toList)).getD [.key key]

/-- Entries laid over a value one by one, each at the place that its key spells. -/
def putAll (v : ConfigValue) (l : List (String × ConfigValue)) : ConfigValue :=
  l.foldl (fun v e => putAt e.2 (steps e.1) v) v

/-! ## Readers -/

/-- A text. -/
def text? : ConfigValue → Option String
  | .text s => some s
  | .flag b => some (if b then "true" else "false")
  | .integer n => some (toString n)
  | .decimal d => some d.text
  | _ => none

/-- The truth value that a word stands for. -/
def wordFlag? (word : String) : Option Bool :=
  if ["1", "true", "on", "yes"].contains word then some true
  else if ["0", "false", "off", "no"].contains word then some false
  else none

/-- A truth value. -/
def flag? : ConfigValue → Option Bool
  | .flag b => some b
  | .integer n => some (n ≠ 0)
  | .decimal d => some !d.isZero
  | .text s => wordFlag? (Text.lowerCase s)
  | _ => none

/-- A name, which may also be the only key of a table. -/
def name? {α : Type} (ofName? : String → Option α) : ConfigValue → Option α
  | .text s => ofName? (Text.lowerCase s)
  | .table [(s, _)] => ofName? (Text.lowerCase s)
  | _ => none

/-- A list of texts. -/
def texts? : ConfigValue → Option (List String)
  | .list items => items.mapM text?
  | _ => none

/-- The values of a record with the given names, which are the entries of a table, or the
items of a list in order. -/
def record? (names : List String) : ConfigValue → Option (List (Option ConfigValue))
  | .table entries => some (names.map fun name => lookup? name entries)
  | .list items => some ((List.range names.length).map fun i => items[i]?)
  | _ => none

/-- A value that may be missing and then is `d`. -/
def orDefault {α : Type} (d : α) (f : ConfigValue → Option α) : Option ConfigValue → Option α
  | none => some d
  | some v => f v

end ConfigValue

end DataSpec
