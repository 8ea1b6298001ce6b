import DataSpec.Decimal.Double

/-!
# TOML values

`Toml.Value` is the value of a key. A table is the list of its keys with their values. Of a
date or a time only the written form matters here.

`Toml.Reader` is the type of what reads from the start of a text, and the readers of blanks,
comments and line breaks are here.
-/

set_option autoImplicit false

namespace DataSpec.Toml

/-- The value of a key. -/
inductive Value where
  | text (s : String)
  | integer (n : Int)
  | decimal (d : Double)
  | flag (b : Bool)
  /-- A date, a time, or both. -/
  | moment (written : String)
  | list (items : List Value)
  | table (members : List (String × Value))
deriving Inhabited

/-- What reads something from the start of a text and gives what follows it. -/
abbrev Reader (α : Type) := List Char → Option (α × List Char)

/-- Blanks within a line. -/
def isBlank (c : Char) : Bool := c = ' ' || c = '\t'

/-- The text behind blanks. -/
def skipBlanks (cs : List Char) : List Char := cs.dropWhile isBlank

/-- The text behind a line break, if it begins with one. -/
def newline? : List Char → Option (List Char)
  | '\n' :: rest => some rest
  | '\r' :: '\n' :: rest => some rest
  | _ => none

/-- Characters that may stand in a comment or in a text; line breaks are not among them. -/
def isLineChar (c : Char) : Bool := c = '\t' || (0x20 ≤ c.toNat && c.toNat ≠ 0x7f)

/-- The text behind a comment, if it begins with one. -/
def skipComment : List Char → List Char
  | '#' :: rest => rest.dropWhile isLineChar
  | cs => cs

/-- The text behind blanks, comments and line breaks; `fuel` is at least its length. -/
def skipLines : Nat → List Char → List Char
  | 0, cs => cs
  | fuel + 1, cs =>
    let cs := skipComment (skipBlanks cs)
    match newline? cs with
    | some rest => skipLines fuel rest
    | none => cs

/-- The text behind the rest of a line, in which only a comment may stand. -/
def endLine? (cs : List Char) : Option (List Char) :=
  match skipComment (skipBlanks cs) with
  | [] => some []
  | cs => newline? cs

end DataSpec.Toml
