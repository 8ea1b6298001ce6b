import DataSpec.Text.Hexadecimal
import DataSpec.Text.Segments

/-!
# Written TOML

`Toml.render` writes tables one after the other. A text stands between quotes if nothing in
it has to be escaped there, or else between apostrophes, or between three of the one or the
other (`Toml.Style.of`). An array of several texts has a line for each.
-/

set_option autoImplicit false

namespace DataSpec.Toml

/-- A value that is written. -/
inductive Plain where
  | text (s : String)
  | flag (b : Bool)
  | texts (l : List String)
deriving DecidableEq

/-- A table that is written. -/
structure Section where
  name : String
  values : List (String × Plain)
deriving DecidableEq

/-! ## Texts -/

/-- The greatest number of marks in a row; `here` are those just before. -/
def longestRun (mark : Char) (here : Nat) : List Char → Nat
  | [] => here
  | c :: rest =>
    if c = mark then longestRun mark (here + 1) rest
    else Nat.max here (longestRun mark 0 rest)

/-- Whether a character can only be written as an escape. -/
def isCoded (c : Char) : Bool :=
  (c.toNat < 0x20 && c ≠ '\t' && c ≠ '\n') || c.toNat = 0x7f

/-- What a text stands between. -/
inductive Style where
  | quotes
  | apostrophes
  | threeQuotes
  | threeApostrophes
deriving DecidableEq

namespace Style

/-- What a text stands between : the first of the four in which it needs no escapes, but
quotes if there is none, three of them for several lines. -/
def of (cs : List Char) : Style :=
  let coded := cs.any isCoded
  let escaped := coded || cs.contains '\\'
  let lines := cs.contains '\n'
  let quotes := longestRun '"' 0 cs
  let apostrophes := longestRun '\'' 0 cs
  if !escaped && quotes = 0 && !lines then .quotes
  else if !coded && apostrophes = 0 && !lines then .apostrophes
  else if !escaped && quotes ≤ 2 then .threeQuotes
  else if !coded && apostrophes ≤ 2 then .threeApostrophes
  else if lines then .threeQuotes
  else .quotes

/-- What stands at both ends. -/
def mark : Style → String
  | quotes => "\""
  | apostrophes => "'"
  | threeQuotes => "\"\"\""
  | threeApostrophes => "'''"

/-- How many quotes in a row need no escape. -/
def freeQuotes : Style → Nat
  | quotes => 0
  | _ => 2

/-- Whether a text may have several lines. -/
def hasLines : Style → Bool
  | threeQuotes | threeApostrophes => true
  | _ => false

/-- Whether there are escapes. -/
def hasEscapes : Style → Bool
  | quotes | threeQuotes => true
  | _ => false

end Style

/-- How a character other than a quote is written between quotes. -/
def escapeChar (style : Style) (c : Char) : List Char :=
  match c with
  | '\\' => ['\\', '\\']
  | '\x08' => ['\\', 'b']
  | '\t' => ['\\', 't']
  | '\x0c' => ['\\', 'f']
  | '\r' => ['\\', 'r']
  | '\n' => if style.hasLines then ['\n'] else ['\\', 'n']
  | c =>
    if isCoded c then ['\\', 'u', '0', '0'] ++ (Text.hexByte c.toNat.toUInt8).map Char.toUpper
    else [c]

/-- How characters are written between quotes; `free` more quotes need no escape here. -/
def escapeFrom (style : Style) (free : Nat) : List Char → List Char
  | [] => []
  | c :: rest =>
    if c = '"' then
      match free with
      | 0 => '\\' :: '"' :: escapeFrom style style.freeQuotes rest
      | free + 1 => '"' :: escapeFrom style free rest
    else escapeChar style c ++ escapeFrom style style.freeQuotes rest

/-- The written form of a text. -/
def quoted (s : String) : String :=
  let cs := s.toList
  let style := Style.of cs
  let body := if style.hasEscapes then String.ofList (escapeFrom style style.freeQuotes cs) else s
  let start := if style.hasLines && cs.contains '\n' then "\n" else ""
  style.mark ++ start ++ body ++ style.mark

/-! ## Tables -/

/-- The written form of a value. -/
def Plain.render : Plain → String
  | .text s => quoted s
  | .flag b => if b then "true" else "false"
  | .texts [] => "[]"
  | .texts [s] => "[" ++ quoted s ++ "]"
  | .texts l => "[\n" ++ Text.join "" (l.map fun s => "    " ++ quoted s ++ ",\n") ++ "]"

/-- The written form of a table. -/
def Section.render (t : Section) : String :=
  "[" ++ t.name ++ "]\n" ++
    Text.join "" (t.values.map fun e => e.1 ++ " = " ++ e.2.render ++ "\n")

/-- The written form of tables, with an empty line between them. -/
def render (sections : List Section) : String := Text.join "\n" (sections.map Section.render)

end DataSpec.Toml
