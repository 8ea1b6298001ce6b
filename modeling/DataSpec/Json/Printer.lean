import DataSpec.Json.Number
import DataSpec.Text.Hexadecimal

/-!
# Printed JSON

`Json.compact` writes a value on one line without blanks, `Json.pretty` with one item
or member per line, indented by two spaces. In a text only the quote, the backslash and
the characters below U+0020 are escaped. What is unreadable has no written form and leaves
a `null`.
-/

set_option autoImplicit false

namespace DataSpec.Json

/-- How a character of a text is written. -/
def escapeChar (c : Char) : List Char :=
  match c with
  | '"' => ['\\', '"']
  | '\\' => ['\\', '\\']
  | '\n' => ['\\', 'n']
  | '\r' => ['\\', 'r']
  | '\t' => ['\\', 't']
  | '\x08' => ['\\', 'b']
  | '\x0c' => ['\\', 'f']
  | c =>
    if c.toNat < 0x20 then
      ['\\', 'u', '0', '0', Text.hexDigit (c.toNat / 16),
        Text.hexDigit (c.toNat % 16)]
    else [c]

/-- A text between quotes. -/
def quoted (s : String) : String :=
  String.ofList ('"' :: (s.toList.flatMap escapeChar ++ ['"']))

mutual

/-- A value on one line. -/
def compact : Json → String
  | .null => "null"
  | .bool true => "true"
  | .bool false => "false"
  | .int n => toString n
  | .decimal d => decimalText d
  | .unreadable => "null"
  | .str s => quoted s
  | .arr items => "[" ++ compactItems items ++ "]"
  | .obj members => "\x7b" ++ compactMembers members ++ "\x7d"

/-- Items with commas between them. -/
def compactItems : List Json → String
  | [] => ""
  | [v] => v.compact
  | v :: rest => v.compact ++ "," ++ compactItems rest

/-- Members with commas between them. -/
def compactMembers : List (String × Json) → String
  | [] => ""
  | [(n, v)] => quoted n ++ ":" ++ v.compact
  | (n, v) :: rest => quoted n ++ ":" ++ v.compact ++ "," ++ compactMembers rest

end

/-- A new line at the given depth. -/
def newLine (depth : Nat) : String := "\n" ++ String.ofList (List.replicate (2 * depth) ' ')

mutual

/-- A value with one item or member per line, its own line being at `depth`. -/
def prettyAt (depth : Nat) : Json → String
  | .arr [] => "[]"
  | .arr (v :: rest) =>
    "[" ++ newLine (depth + 1) ++ prettyItems (depth + 1) (v :: rest) ++ newLine depth ++ "]"
  | .obj [] => "\x7b\x7d"
  | .obj (m :: rest) =>
    "\x7b" ++ newLine (depth + 1) ++ prettyMembers (depth + 1) (m :: rest) ++ newLine depth
      ++ "\x7d"
  | .null => "null"
  | .bool true => "true"
  | .bool false => "false"
  | .int n => toString n
  | .decimal d => decimalText d
  | .unreadable => "null"
  | .str s => quoted s

/-- Items at `depth`, a comma after each but the last. -/
def prettyItems (depth : Nat) : List Json → String
  | [] => ""
  | [v] => v.prettyAt depth
  | v :: rest => v.prettyAt depth ++ "," ++ newLine depth ++ prettyItems depth rest

/-- Members at `depth`, a comma after each but the last. -/
def prettyMembers (depth : Nat) : List (String × Json) → String
  | [] => ""
  | [(n, v)] => quoted n ++ ": " ++ v.prettyAt depth
  | (n, v) :: rest =>
    quoted n ++ ": " ++ v.prettyAt depth ++ "," ++ newLine depth ++ prettyMembers depth rest

end

/-- A value with one item or member per line. -/
def pretty (v : Json) : String := v.prettyAt 0

end DataSpec.Json
