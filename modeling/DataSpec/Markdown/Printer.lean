import DataSpec.Markdown.Basic
import DataSpec.Text.Segments

/-!
# Written Markdown

`Markdown.Document.render` writes a document. Characters of a text that would be taken
for markup have a backslash before them. A row of a table is one line, so a bar in it has
a backslash as well, and a line break in it becomes a blank.
-/

set_option autoImplicit false

namespace DataSpec.Markdown

/-! ## Characters -/

/-- The characters that could be taken for markup. -/
def special : List Char := ['\\', '*', '_', '[', ']', '<', '>', '\x60']

/-- How a character of a text is written. -/
def escapeChar (c : Char) : List Char := if special.contains c then ['\\', c] else [c]

/-- How a character of code is written. -/
def codeChar (c : Char) : List Char := if c = '\x60' then ['\''] else [c]

/-- How a character of a link target is written. -/
def targetChar (c : Char) : List Char := if c = ' ' then ['%', '2', '0'] else [c]

/-- How a character of a written cell is written in a row. -/
def cellChar (c : Char) : List Char :=
  if c = '|' then ['\\', '|'] else if c = '\n' then [' '] else [c]

/-- The written form of a text. -/
def escape (s : String) : String := Text.mapChars escapeChar s

/-- The written form of a cell, from what is in it. -/
def cell (s : String) : String := Text.mapChars cellChar s

/-! ## Blocks -/

/-- A place that links lead to. -/
def anchorText (name : String) : String := "<a id=\"" ++ name ++ "\"></a>"

/-- The written form of a piece of text. -/
def Inline.render : Inline → String
  | .text s => escape s
  | .strong s => "**" ++ escape s ++ "**"
  | .code s => "\x60" ++ Text.mapChars codeChar s ++ "\x60"
  | .anchor name => anchorText name
  | .link label target => "[" ++ escape label ++ "](" ++ Text.mapChars targetChar target ++ ")"

/-- The written form of pieces of text. -/
def renderInlines (content : List Inline) : String := Text.join "" (content.map Inline.render)

/-- A row of a table, given its written cells. -/
def row (cells : List String) : String := "| " ++ Text.join " | " cells ++ " |\n"

/-- The line between the header and the rows of a table. -/
def rule (columns : Nat) : String := "|" ++ Text.join "" (List.replicate columns " --- |") ++ "\n"

/-- The written form of a block, after an empty line. -/
def Block.render : Block → String
  | .paragraph content => "\n" ++ renderInlines content ++ "\n"
  | .list items =>
    "\n" ++ Text.join "" (items.map fun item => "- " ++ renderInlines item ++ "\n")
  | .table header rows =>
    "\n" ++ row (header.map cell) ++ rule header.length ++
      Text.join "" (rows.map fun r => row (r.map fun c => cell (renderInlines c)))

/-- The written form of blocks. -/
def renderBlocks (blocks : List Block) : String := Text.join "" (blocks.map Block.render)

/-! ## Sections -/

/-- The deepest level of headings. -/
def deepest : Nat := 6

/-- A heading of a level. -/
def heading (level : Nat) (title : String) : String :=
  String.ofList (List.replicate (Nat.min level deepest) '#') ++ " " ++ escape title ++ "\n"

/-- What comes before the heading of a section. -/
def lead (anchor : Option String) : String :=
  match anchor with
  | some name => "\n" ++ anchorText name ++ "\n\n"
  | none => "\n"

mutual

/-- The written form of a section of a level. -/
def Section.render (level : Nat) : Section → String
  | ⟨title, anchor, blocks, sections⟩ =>
    lead anchor ++ heading level title ++ renderBlocks blocks ++
      renderSections (level + 1) sections

/-- The written form of sections of a level. -/
def renderSections (level : Nat) : List Section → String
  | [] => ""
  | s :: rest => s.render level ++ renderSections level rest

end

/-- The written form of a document. -/
def Document.render (d : Document) : String :=
  heading 1 d.title ++ renderBlocks d.blocks ++ renderSections 2 d.sections

end DataSpec.Markdown
