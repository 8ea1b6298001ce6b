import DataSpec.Text.Segments

/-!
# XML elements

An `Xml` value is an element with its attributes. `Xml.render` writes it over several
lines, two spaces further in for each level; an element that holds text stays on one
line. Values of attributes and texts are kept as they are written, so what is free text
goes through `Xml.escape` before.
-/

set_option autoImplicit false

namespace DataSpec

/-- An XML element. -/
inductive Xml where
  /-- An element without content. -/
  | leaf (name : String) (attributes : List (String × String))
  /-- An element that holds text. -/
  | text (name : String) (attributes : List (String × String)) (content : String)
  /-- An element that holds elements. -/
  | node (name : String) (attributes : List (String × String)) (children : List Xml)

namespace Xml

/-- How a character is written where it could be taken for markup. -/
def escapeChar : Char → List Char
  | '&' => "&amp;".toList
  | '<' => "&lt;".toList
  | '>' => "&gt;".toList
  | '"' => "&quot;".toList
  | c => [c]

/-- A text as it is written between tags and in the values of attributes. -/
def escape (s : String) : String := Text.mapChars escapeChar s

/-- An attribute with a free text as its value. -/
def attr (name value : String) : String × String := (name, escape value)

/-- An element with elements in it, which has one tag only if there are none. -/
def ofChildren (name : String) (attributes : List (String × String)) (children : List Xml) :
    Xml :=
  if children.isEmpty then .leaf name attributes else .node name attributes children

/-- The written form of attributes, with a space before each. -/
def attributesText : List (String × String) → String
  | [] => ""
  | (name, value) :: rest => " " ++ name ++ "=\"" ++ value ++ "\"" ++ attributesText rest

/-- What a line of a level begins with. -/
def indent : Nat → String
  | 0 => ""
  | level + 1 => "  " ++ indent level

/-- What a tag begins with. -/
def opening (level : Nat) (name : String) (attributes : List (String × String)) : String :=
  indent level ++ "<" ++ name ++ attributesText attributes

mutual

/-- The lines of an element. -/
def render (level : Nat) : Xml → String
  | leaf name attributes => opening level name attributes ++ "/>\n"
  | text name attributes content =>
    opening level name attributes ++ ">" ++ content ++ "</" ++ name ++ ">\n"
  | node name attributes children =>
    opening level name attributes ++ ">\n" ++ renderAll (level + 1) children ++
      indent level ++ "</" ++ name ++ ">\n"

/-- The lines of elements in order. -/
def renderAll (level : Nat) : List Xml → String
  | [] => ""
  | x :: rest => render level x ++ renderAll level rest

end

/-- The line that a document begins with. -/
def declaration : String := "<?xml version=\"1.0\" encoding=\"utf-8\"?>\n"

/-- A document. -/
def document (root : Xml) : String := declaration ++ root.render 0

end Xml

end DataSpec
