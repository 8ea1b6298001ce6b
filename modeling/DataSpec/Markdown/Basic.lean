/-!
# Markdown documents

A `Markdown.Document` is a tree of sections. Each has a title and blocks, which are made
of pieces of text.
-/

set_option autoImplicit false

namespace DataSpec.Markdown

/-- A piece of text. -/
inductive Inline where
  | text (s : String)
  | strong (s : String)
  | code (s : String)
  /-- A place that links lead to. -/
  | anchor (name : String)
  | link (text : String) (target : String)
deriving DecidableEq

/-- A block of text. -/
inductive Block where
  | paragraph (content : List Inline)
  | list (items : List (List Inline))
  /-- A table, with the titles of its columns. -/
  | table (header : List String) (rows : List (List (List Inline)))

/-- A section. -/
structure Section where
  title : String
  /-- The name under which links lead to the section. -/
  anchor : Option String
  blocks : List Block
  sections : List Section

/-- A document. -/
structure Document where
  title : String
  blocks : List Block
  sections : List Section

/-- A link to a place in the same document. -/
def Inline.local (text anchor : String) : Inline := .link text ("#" ++ anchor)

end DataSpec.Markdown
