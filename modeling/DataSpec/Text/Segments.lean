/-!
# Segments of paths and identifiers

`Text.fields` cuts a text at every separator, `Text.segments` are the non-empty fields
between slashes. `Text.lastSegment` names a thing after its identifier, and
`Text.relativePath` leads from the directory of one path to another path.
-/

set_option autoImplicit false

namespace DataSpec.Text

/-- The stretches between the characters that satisfy `isSep` : one more than there are
such characters. -/
def fields (isSep : Char → Bool) : List Char → List (List Char)
  | [] => [[]]
  | c :: rest =>
    if isSep c then [] :: fields isSep rest
    else
      match fields isSep rest with
      | [] => [[c]]
      | f :: fs => (c :: f) :: fs

/-- The non-empty stretches between slashes. -/
def segments (s : String) : List String :=
  ((fields (· = '/') s.toList).filter fun f => !f.isEmpty).map String.ofList

/-- Texts with `sep` between them. -/
def join (sep : String) : List String → String
  | [] => ""
  | [s] => s
  | s :: rest => s ++ sep ++ join sep rest

/-- A text without the given character at its end. -/
def trimEnd (c : Char) (s : String) : String :=
  String.ofList (s.toList.reverse.dropWhile (· = c)).reverse

/-- A text without the given character at its start and its end. -/
def trim (c : Char) (s : String) : String :=
  trimEnd c (String.ofList (s.toList.dropWhile (· = c)))

/-- The part after the last slash or number sign, slashes at the end set aside. -/
def lastSegment (iri : String) : String :=
  String.ofList
    (((trimEnd '/' iri).toList.reverse.takeWhile fun c => c ≠ '/' && c ≠ '#').reverse)

/-- How many items two lists have in common at their start. -/
def commonLength : List String → List String → Nat
  | a :: as, b :: bs => if a = b then commonLength as bs + 1 else 0
  | _, _ => 0

/-- The path of `target` seen from the directory that holds `source`, by segments : up to
the last common directory, then down. -/
def relativePath (source target : String) : String :=
  let directory := (segments source).dropLast
  let goal := segments target
  let common := commonLength directory goal
  join "/" (List.replicate (directory.length - common) ".." ++ goal.drop common)

/-- Whether a text begins with another. -/
def startsWith (s start : String) : Bool := start.toList.isPrefixOf s.toList

/-- What follows `start` in a text that begins with it. -/
def after? (s start : String) : Option String :=
  if startsWith s start then some (String.ofList (s.toList.drop start.toList.length)) else none

/-- A text of which every character `c` is replaced by `f c`. -/
def mapChars (f : Char → List Char) (s : String) : String := String.ofList (s.toList.flatMap f)

end DataSpec.Text
