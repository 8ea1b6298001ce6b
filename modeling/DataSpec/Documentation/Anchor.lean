import DataSpec.Checksum
import DataSpec.Text.LowerCase
import DataSpec.Text.Segments

/-!
# Anchors

An anchor is the name of a place in a document. It has a readable part, made from the
labels of what is there, and a part that comes from the identifiers, so that two places
with equal labels differ.
-/

set_option autoImplicit false

namespace DataSpec.Anchor

/-- Every maximal run of characters other than letters and numbers becomes one hyphen.
`inRun` says that the hyphen of the current run is written. -/
def hyphenate (inRun : Bool) : List Char → List Char
  | [] => []
  | c :: rest =>
    if Text.isLetterOrNumber c then c :: hyphenate false rest
    else if inRun then hyphenate true rest
    else '-' :: hyphenate true rest

/-- A label in lower case, of letters, numbers and single hyphens between them. -/
def sanitize (label : String) : String :=
  Text.trim '-' (String.ofList (hyphenate false (Text.lowerCase label).toList))

/-- The number of digits that come from the identifiers. -/
def hashLength : Nat := 8

/-- The anchor of a thing with a label, in the part of a document about `format`; `key` is
made of the identifiers of the thing. -/
def make (specification format label key : String) : String :=
  sanitize (format ++ "-" ++ specification ++ "-" ++ label) ++ "-"
    ++ (Checksum.ofText key).short hashLength

end DataSpec.Anchor
