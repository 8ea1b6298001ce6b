import DataSpec.Text.CharacterClass
import DataSpec.Text.LowerTable

/-!
# Lower case

`Text.lowerCase` is the lower-case form of a whole text. It goes character by character
with two exceptions : a capital I with a dot becomes two characters, and a capital sigma
at the end of a word becomes the final sigma.
-/

set_option autoImplicit false

namespace DataSpec.Text

/-- The lower-case form of a character outside any text. -/
def lowerChar (c : Char) : List Char :=
  if c = '\u0130' then ['i', '\u0307']
  else
    match lowerRuns.find? fun r => r.contains c.toNat with
    | some r => [Char.ofNat (r.lower + (c.toNat - r.first))]
    | none => [c]

/-- Whether the first character that ends a word, if any, is cased. -/
def casedNext (cs : List Char) : Bool :=
  match cs.dropWhile isCaseIgnorable with
  | c :: _ => isCased c
  | [] => false

/-- The lower-case form of a text, `before` being what stands before it, last character
first. -/
def lowerFrom (before : List Char) : List Char → List Char
  | [] => []
  | c :: rest =>
    let low :=
      if c = 'Σ' then
        if casedNext before && !casedNext rest then ['ς'] else ['σ']
      else lowerChar c
    low ++ lowerFrom (c :: before) rest

/-- The lower-case form of a text. -/
def lowerCase (s : String) : String := String.ofList (lowerFrom [] s.toList)

end DataSpec.Text
