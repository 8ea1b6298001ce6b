import DataSpec.Text.LetterTable
import DataSpec.Text.NumberTable
import DataSpec.Text.AlphabeticTable
import DataSpec.Text.CasedTable
import DataSpec.Text.CaseIgnorableTable

/-!
# Character classes

Membership of a character in the classes of the tables, for all characters and not only
the ASCII ones.
-/

set_option autoImplicit false

namespace DataSpec.Text

/-- Whether a code point is in one of the ranges. -/
def inRanges (ranges : List (Nat × Nat)) (n : Nat) : Bool :=
  ranges.any fun r => decide (r.1 ≤ n) && decide (n ≤ r.2)

/-- Numbers. -/
def isNumber (c : Char) : Bool := inRanges numberRanges c.toNat

/-- Letters and numbers of Unicode 16. -/
def isLetterOrNumber (c : Char) : Bool :=
  inRanges letterRanges c.toNat || (isNumber c && !inRanges newNumberRanges c.toNat)

/-- Alphabetic characters. -/
def isAlphabetic (c : Char) : Bool := inRanges alphabeticRanges c.toNat

/-- Characters that have a case. -/
def isCased (c : Char) : Bool := inRanges casedRanges c.toNat

/-- Characters that do not end a word. -/
def isCaseIgnorable (c : Char) : Bool := inRanges caseIgnorableRanges c.toNat

end DataSpec.Text
