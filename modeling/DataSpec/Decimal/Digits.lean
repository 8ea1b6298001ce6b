/-!
# Decimal digits

The number that a run of digits stands for.
-/

set_option autoImplicit false

namespace DataSpec.Decimal

/-- The number that digits stand for if they follow those of `n`. -/
def natFrom (n : Nat) (ds : List Char) : Nat :=
  ds.foldl (fun n c => 10 * n + (c.toNat - '0'.toNat)) n

/-- The number that digits stand for. -/
def natOfDigits (ds : List Char) : Nat := natFrom 0 ds

/-- The digits at the start of a text, and what follows them. -/
def spanDigits (cs : List Char) : List Char × List Char :=
  (cs.takeWhile Char.isDigit, cs.dropWhile Char.isDigit)

end DataSpec.Decimal
