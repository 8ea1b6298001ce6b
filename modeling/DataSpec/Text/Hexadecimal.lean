import DataSpec.Text.Segments

/-!
# Hexadecimal digits
-/

set_option autoImplicit false

namespace DataSpec.Text

/-- A digit to the base 16, in lower case. -/
def hexDigit (n : Nat) : Char :=
  if n < 10 then Char.ofNat ('0'.toNat + n) else Char.ofNat ('a'.toNat + (n - 10))

/-- The two digits of a byte. -/
def hexByte (b : UInt8) : List Char := [hexDigit (b.toNat / 16), hexDigit (b.toNat % 16)]

end DataSpec.Text
