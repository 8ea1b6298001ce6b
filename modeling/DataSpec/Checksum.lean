import DataSpec.Text.Hexadecimal
import DataSpec.Text.Sha256

/-!
# Checksums

The checksum of a text is the SHA-256 digest of its UTF-8 form, in hexadecimal.
-/

set_option autoImplicit false

namespace DataSpec

/-- The checksum of a text. -/
structure Checksum where
  hex : String
deriving DecidableEq

namespace Checksum

/-- The checksum of a text. -/
def ofText (s : String) : Checksum :=
  ⟨String.ofList ((Text.Sha256.digest s.toUTF8.toList).flatMap Text.hexByte)⟩

/-- The first `n` digits, or all of them. -/
def short (c : Checksum) (n : Nat) : String := String.ofList (c.hex.toList.take n)

/-- Whether a text has this checksum. -/
def verify (c : Checksum) (s : String) : Bool := decide (ofText s = c)

end Checksum

end DataSpec
