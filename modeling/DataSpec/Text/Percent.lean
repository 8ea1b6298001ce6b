import DataSpec.Text.Hexadecimal

/-!
# Percent encoding

`Text.percentEncode` makes a text fit for a place where only some ASCII characters may
stand : any other character is written as the bytes of its UTF-8 form, each as a percent
sign and two digits.
-/

set_option autoImplicit false

namespace DataSpec.Text

/-- A byte as a percent sign and two digits. -/
def percentByte (b : UInt8) : List Char := '%' :: (hexByte b).map Char.toUpper

/-- A character that is kept if it satisfies `keep`. -/
def percentChar (keep : Char → Bool) (c : Char) : List Char :=
  if keep c then [c] else (String.utf8EncodeChar c).flatMap percentByte

/-- A text of which the characters that satisfy `keep` are kept. -/
def percentEncode (keep : Char → Bool) (s : String) : String := mapChars (percentChar keep) s

/-- The characters that stand for themselves in the URI of a column. -/
def isUriChar (c : Char) : Bool :=
  c.isAlphanum || ";,/?:@&=+$-_.!~*'()#".toList.contains c

end DataSpec.Text
