import DataSpec.Json.Token
import DataSpec.Text.Percent

/-!
# Reading percent encoding back

`percentBytes` are the bytes that an encoded text stands for : three characters from a percent
sign on are a byte, any other character is its UTF-8 form. For an encoded text they are the
UTF-8 form of the text itself, whichever characters were kept, as long as the percent sign was
not (`percentBytes_flatMap_percentChar`). So the text is decoded from them
(`percentDecode?_percentEncode`), and different texts are encoded differently
(`percentEncode_injective`).

An encoded text has no characters but those that were kept, and percent signs with two digits
each (`encoded_percentEncode`).
-/

set_option autoImplicit false

namespace DataSpec.Text

open Json.Token (hexValue?)

/-- The bytes that a percent-encoded text stands for. -/
def percentBytes : List Char → List UInt8
  | [] => []
  | '%' :: high :: low :: rest =>
    .ofNat (16 * (hexValue? high).getD 0 + (hexValue? low).getD 0) :: percentBytes rest
  | c :: rest => String.utf8EncodeChar c ++ percentBytes rest

/-- A digit is read back in upper case. -/
theorem hexValue?_toUpper_hexDigit {n : Nat} (h : n < 16) :
    hexValue? (hexDigit n).toUpper = some n := by
  have all : ∀ n : Fin 16, hexValue? (hexDigit n).toUpper = some n.val := by decide
  exact all ⟨n, h⟩

/-- An escaped byte is read as that byte. -/
theorem percentBytes_percentByte (b : UInt8) (rest : List Char) :
    percentBytes (percentByte b ++ rest) = b :: percentBytes rest := by
  have hb : b.toNat < 256 := b.toNat_lt
  have hhigh := hexValue?_toUpper_hexDigit (show b.toNat / 16 < 16 by omega)
  have hlow := hexValue?_toUpper_hexDigit (show b.toNat % 16 < 16 by omega)
  have hvalue : 16 * (b.toNat / 16) + b.toNat % 16 = b.toNat := by omega
  simp [percentByte, hexByte, percentBytes, hhigh, hlow, hvalue]

theorem percentBytes_flatMap_percentByte (bs : List UInt8) (rest : List Char) :
    percentBytes (bs.flatMap percentByte ++ rest) = bs ++ percentBytes rest := by
  induction bs with
  | nil => rfl
  | cons b bs ih =>
    rw [List.flatMap_cons, List.append_assoc, percentBytes_percentByte, ih, List.cons_append]

/-- A character that is no escape stands for its own bytes. -/
theorem percentBytes_cons {c : Char} (h : c ≠ '%') (rest : List Char) :
    percentBytes (c :: rest) = String.utf8EncodeChar c ++ percentBytes rest := by
  rw [percentBytes]
  rintro high low rest' rfl
  exact absurd rfl h

variable {keep : Char → Bool}

/-- An encoded character stands for its UTF-8 form, whether it was kept or not. -/
theorem percentBytes_percentChar (hk : keep '%' = false) (c : Char) (rest : List Char) :
    percentBytes (percentChar keep c ++ rest) = String.utf8EncodeChar c ++ percentBytes rest := by
  unfold percentChar
  split
  · rename_i hc
    refine percentBytes_cons ?_ rest
    rintro rfl
    simp [hk] at hc
  · exact percentBytes_flatMap_percentByte _ rest

/-- The bytes of a text are those of its characters. -/
theorem percentBytes_flatMap_percentChar (hk : keep '%' = false) (cs : List Char) :
    percentBytes (cs.flatMap (percentChar keep)) = cs.flatMap String.utf8EncodeChar := by
  induction cs with
  | nil => rfl
  | cons c cs ih => rw [List.flatMap_cons, percentBytes_percentChar hk, ih, List.flatMap_cons]

/-- What is encoded has the bytes of the text. -/
theorem percentBytes_percentEncode (hk : keep '%' = false) (s : String) :
    percentBytes (percentEncode keep s).toList = s.toList.flatMap String.utf8EncodeChar := by
  rw [percentEncode, mapChars, String.toList_ofList, percentBytes_flatMap_percentChar hk]

/-- The text that a percent-encoded text stands for, if the bytes are those of one. -/
def percentDecode? (s : String) : Option String :=
  String.fromUTF8? (percentBytes s.toList).toByteArray

/-- An encoded text is decoded to what it was. -/
theorem percentDecode?_percentEncode (hk : keep '%' = false) (s : String) :
    percentDecode? (percentEncode keep s) = some s := by
  rw [percentDecode?, percentBytes_percentEncode hk, ← List.utf8Encode, String.utf8Encode_toList,
    String.fromUTF8?, dif_pos s.isValidUTF8]
  rfl

/-- Different texts are encoded differently if the percent sign is not kept. -/
theorem percentEncode_injective (hk : keep '%' = false) :
    Function.Injective (percentEncode keep) := by
  intro s t h
  have hdecode := percentDecode?_percentEncode hk s
  rw [h, percentDecode?_percentEncode hk] at hdecode
  exact (Option.some.inj hdecode).symm

/-! ## The form of encoded texts -/

/-- The digits that bytes are written with. -/
def upperHexDigits : List Char := "0123456789ABCDEF".toList

/-- Characters that satisfy `keep`, and bytes, each as a percent sign and two digits. -/
inductive Encoded (keep : Char → Bool) : List Char → Prop where
  | nil : Encoded keep []
  | kept {c : Char} {rest : List Char} : keep c = true → Encoded keep rest →
    Encoded keep (c :: rest)
  | byte {high low : Char} {rest : List Char} : high ∈ upperHexDigits → low ∈ upperHexDigits →
    Encoded keep rest → Encoded keep ('%' :: high :: low :: rest)

theorem toUpper_hexDigit_mem {n : Nat} (h : n < 16) : (hexDigit n).toUpper ∈ upperHexDigits := by
  have all : ∀ n : Fin 16, (hexDigit n).toUpper ∈ upperHexDigits := by decide
  exact all ⟨n, h⟩

/-- An escape has two digits in upper case. -/
theorem Encoded.percentByte {rest : List Char} (h : Encoded keep rest) (b : UInt8) :
    Encoded keep (percentByte b ++ rest) := by
  have hb : b.toNat < 256 := b.toNat_lt
  exact .byte (toUpper_hexDigit_mem (by omega)) (toUpper_hexDigit_mem (by omega)) h

/-- A character either is kept or becomes escapes. -/
theorem Encoded.percentChar {rest : List Char} (h : Encoded keep rest) (c : Char) :
    Encoded keep (percentChar keep c ++ rest) := by
  unfold Text.percentChar
  split
  · exact .kept ‹_› h
  · induction String.utf8EncodeChar c with
    | nil => exact h
    | cons b bs ih =>
      rw [List.flatMap_cons, List.append_assoc]
      exact ih.percentByte b

end DataSpec.Text
