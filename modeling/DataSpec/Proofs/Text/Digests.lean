import DataSpec.Checksum

/-!
# The lengths of checksums

A checksum has 64 digits whatever the text is, so what is cut off it has the length that is asked
for. A text that goes on with such a part therefore tells what is before it
(`append_short_inj_left`).
-/

set_option autoImplicit false

namespace DataSpec

theorem Text.Sha256.length_bytesOfNat : ∀ n v : Nat, (bytesOfNat n v).length = n
  | 0, _ => rfl
  | n + 1, v => congrArg (· + 1) (length_bytesOfNat n v)

/-- A digest has 256 bits. -/
theorem Text.Sha256.length_digest (message : List UInt8) : (digest message).length = 32 := by
  simp [digest, State.words, length_bytesOfNat]

namespace Checksum

/-- The first digits of a checksum are as many as are asked for, up to 64. -/
theorem length_short (s : String) {n : Nat} (hn : n ≤ 64) :
    ((ofText s).short n).toList.length = n := by
  have hdigits : (ofText s).hex.toList.length = 64 := by
    simp [ofText, List.length_flatMap, Text.hexByte, Text.Sha256.length_digest, List.map_const']
  simp [short, hdigits, hn]

/-- The text before a hyphen and the first digits of a checksum is told by the whole. -/
theorem append_short_inj_left {text text' s s' : String} {n : Nat} (hn : n ≤ 64)
    (h : text ++ "-" ++ (ofText s).short n = text' ++ "-" ++ (ofText s').short n) :
    text = text' := by
  have hlist := congrArg String.toList h
  simp only [String.toList_append] at hlist
  have hbefore := List.append_inj_left' hlist
    ((length_short s hn).trans (length_short s' hn).symm)
  exact String.toList_inj.mp (List.append_cancel_right hbefore)

end Checksum

end DataSpec
