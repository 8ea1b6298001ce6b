import DataSpec.Decimal.Digits
import Mathlib.Data.List.TakeWhile

/-!
# Decimal digits read back

The digits of a number stand for that number (`natOfDigits_toDigits`), so different numbers are
written differently (`toString_inj`). The first digit is a zero only if there is no other
(`ne_zero_of_toDigits_eq_cons`). A run of digits is read up to where it ends
(`spanDigits_of_all`).
-/

set_option autoImplicit false

namespace DataSpec.Decimal

/-- Digits are read from the left. -/
theorem natFrom_append (n : Nat) (ds es : List Char) :
    natFrom n (ds ++ es) = natFrom (natFrom n ds) es := List.foldl_append

theorem natOfDigits_toDigits (n : Nat) : natOfDigits (Nat.toDigits 10 n) = n :=
  Nat.ofDigitChars_ten_toDigits

/-- Numbers are told apart by how they are written. -/
theorem toString_inj {n n' : Nat} : toString n = toString n' ↔ n = n' := by
  refine ⟨fun h => ?_, congrArg _⟩
  rw [Nat.toString_eq_ofList_toDigits, Nat.toString_eq_ofList_toDigits] at h
  rw [← natOfDigits_toDigits n, String.ofList_injective h, natOfDigits_toDigits]

theorem isDigit_of_mem_toDigits {n : Nat} {c : Char} (h : c ∈ Nat.toDigits 10 n) : c.isDigit :=
  Nat.isDigit_of_mem_toDigits (by decide) (by decide) h

/-- The digits of a number other than zero do not begin with a zero. -/
theorem ne_zero_of_toDigits_eq_cons {n : Nat} (hpos : 0 < n) {c : Char} {cs : List Char}
    (h : Nat.toDigits 10 n = c :: cs) : c ≠ '0' := by
  induction n using Nat.strongRecOn generalizing c cs with
  | ind n ih =>
    rw [Nat.toDigits_eq_if (by decide)] at h
    split at h
    · rename_i hlt
      obtain ⟨rfl, -⟩ := List.cons.inj h
      exact mt Nat.digitChar_eq_zero.mp (Nat.pos_iff_ne_zero.mp hpos)
    · rename_i hle
      have hfirst : 0 < n / 10 := by omega
      cases hds : Nat.toDigits 10 (n / 10) with
      | nil => exact absurd hds Nat.toDigits_ne_nil
      | cons d ds =>
        rw [hds, List.cons_append] at h
        obtain ⟨rfl, -⟩ := List.cons.inj h
        exact ih (n / 10) (by omega) hfirst hds

/-- A text of digits has nothing behind them. -/
theorem spanDigits_of_all {cs : List Char} (h : ∀ c ∈ cs, c.isDigit = true) :
    spanDigits cs = (cs, []) := by
  unfold spanDigits
  rw [List.takeWhile_eq_self_iff.mpr h, List.dropWhile_eq_nil_iff.mpr h]

end DataSpec.Decimal
