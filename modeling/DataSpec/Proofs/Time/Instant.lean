import DataSpec.Proofs.Decimal.Digits
import DataSpec.Time.Instant
import Mathlib.Algebra.Group.Nat.Defs

/-!
# Instants read back

The written form of an instant says all about it : `Instant.ofText?` makes the same instant of it
(`ofText?_text`), as long as its year is one that has dates. Every number of the written form is a
run of digits that ends where it should, either because it has the width of its place or because
something else than a digit follows (`number?_append`).
-/

set_option autoImplicit false

namespace DataSpec.Instant

open Decimal (natFrom natOfDigits)

/-! ## Digits of a fixed number of places -/

/-- Numbers are filled up to their places. -/
theorem length_digits (n v : Nat) : (digits n v).length = n := by
  induction n generalizing v with
  | zero => rfl
  | succ n ih => rw [digits, List.length_append, ih]; rfl

theorem digit_spec {d : Nat} (h : d < 10) :
    (Char.ofNat ('0'.toNat + d)).isDigit = true ∧
      (Char.ofNat ('0'.toNat + d)).toNat - '0'.toNat = d := by
  have all : ∀ d : Fin 10, (Char.ofNat ('0'.toNat + d)).isDigit = true ∧
      (Char.ofNat ('0'.toNat + d)).toNat - '0'.toNat = d := by decide
  exact all ⟨d, h⟩

theorem isDigit_of_mem_digits {n v : Nat} {c : Char} (h : c ∈ digits n v) : c.isDigit = true := by
  induction n generalizing v with
  | zero => cases h
  | succ n ih =>
    obtain h | h := List.mem_append.mp h
    · exact ih h
    · rw [List.mem_singleton.mp h]
      exact (digit_spec (Nat.mod_lt v (by decide))).1

/-- The last digits of a number are what is left of it behind them. -/
theorem natOfDigits_digits (n v : Nat) : natOfDigits (digits n v) = v % 10 ^ n := by
  induction n generalizing v with
  | zero => rw [Nat.pow_zero, Nat.mod_one]; rfl
  | succ n ih =>
    have hlast : natOfDigits (digits (n + 1) v) =
        10 * natOfDigits (digits n (v / 10)) + v % 10 := by
      rw [digits, natOfDigits, Decimal.natFrom_append]
      exact congrArg (10 * natOfDigits (digits n (v / 10)) + ·)
        (digit_spec (Nat.mod_lt v (by decide))).2
    rw [hlast, ih, Nat.pow_succ, Nat.mul_comm (10 ^ n), Nat.mod_mul, Nat.add_comm]

/-! ## Numbers in their places -/

theorem not_isBlank_of_isDigit {c : Char} (h : c.isDigit = true) : isBlank c = false := by
  have hrange := Char.isDigit_iff_toNat.mp h
  have hlow : 48 ≤ c.toNat := hrange.1
  have hhigh : c.toNat ≤ 57 := hrange.2
  simp only [isBlank, Bool.or_eq_false_iff, Bool.and_eq_false_iff, decide_eq_false_iff_not,
    beq_eq_false_iff_ne]
  omega

theorem skipBlanks_cons {c : Char} (h : isBlank c = false) (rest : List Char) :
    skipBlanks (c :: rest) = c :: rest := by
  rw [skipBlanks, List.dropWhile_cons_of_neg (by simp [h])]

/-- A run of digits is read as its number if within its place no other digit follows. -/
theorem number?_append {width : Nat} {ds rest : List Char} (hne : ds ≠ [])
    (hdigits : ∀ c ∈ ds, c.isDigit = true) (hlen : ds.length ≤ width)
    (hend : ∀ c ∈ (rest.take (width - ds.length)).head?, c.isDigit = false) :
    number? width (ds ++ rest) = some (natOfDigits ds, rest) := by
  have hskip : skipBlanks (ds ++ rest) = ds ++ rest := by
    cases ds with
    | nil => exact absurd rfl hne
    | cons c ds =>
      exact skipBlanks_cons (not_isBlank_of_isDigit (hdigits c List.mem_cons_self)) _
  have hrun : ((ds ++ rest).take width).takeWhile Char.isDigit = ds := by
    rw [List.take_append, List.take_of_length_le hlen, List.takeWhile_append_of_pos hdigits]
    cases htail : rest.take (width - ds.length) with
    | nil => rw [List.takeWhile_nil, List.append_nil]
    | cons c cs =>
      have hc : c.isDigit = false := hend c (htail ▸ rfl)
      rw [List.takeWhile_cons_of_neg (by simp [hc]), List.append_nil]
  have hnonempty : ds.isEmpty = false := by simpa using hne
  simp only [number?, hskip, hrun, hnonempty, Bool.false_eq_true, if_false, List.drop_left]

theorem number?_digits {n v : Nat} (hpos : 0 < n) (hv : v < 10 ^ n) (rest : List Char) :
    number? n (digits n v ++ rest) = some (v, rest) := by
  have hlen := length_digits n v
  have hne : digits n v ≠ [] := List.ne_nil_of_length_pos (hlen.symm ▸ hpos)
  have hend : ∀ c ∈ (rest.take (n - (digits n v).length)).head?, c.isDigit = false := by
    simp [hlen]
  rw [number?_append hne (fun c hc => isDigit_of_mem_digits hc) (Nat.le_of_eq hlen) hend,
    natOfDigits_digits, Nat.mod_eq_of_lt hv]

/-- A separator is found behind no blanks. -/
theorem expect?_cons {c : Char} (h : isBlank c = false) (rest : List Char) :
    expect? c (skipBlanks (c :: rest)) = some rest := by
  rw [skipBlanks_cons h, expect?, if_pos rfl]

/-! ## Years -/

/-- The digits of a year that is written with a sign. -/
def signedYear (n : Nat) : List Char := if n ≤ 9999 then digits 4 n else (toString n).toList

/-- The digits of a year are read as the year. -/
theorem signedYear_spec (n : Nat) : signedYear n ≠ [] ∧
    (∀ c ∈ signedYear n, c.isDigit = true) ∧ natOfDigits (signedYear n) = n := by
  unfold signedYear
  split
  · refine ⟨List.ne_nil_of_length_pos ?_, fun c hc => isDigit_of_mem_digits hc, ?_⟩
    · rw [length_digits]
      decide
    · rw [natOfDigits_digits, Nat.mod_eq_of_lt (by omega)]
  · rw [Nat.toString_eq_ofList_toDigits, String.toList_ofList]
    exact ⟨Nat.toDigits_ne_nil, fun c hc => Decimal.isDigit_of_mem_toDigits hc,
      Decimal.natOfDigits_toDigits n⟩

theorem number?_signedYear (n : Nat) (rest : List Char) :
    number? (signedYear n ++ '-' :: rest).length (signedYear n ++ '-' :: rest) =
      some (n, '-' :: rest) := by
  obtain ⟨hne, hdigits, hvalue⟩ := signedYear_spec n
  rw [number?_append hne hdigits (by simp) (by simp), hvalue]

theorem any_head?_signedYear (n : Nat) (rest : List Char) :
    (signedYear n ++ rest).head?.any Char.isDigit = true := by
  obtain ⟨hne, hdigits, -⟩ := signedYear_spec n
  cases hds : signedYear n with
  | nil => exact absurd hds hne
  | cons c cs => exact hdigits c (hds ▸ List.mem_cons_self)

/-- Four digits are read as a year. -/
theorem year?_digits {n : Nat} (hn : n < 10 ^ 4) (rest : List Char) :
    year? (digits 4 n ++ rest) = some ((n : Int), rest) := by
  have hnumber := number?_digits (by decide) hn rest
  have hlen := length_digits 4 n
  cases hds : digits 4 n with
  | nil => simp [hds] at hlen
  | cons c cs =>
    have hc : c.isDigit = true := isDigit_of_mem_digits (hds ▸ List.mem_cons_self)
    have hsign : c ≠ '-' ∧ c ≠ '+' := by
      constructor <;> rintro rfl <;> exact absurd hc (by decide)
    rw [hds] at hnumber
    unfold year?
    rw [List.cons_append, skipBlanks_cons (not_isBlank_of_isDigit hc)]
    split
    · rename_i heq
      exact absurd (List.cons.inj heq).1 hsign.1
    · rename_i heq
      exact absurd (List.cons.inj heq).1 hsign.2
    · rw [← List.cons_append, hnumber]
      rfl

/-- A year is read back in front of a hyphen. -/
theorem year?_yearText (y : Int) (rest : List Char) :
    year? (yearText y ++ '-' :: rest) = some (y, '-' :: rest) := by
  unfold yearText
  split
  · rw [year?_digits (by omega)]
    congr 2
    omega
  · have hnumber := number?_signedYear y.natAbs rest
    have hfirst := any_head?_signedYear y.natAbs ('-' :: rest)
    rw [signedYear] at hnumber hfirst
    -- The sign says which of the two integers with this size the year is.
    split
    all_goals
      unfold year?
      rw [List.cons_append, skipBlanks_cons (by decide)]
      simp only [hfirst, hnumber, if_true, Option.map_some]
      congr 2
      omega

/-! ## Fractions of a second -/

theorem fraction?_digits {n v : Nat} (hpos : 0 < n) (hn : n ≤ 9) (hv : v < 10 ^ n) :
    fraction? ('.' :: (digits n v ++ ['Z'])) = some (v * 10 ^ (9 - n), ['Z']) := by
  have hlen := length_digits n v
  have hrun : (digits n v ++ ['Z']).takeWhile Char.isDigit = digits n v := by
    rw [List.takeWhile_append_of_pos fun c hc => isDigit_of_mem_digits hc]
    simp
  have hnonempty : (digits n v).isEmpty = false := by
    simpa using List.ne_nil_of_length_pos (hlen.symm ▸ hpos)
  have hkept : (digits n v).take 9 = digits n v := List.take_of_length_le (hlen.symm ▸ hn)
  have hrest : (digits n v ++ ['Z']).drop n = ['Z'] := List.drop_left' hlen
  simp only [fraction?, hrun, hnonempty, hkept, Bool.false_eq_true, if_false, hrest,
    natOfDigits_digits, Nat.mod_eq_of_lt hv, hlen, Nat.pow_eq]

/-- The groups of digits that are left out are zeros. -/
theorem fraction?_fractionText {n : Nat} (h : n < 1000000000) :
    fraction? (fractionText n ++ ['Z']) = some (n, ['Z']) := by
  unfold fractionText
  split
  · rename_i hzero
    rw [hzero]
    rfl
  · split
    · rw [List.cons_append, fraction?_digits (by decide) (by decide) (by omega)]
      congr 2
      omega
    · split
      · rw [List.cons_append, fraction?_digits (by decide) (by decide) (by omega)]
        congr 2
        omega
      · rw [List.cons_append, fraction?_digits (by decide) (by decide) (by omega)]
        congr 2
        omega

/-! ## Instants -/

theorem of?_eq_some (d : Date) : Date.of? d.year d.month d.day = some d := by
  rw [Date.of?, dif_pos d.month_mem, dif_pos d.day_mem]

theorem atOffset?_zero (t : Instant) (h : isYear t.date.year = true) :
    atOffset? t.date t.minutes 0 t.second t.nanos = some t := by
  have hday : ¬ (t.minutes : Int) < 0 ∧ ¬ 1440 ≤ (t.minutes : Int) := by
    have := t.minutes_lt
    omega
  have hbounds : t.minutes < 1440 ∧ t.second ≤ 60 ∧ t.nanos < 1000000000 :=
    ⟨t.minutes_lt, t.second_le, t.nanos_lt⟩
  simp [atOffset?, hday.1, hday.2, hbounds, h]

/-- An instant is written as date, time and fraction, with the mark for UTC. -/
theorem toList_text (t : Instant) :
    t.text.toList = yearText t.date.year ++ '-' :: (digits 2 t.date.month ++ '-' ::
      (digits 2 t.date.day ++ 'T' :: (digits 2 (t.minutes / 60) ++ ':' ::
        (digits 2 (t.minutes % 60) ++ ':' :: (digits 2 t.second ++
          (fractionText t.nanos ++ ['Z'])))))) := by
  simp only [text, String.toList_ofList, List.append_assoc, List.cons_append]

theorem number?_twoDigits {v : Nat} (hv : v < 100) (rest : List Char) :
    number? 2 (digits 2 v ++ rest) = some (v, rest) := number?_digits (by decide) hv rest

theorem day_le (d : Date) : d.day ≤ 31 := by
  refine d.day_mem.2.trans ?_
  unfold daysInMonth
  split
  · split <;> decide
  all_goals decide

/-- An instant comes back from its written form. -/
theorem ofText?_text (t : Instant) (h : isYear t.date.year = true) : ofText? t.text = some t := by
  have hminutes := t.minutes_lt
  have hmonth : t.date.month < 100 := Nat.lt_of_le_of_lt t.date.month_mem.2 (by decide)
  have hday : t.date.day < 100 := Nat.lt_of_le_of_lt (day_le t.date) (by decide)
  have hsecond : t.second < 100 := Nat.lt_of_le_of_lt t.second_le (by decide)
  have hhyphen := expect?_cons (show isBlank '-' = false by decide)
  have hcolon := expect?_cons (show isBlank ':' = false by decide)
  have hoffset : offset? (skipBlanks ['Z']) = some (0, []) := by decide
  have hclock : t.minutes / 60 < 24 ∧ t.minutes % 60 < 60 := by omega
  have hsum : 60 * (t.minutes / 60) + t.minutes % 60 = t.minutes := by omega
  -- The parts are read one after the other, each from where the one before it ends.
  unfold ofText?
  rw [toList_text]
  refine Option.bind_eq_some_iff.mpr ⟨_, year?_yearText t.date.year _, ?_⟩
  refine Option.bind_eq_some_iff.mpr ⟨_, hhyphen _, ?_⟩
  refine Option.bind_eq_some_iff.mpr ⟨_, number?_twoDigits hmonth _, ?_⟩
  refine Option.bind_eq_some_iff.mpr ⟨_, hhyphen _, ?_⟩
  refine Option.bind_eq_some_iff.mpr ⟨_, number?_twoDigits hday _, ?_⟩
  refine Option.bind_eq_some_iff.mpr ⟨_, number?_twoDigits (by omega) _, ?_⟩
  refine Option.bind_eq_some_iff.mpr ⟨_, hcolon _, ?_⟩
  refine Option.bind_eq_some_iff.mpr ⟨_, number?_twoDigits (by omega) _, ?_⟩
  refine Option.bind_eq_some_iff.mpr ⟨_, hcolon _, ?_⟩
  refine Option.bind_eq_some_iff.mpr ⟨_, number?_twoDigits hsecond _, ?_⟩
  refine Option.bind_eq_some_iff.mpr ⟨_, fraction?_fractionText t.nanos_lt, ?_⟩
  refine Option.bind_eq_some_iff.mpr ⟨_, hoffset, ?_⟩
  refine Option.bind_eq_some_iff.mpr ⟨_, of?_eq_some t.date, ?_⟩
  have hvalid : ((skipBlanks []).isEmpty && isYear t.date.year && decide (t.minutes / 60 < 24) &&
      decide (t.minutes % 60 < 60)) = true := by
    rw [h, decide_eq_true hclock.1, decide_eq_true hclock.2]
    rfl
  refine (if_pos hvalid).trans ?_
  rw [hsum]
  exact atOffset?_zero t h

end DataSpec.Instant
