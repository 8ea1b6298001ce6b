import DataSpec.Decimal.Shortest
import DataSpec.Json.Basic

/-!
# Numbers of a JSON text

A number that is no integer of 64 bits is read in two steps (`Json.decimal?`). Its digits
make a natural number of at most 64 bits, digits for which there is no room being dropped,
and that number is then multiplied or divided by powers of ten in double precision. Each
step rounds, so the result is not always the nearest number. `Json.decimalText` writes a
number as its shortest decimal, with an exponent if it is very large or very small.
-/

set_option autoImplicit false

namespace DataSpec.Json

/-! ## Reading -/

/-- The number with one more digit, if that has 64 bits. -/
def push? (n : Nat) (c : Char) : Option Nat :=
  let m := Decimal.natFrom n [c]
  if m < UInt64.size then some m else none

/-- The number with as many more digits as there is room for, how many these are, and how
many are left. -/
def pushAll (n : Nat) : List Char → Nat × Nat × Nat
  | [] => (n, 0, 0)
  | c :: rest =>
    match push? n c with
    | some m =>
      let (v, taken, left) := pushAll m rest
      (v, taken + 1, left)
    | none => (n, 0, rest.length + 1)

/-- The largest power of ten that is used as one factor. -/
def maxPower : Nat := 308

/-- A power of ten. -/
def powerOfTen (n : Nat) : Double := .ofDecimal false 1 n

/-- The number `d / 10 ^ n`, in steps of the largest power. What is left of a number of 64
bits after two such steps is zero. -/
def dividedByPower (negative : Bool) (d : Double) (n : Nat) : Double :=
  if n ≤ maxPower then d.div negative (powerOfTen n)
  else if n ≤ 2 * maxPower then
    (d.div negative (powerOfTen maxPower)).div negative (powerOfTen (n - maxPower))
  else .ofNat negative 0

/-- The number `n * 10 ^ e`, or its opposite; none if it is beyond the largest number. -/
def scaled? (negative : Bool) (n : Nat) (e : Int) : Option Double :=
  if n = 0 then some (.ofNat negative 0)
  else if e < 0 then some (dividedByPower negative (.ofNat negative n) (-e).toNat)
  else if maxPower < e then none
  else
    let d := (Double.ofNat negative n).mul negative (powerOfTen e.toNat)
    if d = .infinite negative then none else some d

/-- The number with the given digits before and after the point and a power of ten, or its
opposite; none if it is beyond the largest number. -/
def decimal? (negative : Bool) (whole fraction : List Char) (e : Int) : Option Double :=
  let (n, _, left) := pushAll 0 whole
  let (n, taken, _) := pushAll n fraction
  scaled? negative n ((left : Int) - taken + e)

/-! ## Writing -/

/-- A decimal with a digit before the point, and the power of ten that belongs to it. -/
def scientific (digits : String) (e : Int) : String :=
  match digits.toList with
  | [] => ""
  | [c] => String.ofList [c] ++ "e" ++ toString e
  | c :: rest => String.ofList (c :: '.' :: rest) ++ "e" ++ toString e

/-- The number `n * 10 ^ e`. Up to 16 digits stand before the point, and up to four zeros
after it. -/
def digitsText (n : Nat) (e : Int) : String :=
  let digits := toString n
  let size := digits.length + e
  if 0 ≤ e && size ≤ 16 then Double.positional n e ++ ".0"
  else if -5 < size && size ≤ 16 then Double.positional n e
  else scientific digits (size - 1)

/-- The written form of a number of double precision. -/
def decimalText : Double → String
  | .finite negative m q =>
    (if negative then "-" else "") ++
      if m = 0 then "0.0"
      else
        let (n, e) := Double.shortest m q
        digitsText n e
  | _ => "null"

end DataSpec.Json
