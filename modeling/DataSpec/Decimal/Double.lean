import DataSpec.Decimal.Digits

/-!
# Numbers of double precision

A `Double` is a number with at most 53 binary digits, an infinity, or not a number at all.
`Double.ofRatio` is the one place where numbers are rounded : to the nearest number that
there is, and halfway between two of them to the one with an even mantissa. The operations
are exact but for that rounding.
-/

set_option autoImplicit false

namespace DataSpec

/-- A number of double precision. -/
inductive Double where
  /-- The number `mantissa * 2 ^ exponent`. -/
  | finite (negative : Bool) (mantissa : Nat) (exponent : Int)
  | infinite (negative : Bool)
  | nan
deriving DecidableEq, Inhabited

namespace Double

/-- The smallest exponent. -/
def minExponent : Int := -1074

/-- The largest exponent. -/
def maxExponent : Int := 971

/-- The smallest mantissa that has 53 binary digits. -/
def minMantissa : Nat := 1 <<< 52

/-- The ratio `n / d` as two natural numbers after division by `2 ^ q`. -/
def scale (n d : Nat) (q : Int) : Nat × Nat :=
  if 0 ≤ q then (n, d <<< q.toNat) else (n <<< (-q).toNat, d)

/-- The natural number nearest to `n / d`, and of two equally near the even one. -/
def divNearest (n d : Nat) : Nat :=
  let quotient := n / d
  let twice := 2 * (n % d)
  if d < twice || (d = twice && quotient % 2 = 1) then quotient + 1 else quotient

/-- The exponent with which `n / d` has a mantissa of 53 binary digits, or the smallest
exponent. -/
def exponentOf (n d : Nat) : Int :=
  let q := (n.log2 : Int) - d.log2 - 52
  let (a, b) := scale n d q
  max minExponent (if a / b < minMantissa then q - 1 else q)

/-- The number nearest to `n / d`, or to its opposite. -/
def ofRatio (negative : Bool) (n d : Nat) : Double :=
  if n = 0 then .finite negative 0 minExponent
  else
    let q := exponentOf n d
    let (a, b) := scale n d q
    let m := divNearest a b
    let (m, q) := if m = 2 * minMantissa then (minMantissa, q + 1) else (m, q)
    if maxExponent < q then .infinite negative else .finite negative m q

/-- A natural number, or its opposite. -/
def ofNat (negative : Bool) (n : Nat) : Double := ofRatio negative n 1

/-- The number `n * 10 ^ e`, or its opposite. What is far beyond the largest number or
below the smallest is not computed. -/
def ofDecimal (negative : Bool) (n : Nat) (e : Int) : Double :=
  let size := (n.log2 : Int) / 4 + e
  if n = 0 || e + n.log2 < -400 then .finite negative 0 minExponent
  else if 400 < size then .infinite negative
  else if 0 ≤ e then ofRatio negative (n * Nat.pow 10 e.toNat) 1
  else ofRatio negative n (Nat.pow 10 (-e).toNat)

/-- The absolute value as a ratio, nothing for what is not finite. -/
def ratio? : Double → Option (Nat × Nat)
  | .finite _ m q => some (if 0 ≤ q then (m <<< q.toNat, 1) else (m, 1 <<< (-q).toNat))
  | _ => none

/-- The number nearest to a product of absolute values, or to its opposite; what is not
finite has no product. -/
def mul (a : Double) (negative : Bool) (b : Double) : Double :=
  match a.ratio?, b.ratio? with
  | some (n, d), some (n', d') => ofRatio negative (n * n') (d * d')
  | _, _ => .nan

/-- The number nearest to a ratio of absolute values, or to its opposite; what is not finite
has no ratio. -/
def div (a : Double) (negative : Bool) (b : Double) : Double :=
  match a.ratio?, b.ratio? with
  | some (n, d), some (n', d') => ofRatio negative (n * d') (d * n')
  | _, _ => .nan

/-- Whether it is zero, with either sign. -/
def isZero : Double → Bool
  | .finite _ m _ => m = 0
  | _ => false

/-! ## Spelled numbers -/

/-- The exponent that is spelled after the digits of a number, zero for nothing. -/
def exponent? : List Char → Option Int
  | [] => some 0
  | e :: rest =>
    let (negative, ds) :=
      match rest with
      | '-' :: ds => (true, ds)
      | '+' :: ds => (false, ds)
      | ds => (false, ds)
    if (e = 'e' || e = 'E') && !ds.isEmpty && ds.all Char.isDigit then
      let n : Int := Decimal.natOfDigits ds
      some (if negative then -n else n)
    else none

/-- The number that is spelled without a sign : digits, among which a point may stand, and
an exponent. -/
def ofUnsigned? (negative : Bool) (cs : List Char) : Option Double :=
  let (whole, rest) := Decimal.spanDigits cs
  let (fraction, rest) :=
    match rest with
    | '.' :: rest => Decimal.spanDigits rest
    | rest => ([], rest)
  if whole.isEmpty && fraction.isEmpty then none
  else (exponent? rest).map fun e =>
    ofDecimal negative (Decimal.natOfDigits (whole ++ fraction)) (e - fraction.length)

/-- The number that a text spells. -/
def ofText? (s : String) : Option Double :=
  let (negative, cs) :=
    match s.toList with
    | '-' :: cs => (true, cs)
    | '+' :: cs => (false, cs)
    | cs => (false, cs)
  match String.ofList (cs.map Char.toLower) with
  | "inf" | "infinity" => some (.infinite negative)
  | "nan" => some .nan
  | _ => ofUnsigned? negative cs

end Double

end DataSpec
