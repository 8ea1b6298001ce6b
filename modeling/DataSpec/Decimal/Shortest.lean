import DataSpec.Decimal.Double

/-!
# The shortest decimal

`Double.shortest` gives the decimal with the fewest digits among those that are nearer to a
number than to any other number of double precision, and of these the nearest. It has 17
digits at most. `Double.text` writes it without an exponent.
-/

set_option autoImplicit false

namespace DataSpec.Double

/-- The numbers between which every decimal is read as a given one, and that number, over a
common denominator. -/
structure Neighbourhood where
  low : Nat
  value : Nat
  high : Nat
  denominator : Nat
  /-- Whether the ends belong to it. -/
  closed : Bool

/-- The neighbourhood of `m * 2 ^ q`. Below a power of two the numbers lie twice as
dense. -/
def neighbourhood (m : Nat) (q : Int) : Neighbourhood :=
  let low := if m = minMantissa && minExponent < q then 4 * m - 1 else 4 * m - 2
  let up := (q - 2).toNat
  ⟨low <<< up, (4 * m) <<< up, (4 * m + 2) <<< up, 1 <<< (2 - q).toNat, m % 2 = 0⟩

namespace Neighbourhood

/-- Whether the decimal `c * 10 ^ e` lies in it. -/
def contains (b : Neighbourhood) (c : Nat) (e : Int) : Bool :=
  let x := c * Nat.pow 10 e.toNat * b.denominator
  let unit := Nat.pow 10 (-e).toNat
  if b.closed then b.low * unit ≤ x && x ≤ b.high * unit
  else b.low * unit < x && x < b.high * unit

/-- How many digits stand before the point of the number; if it is less than one, how many
zeros follow the point, as a negative number. -/
def magnitude (b : Neighbourhood) : Int :=
  ((toString (b.value * Nat.pow 10 400 / b.denominator)).length : Int) - 400

/-- The decimal with exponent `e` in it that is nearest to the number, and of two equally
near the larger one. -/
def nearest? (b : Neighbourhood) (e : Int) : Option Nat :=
  let unit := Nat.pow 10 e.toNat * b.denominator
  let value := b.value * Nat.pow 10 (-e).toNat
  let c := value / unit
  let below := b.contains c e
  let above := b.contains (c + 1) e
  if above && (!below || unit ≤ 2 * (value % unit)) then some (c + 1)
  else if below then some c
  else none

end Neighbourhood

/-- The number `n * 10 ^ e` without zeros at its end; `fuel` bounds how many there are. -/
def trimZeros : Nat → Nat → Int → Nat × Int
  | 0, n, e => (n, e)
  | fuel + 1, n, e => if n % 10 = 0 then trimZeros fuel (n / 10) (e + 1) else (n, e)

/-- The shortest decimal of `m * 2 ^ q`, as a natural number and a power of ten. -/
def shortest (m : Nat) (q : Int) : Nat × Int :=
  let b := neighbourhood m q
  let size := b.magnitude
  let found := (List.range 17).findSome? fun (n : Nat) =>
    let e := size - (n + 1)
    (b.nearest? e).map fun c => (c, e)
  match found with
  | some (c, e) => trimZeros 20 c e
  | none => (0, 0)

/-- Zeros. -/
def zeros (n : Nat) : String := String.ofList (List.replicate n '0')

/-- The number `n * 10 ^ e` without an exponent, and without a point if there is nothing to
write after it. -/
def positional (n : Nat) (e : Int) : String :=
  let digits := toString n
  if 0 ≤ e then digits ++ zeros e.toNat
  else
    let places := (-e).toNat
    let padded := zeros (places + 1 - digits.length) ++ digits
    let cut := padded.length - places
    String.ofList (padded.toList.take cut ++ '.' :: padded.toList.drop cut)

/-- The written form without a sign. -/
def magnitudeText (m : Nat) (q : Int) : String :=
  if m = 0 then "0"
  else
    let (n, e) := shortest m q
    positional n e

/-- The written form. -/
def text : Double → String
  | .finite negative m q => (if negative then "-" else "") ++ magnitudeText m q
  | .infinite negative => (if negative then "-" else "") ++ "inf"
  | .nan => "NaN"

end DataSpec.Double
