import DataSpec.Json.Token
import DataSpec.Text.Segments
import DataSpec.Toml.Basic

/-!
# Numbers of TOML

Between the digits of a number single underscores may stand. An integer has 64 bits with its
sign and may be written to the base 16, 8 or 2; a number with a point or an exponent has
double precision.
-/

set_option autoImplicit false

namespace DataSpec.Toml

/-- The digits of a group, if there is at least one between any two underscores. -/
def grouped? (isDigit : Char → Bool) (cs : List Char) : Option (List Char) :=
  let groups := Text.fields (· = '_') cs
  if groups.all fun g => !g.isEmpty && g.all isDigit then some groups.flatten else none

/-- The digits before the point of a number; a leading zero stands alone. -/
def whole? (cs : List Char) : Option (List Char) :=
  (grouped? Char.isDigit cs).filter Json.Token.isWhole

/-- An integer that has 64 bits with its sign. -/
def bounded? (n : Int) : Option Value :=
  if Int64.minValue.toInt ≤ n ∧ n ≤ Int64.maxValue.toInt then some (.integer n) else none

/-- The integer with the given digits to a base. -/
def based? (base : Nat) (cs : List Char) : Option Value :=
  let isDigit := fun c => (Json.Token.hexValue? c).any (· < base)
  (grouped? isDigit cs).bind fun ds =>
    let n := ds.foldl (fun (n : Nat) c => base * n + (Json.Token.hexValue? c).getD 0) 0
    bounded? n

/-- Characters of digits and the underscores between them. -/
def isDigitOrLine (c : Char) : Bool := c.isDigit || c = '_'

/-- The exponent of a number without its underscores; nothing if there is none. -/
def exponentText? : List Char → Option (List Char)
  | [] => some []
  | e :: rest =>
    let (sign, ds) :=
      match rest with
      | '-' :: ds => (['-'], ds)
      | '+' :: ds => (['+'], ds)
      | ds => ([], ds)
    if e = 'e' || e = 'E' then (grouped? Char.isDigit ds).map fun ds => e :: sign ++ ds
    else none

/-- The fraction and the exponent of a number without their underscores. -/
def fractionText? : List Char → Option (List Char)
  | '.' :: rest => do
    let ds ← grouped? Char.isDigit (rest.takeWhile isDigitOrLine)
    let e ← exponentText? (rest.dropWhile isDigitOrLine)
    return '.' :: ds ++ e
  | cs => exponentText? cs

/-- A number to the base ten. -/
def decimal? (negative : Bool) (cs : List Char) : Option Value := do
  let whole ← whole? (cs.takeWhile isDigitOrLine)
  match cs.dropWhile isDigitOrLine with
  | [] =>
    let n : Int := Decimal.natOfDigits whole
    bounded? (if negative then -n else n)
  | rest => do
    let fraction ← fractionText? rest
    let d ← Double.ofUnsigned? negative (whole ++ fraction)
    if d = .infinite false then none else some (.decimal d)

/-- A number without its sign. -/
def unsigned? (negative : Bool) : List Char → Option Value
  | ['i', 'n', 'f'] => some (.decimal (.infinite negative))
  | ['n', 'a', 'n'] => some (.decimal .nan)
  | cs => decimal? negative cs

/-- The number that a word is. -/
def number? : List Char → Option Value
  | '0' :: 'x' :: cs => based? 16 cs
  | '0' :: 'o' :: cs => based? 8 cs
  | '0' :: 'b' :: cs => based? 2 cs
  | '-' :: cs => unsigned? true cs
  | '+' :: cs => unsigned? false cs
  | cs => unsigned? false cs

end DataSpec.Toml
