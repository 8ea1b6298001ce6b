import DataSpec.Time.Instant
import DataSpec.Toml.Basic

/-!
# Dates and times of TOML

A moment is a date, a time of day, or a date with a time of day, to which an offset may be
added. `Toml.moment?` gives its usual written form : a capital T between date and time, at
most nine digits after the point and no zeros at their end.
-/

set_option autoImplicit false

namespace DataSpec.Toml

/-- Two digits for a number up to `max`, and what follows them. -/
def twoDigits? (max : Nat) (cs : List Char) : Option (Nat × List Char) :=
  (Instant.twoDigits? cs).filter fun e => e.1 ≤ max

/-- The written form of a number with two digits. -/
def two (n : Nat) : List Char := Instant.digits 2 n

/-- A date. -/
def date? (cs : List Char) : Option (List Char × List Char) := do
  let year := cs.take 4
  if year.length < 4 || !year.all Char.isDigit then none
  else
    let rest ← Instant.expect? '-' (cs.drop 4)
    let (month, rest) ← twoDigits? 12 rest
    let rest ← Instant.expect? '-' rest
    let (day, rest) ← twoDigits? 31 rest
    let _ ← Date.of? (Decimal.natOfDigits year) month day
    return (year ++ '-' :: two month ++ '-' :: two day, rest)

/-- A fraction of a second, or nothing. -/
def fraction? : List Char → Option (List Char × List Char)
  | '.' :: rest =>
    let (ds, rest) := Decimal.spanDigits rest
    let kept := ((ds.take 9).reverse.dropWhile (· = '0')).reverse
    if ds.isEmpty then none else some (if kept.isEmpty then [] else '.' :: kept, rest)
  | cs => some ([], cs)

/-- A time of day. -/
def time? (cs : List Char) : Option (List Char × List Char) := do
  let (hour, rest) ← twoDigits? 23 cs
  let rest ← Instant.expect? ':' rest
  let (minute, rest) ← twoDigits? 59 rest
  let rest ← Instant.expect? ':' rest
  let (second, rest) ← twoDigits? 60 rest
  let (fraction, rest) ← fraction? rest
  return (two hour ++ ':' :: two minute ++ ':' :: two second ++ fraction, rest)

/-- An offset after its sign. One of zero has no sign but plus. -/
def signedOffset? (sign : Char) (cs : List Char) : Option (List Char × List Char) := do
  let (hour, rest) ← twoDigits? 23 cs
  let rest ← Instant.expect? ':' rest
  let (minute, rest) ← twoDigits? 59 rest
  let sign := if hour = 0 && minute = 0 then '+' else sign
  return (sign :: two hour ++ ':' :: two minute, rest)

/-- An offset, or nothing. -/
def offset? : List Char → Option (List Char × List Char)
  | 'Z' :: rest | 'z' :: rest => some (['Z'], rest)
  | '+' :: rest => signedOffset? '+' rest
  | '-' :: rest => signedOffset? '-' rest
  | cs => some ([], cs)

/-- What may follow a date : the mark of a time, and a time with its offset. -/
def timeAfterDate? : List Char → Option (List Char × List Char)
  | c :: rest =>
    if c = 'T' || c = 't' || c = ' ' then do
      let (time, rest) ← time? rest
      let (offset, rest) ← offset? rest
      return ('T' :: time ++ offset, rest)
    else none
  | [] => none

/-- A moment. -/
def moment? (cs : List Char) : Option (String × List Char) :=
  match date? cs with
  | some (date, rest) =>
    match timeAfterDate? rest with
    | some (time, rest) => some (String.ofList (date ++ time), rest)
    | none => some (String.ofList date, rest)
  | none => (time? cs).map fun (time, rest) => (String.ofList time, rest)

end DataSpec.Toml
