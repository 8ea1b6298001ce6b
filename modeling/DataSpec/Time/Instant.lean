import DataSpec.Decimal.Digits

/-!
# Instants

A `Date` is a day of the Gregorian calendar, extended to all years, and an `Instant` is a
moment of such a day in universal time, to the nanosecond. `Instant.text` is the written
form of RFC 3339 with the offset `Z`, with as many groups of three digits after the point
as are needed. `Instant.ofText?` reads it with any offset of less than a day; since such
an offset moves a moment by one day at most, `Date.next` and `Date.previous` are all the
calendar arithmetic there is.

Reading is lenient in one respect : blanks may stand before every number and around the
separators, and a number may have fewer digits than its place.
-/

set_option autoImplicit false

namespace DataSpec

/-- Whether a year has a 29th of February. -/
def isLeapYear (y : Int) : Bool := y % 4 == 0 && (y % 100 != 0 || y % 400 == 0)

/-- The number of days of a month. -/
def daysInMonth (y : Int) : Nat → Nat
  | 2 => if isLeapYear y then 29 else 28
  | 4 | 6 | 9 | 11 => 30
  | _ => 31

theorem daysInMonth_pos (y : Int) (m : Nat) : 1 ≤ daysInMonth y m := by
  unfold daysInMonth
  split <;> (try split) <;> omega

/-- A day of the calendar. -/
structure Date where
  year : Int
  month : Nat
  day : Nat
  month_mem : 1 ≤ month ∧ month ≤ 12
  day_mem : 1 ≤ day ∧ day ≤ daysInMonth year month
deriving DecidableEq

namespace Date

/-- The day with a year, a month and a day of the month. -/
def of? (year : Int) (month day : Nat) : Option Date :=
  if hm : 1 ≤ month ∧ month ≤ 12 then
    if hd : 1 ≤ day ∧ day ≤ daysInMonth year month then some ⟨year, month, day, hm, hd⟩
    else none
  else none

/-- The day after. -/
def next (d : Date) : Date :=
  if h : d.day < daysInMonth d.year d.month then
    ⟨d.year, d.month, d.day + 1, d.month_mem, by omega⟩
  else if hm : d.month < 12 then
    ⟨d.year, d.month + 1, 1, by omega, Nat.le_refl 1, daysInMonth_pos _ _⟩
  else ⟨d.year + 1, 1, 1, by omega, Nat.le_refl 1, daysInMonth_pos _ _⟩

/-- The day before. -/
def previous (d : Date) : Date :=
  if h : 1 < d.day then
    ⟨d.year, d.month, d.day - 1, d.month_mem, by have := d.day_mem; omega⟩
  else if hm : 1 < d.month then
    ⟨d.year, d.month - 1, daysInMonth d.year (d.month - 1), by have := d.month_mem; omega,
      daysInMonth_pos _ _, Nat.le_refl _⟩
  else ⟨d.year - 1, 12, 31, by omega, by decide, by simp [daysInMonth]⟩

end Date

/-- A moment in universal time : a day, the minute of the day, the second of the minute,
and the nanosecond of the second. A leap second is second 60. -/
structure Instant where
  date : Date
  minutes : Nat
  second : Nat
  nanos : Nat
  minutes_lt : minutes < 1440
  second_le : second ≤ 60
  nanos_lt : nanos < 1000000000
deriving DecidableEq

namespace Instant

/-- The first moment of the day from which other systems count. -/
def epoch : Instant where
  date := ⟨1970, 1, 1, by decide, by decide⟩
  minutes := 0
  second := 0
  nanos := 0
  minutes_lt := by decide
  second_le := by decide
  nanos_lt := by decide

/-! ## The written form -/

/-- The last `n` digits of a number. -/
def digits : Nat → Nat → List Char
  | 0, _ => []
  | n + 1, v => digits n (v / 10) ++ [Char.ofNat ('0'.toNat + v % 10)]

/-- A year has four digits, or a sign and at least four. -/
def yearText (y : Int) : List Char :=
  if 0 ≤ y ∧ y ≤ 9999 then digits 4 y.toNat
  else
    let n := y.natAbs
    (if y < 0 then '-' else '+') :: (if n ≤ 9999 then digits 4 n else (toString n).toList)

/-- Nanoseconds in groups of three digits, as few as lose nothing. -/
def fractionText (n : Nat) : List Char :=
  if n = 0 then []
  else if n % 1000000 = 0 then '.' :: digits 3 (n / 1000000)
  else if n % 1000 = 0 then '.' :: digits 6 (n / 1000)
  else '.' :: digits 9 n

/-- The written form. -/
def text (t : Instant) : String :=
  String.ofList (yearText t.date.year ++ '-' :: digits 2 t.date.month ++ '-'
    :: digits 2 t.date.day ++ 'T' :: digits 2 (t.minutes / 60) ++ ':'
    :: digits 2 (t.minutes % 60) ++ ':' :: digits 2 t.second ++ fractionText t.nanos ++ ['Z'])

/-! ## Reading -/

/-- Blanks of all scripts. -/
def isBlank (c : Char) : Bool :=
  let n := c.toNat
  (9 ≤ n && n ≤ 13) || n == 0x20 || n == 0x85 || n == 0xA0 || n == 0x1680
    || (0x2000 ≤ n && n ≤ 0x200A) || n == 0x2028 || n == 0x2029 || n == 0x202F || n == 0x205F
    || n == 0x3000

/-- The text behind leading blanks. -/
def skipBlanks (cs : List Char) : List Char := cs.dropWhile isBlank

/-- A number of at most `width` digits, and what follows it. -/
def number? (width : Nat) (cs : List Char) : Option (Nat × List Char) :=
  let cs := skipBlanks cs
  let ds := (cs.take width).takeWhile Char.isDigit
  if ds.isEmpty then none else some (Decimal.natOfDigits ds, cs.drop ds.length)

/-- What follows a character that has to be there. -/
def expect? (c : Char) : List Char → Option (List Char)
  | d :: rest => if c = d then some rest else none
  | [] => none

/-- A year, and what follows it. -/
def year? (cs : List Char) : Option (Int × List Char) :=
  match skipBlanks cs with
  | '-' :: rest => if rest.head?.any Char.isDigit then
      (number? rest.length rest).map fun (n, rest) => (-(n : Int), rest) else none
  | '+' :: rest => if rest.head?.any Char.isDigit then
      (number? rest.length rest).map fun (n, rest) => ((n : Int), rest) else none
  | cs => (number? 4 cs).map fun (n, rest) => ((n : Int), rest)

/-- Nanoseconds after a point, if there is one, and what follows them. Digits beyond the
ninth are dropped. -/
def fraction? : List Char → Option (Nat × List Char)
  | '.' :: rest =>
    let ds := rest.takeWhile Char.isDigit
    if ds.isEmpty then none
    else
      let kept := ds.take 9
      some (Decimal.natOfDigits kept * Nat.pow 10 (9 - kept.length), rest.drop ds.length)
  | cs => some (0, cs)

/-- Two digits, and what follows them. -/
def twoDigits? : List Char → Option (Nat × List Char)
  | a :: b :: rest => if a.isDigit && b.isDigit then some (Decimal.natOfDigits [a, b], rest) else none
  | _ => none

/-- Minutes of an offset after its sign. -/
def offsetMinutes? (cs : List Char) : Option (Nat × List Char) :=
  (twoDigits? cs).bind fun (h, rest) =>
    (twoDigits? (rest.dropWhile fun c => c = ':' || isBlank c)).bind fun (m, rest) =>
      if m < 60 ∧ 60 * h + m < 1440 then some (60 * h + m, rest) else none

/-- An offset in minutes to the east, and what follows it. -/
def offset? : List Char → Option (Int × List Char)
  | [] => none
  | c :: rest =>
    if c = 'Z' || c = 'z' then some (0, rest)
    else if c = '+' then (offsetMinutes? rest).map fun (n, rest) => ((n : Int), rest)
    else if c = '-' || c = '\u2212' then
      (offsetMinutes? rest).map fun (n, rest) => (-(n : Int), rest)
    else
      match c.toLower, rest.map Char.toLower with
      | 'u', 't' :: 'c' :: _ => some (0, rest.drop 2)
      | _, _ => none

/-- The years that have dates. -/
def isYear (y : Int) : Bool := decide (-262143 ≤ y) && decide (y ≤ 262142)

/-- The moment at a minute of a day, counted at an offset. -/
def atOffset? (date : Date) (minutes : Nat) (offset : Int) (second nanos : Nat) :
    Option Instant :=
  let m := (minutes : Int) - offset
  let (date, m) :=
    if m < 0 then (date.previous, m + 1440)
    else if 1440 ≤ m then (date.next, m - 1440)
    else (date, m)
  if h : m.toNat < 1440 ∧ second ≤ 60 ∧ nanos < 1000000000 then
    if isYear date.year then some ⟨date, m.toNat, second, nanos, h.1, h.2.1, h.2.2⟩ else none
  else none

/-- The instant with a written form. -/
def ofText? (s : String) : Option Instant := do
  let (year, cs) ← year? s.toList
  let cs ← expect? '-' (skipBlanks cs)
  let (month, cs) ← number? 2 cs
  let cs ← expect? '-' (skipBlanks cs)
  let (day, cs) ← number? 2 cs
  let cs ← match cs with
    | c :: rest => if c = 'T' || c = 't' || c = ' ' then some rest else none
    | [] => none
  let (hour, cs) ← number? 2 cs
  let cs ← expect? ':' (skipBlanks cs)
  let (minute, cs) ← number? 2 cs
  let cs ← expect? ':' (skipBlanks cs)
  let (second, cs) ← number? 2 cs
  let (nanos, cs) ← fraction? cs
  let (offset, cs) ← offset? (skipBlanks cs)
  let date ← Date.of? year month day
  if (skipBlanks cs).isEmpty && isYear year && hour < 24 && minute < 60 then
    atOffset? date (60 * hour + minute) offset second nanos
  else none

end Instant

end DataSpec
