import DataSpec.Json.Number

/-!
# Tokens of a JSON text

`Json.Token.scan` reads a text one character at a time. What has been read of an
unfinished token is the state `Token.Scan`; `Token.Scan.step` says what a character does
to it and which tokens it finishes. A word is a maximal run of letters, digits, signs and
points, and `Token.ofWord` says which words are tokens.

Two tokens are well formed and yet stand for nothing that can be read : a text with half of
a surrogate pair (`unpaired`), and a number beyond the largest (`tooLarge`).
-/

set_option autoImplicit false

namespace DataSpec.Json

/-- The tokens of a JSON text. -/
inductive Token where
  | beginArray
  | endArray
  | beginObject
  | endObject
  | comma
  | colon
  | null
  | bool (b : Bool)
  | int (n : Int)
  | decimal (d : Double)
  | tooLarge
  | str (s : String)
  | unpaired
deriving DecidableEq

namespace Token

/-- Whether the run of digits may stand before the point of a number : it has a digit,
and a leading zero stands alone. -/
def isWhole : List Char → Bool
  | [] => false
  | ['0'] => true
  | '0' :: _ => false
  | _ => true

/-- The fraction and the exponent that follow the digits before the point. -/
def fraction? (cs : List Char) : Option (List Char × Int) :=
  match cs with
  | '.' :: rest =>
    let (ds, rest) := Decimal.spanDigits rest
    if ds.isEmpty then none else (Double.exponent? rest).map fun e => (ds, e)
  | cs => (Double.exponent? cs).map fun e => ([], e)

/-- The token of an unsigned number with the sign `negative`. An integer of at most 64
bits is read as such, but a negative zero is not. -/
def ofNumber (negative : Bool) (cs : List Char) : Option Token :=
  let (whole, rest) := Decimal.spanDigits cs
  let n : Int := Decimal.natOfDigits whole
  if !isWhole whole then none
  else if rest.isEmpty && negative && n ≠ 0 && Int64.minValue.toInt ≤ -n then some (.int (-n))
  else if rest.isEmpty && !negative && n < UInt64.size then some (.int n)
  else (fraction? rest).map fun (fraction, e) =>
    match decimal? negative whole fraction e with
    | some d => .decimal d
    | none => .tooLarge

/-- The token of a word. -/
def ofWord : List Char → Option Token
  | ['n', 'u', 'l', 'l'] => some .null
  | ['t', 'r', 'u', 'e'] => some (.bool true)
  | ['f', 'a', 'l', 's', 'e'] => some (.bool false)
  | '-' :: cs => ofNumber true cs
  | cs => ofNumber false cs

/-- What the code units of a text that were read so far say about surrogate pairs. -/
inductive Pairing where
  | whole
  /-- The last code unit is the first half of a pair. -/
  | half (high : Nat)
  /-- A half has no other half. -/
  | broken
deriving DecidableEq

/-- After a character that is not half of a pair. -/
def Pairing.next : Pairing → Pairing
  | .whole => .whole
  | _ => .broken

/-- What has been read of an unfinished token; lists hold the last character first. -/
inductive Scan where
  /-- Between tokens. -/
  | gap
  /-- In a word. -/
  | word (read : List Char)
  /-- In a text. -/
  | text (read : List Char) (p : Pairing)
  /-- After the backslash of an escape. -/
  | escape (read : List Char) (p : Pairing)
  /-- After `left + 1` fewer than four digits of a code unit. -/
  | unit (read : List Char) (p : Pairing) (value : Nat) (left : Nat)

/-- Blanks between tokens. -/
def isBlank (c : Char) : Bool := c = ' ' || c = '\n' || c = '\r' || c = '\t'

/-- Characters of words. -/
def isWordChar (c : Char) : Bool := c.isAlphanum || c = '-' || c = '+' || c = '.'

/-- The value of a digit to the base 16. -/
def hexValue? (c : Char) : Option Nat :=
  if c.isDigit then some (c.toNat - '0'.toNat)
  else if 'a' ≤ c ∧ c ≤ 'f' then some (c.toNat - 'a'.toNat + 10)
  else if 'A' ≤ c ∧ c ≤ 'F' then some (c.toNat - 'A'.toNat + 10)
  else none

/-- The character that a one-letter escape stands for. -/
def escaped? : Char → Option Char
  | '"' => some '"'
  | '\\' => some '\\'
  | '/' => some '/'
  | 'b' => some '\x08'
  | 'f' => some '\x0c'
  | 'n' => some '\n'
  | 'r' => some '\r'
  | 't' => some '\t'
  | _ => none

/-- The token that a mark or a quote between tokens begins, and the state after it. -/
def Scan.begin (c : Char) : Option (Scan × List Token) :=
  if isBlank c then some (.gap, [])
  else if c = '"' then some (.text [] .whole, [])
  else if c = '[' then some (.gap, [.beginArray])
  else if c = ']' then some (.gap, [.endArray])
  else if c = '\x7b' then some (.gap, [.beginObject])
  else if c = '\x7d' then some (.gap, [.endObject])
  else if c = ',' then some (.gap, [.comma])
  else if c = ':' then some (.gap, [.colon])
  else if isWordChar c then some (.word [c], [])
  else none

/-- The state after a character of a text. -/
def Scan.add (read : List Char) (p : Pairing) (c : Char) : Scan := .text (c :: read) p.next

/-- The state after the four digits of a code unit. A code unit that is half of a pair
needs its other half. -/
def Scan.endUnit (read : List Char) (p : Pairing) (value : Nat) : Scan :=
  if 0xDC00 ≤ value ∧ value < 0xE000 then
    match p with
    | .half h =>
      .text (Char.ofNat (0x10000 + (h - 0xD800) * 0x400 + (value - 0xDC00)) :: read) .whole
    | _ => .text read .broken
  else if 0xD800 ≤ value ∧ value < 0xDC00 then
    .text read (if p = .whole then .half value else .broken)
  else Scan.add read p (Char.ofNat value)

/-- The token of a text. -/
def ofText (read : List Char) (p : Pairing) : Token :=
  if p = .whole then .str (String.ofList read.reverse) else .unpaired

/-- What a character does to the state, and the tokens it finishes. -/
def Scan.step : Scan → Char → Option (Scan × List Token)
  | .gap, c => Scan.begin c
  | .word read, c =>
    if isWordChar c then some (.word (c :: read), [])
    else
      match ofWord read.reverse, Scan.begin c with
      | some t, some (s, ts) => some (s, t :: ts)
      | _, _ => none
  | .text read p, c =>
    if c = '"' then some (.gap, [ofText read p])
    else if c = '\\' then some (.escape read p, [])
    else if c.toNat < 0x20 then none
    else some (Scan.add read p c, [])
  | .escape read p, c =>
    if c = 'u' then some (.unit read p 0 3, [])
    else (escaped? c).map fun d => (Scan.add read p d, [])
  | .unit read p value left, c =>
    (hexValue? c).map fun d =>
      match left with
      | 0 => (Scan.endUnit read p (16 * value + d), [])
      | left + 1 => (.unit read p (16 * value + d) left, [])

/-- The tokens that the end of the text finishes. -/
def Scan.finish : Scan → Option (List Token)
  | .gap => some []
  | .word read => (ofWord read.reverse).map ([·])
  | _ => none

/-- The tokens of the rest of a text, read from a state. `done` holds the tokens before
it, last first. -/
def scanFrom (s : Scan) (done : List Token) : List Char → Option (List Token)
  | [] => s.finish.map fun ts => done.reverse ++ ts
  | c :: rest =>
    match s.step c with
    | none => none
    | some (s', ts) => scanFrom s' (ts.reverse ++ done) rest

/-- The tokens of a text. -/
def scan (text : String) : Option (List Token) := scanFrom .gap [] text.toList

end Token

end DataSpec.Json
