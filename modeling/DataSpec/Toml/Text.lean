import DataSpec.Json.Token
import DataSpec.Toml.Basic

/-!
# Texts of TOML

A text stands between quotes, where a backslash begins an escape, or between apostrophes,
where it does not. With three of them at each end it may have several lines, and one or two
of them may stand in it; a line break at its start is dropped. There a backslash at the end
of a line takes away all blanks and line breaks that follow.
-/

set_option autoImplicit false

namespace DataSpec.Toml

/-! ## Escapes -/

/-- The number that hexadecimal digits stand for. -/
def hexNat? (ds : List Char) : Option Nat :=
  ds.foldlM (fun n c => (Json.Token.hexValue? c).map (16 * n + ·)) 0

/-- The character with a code of `width` digits, and what follows it. -/
def code? (width : Nat) (cs : List Char) : Option (Char × List Char) :=
  if cs.length < width then none
  else (hexNat? (cs.take width)).bind fun n =>
    if n.isValidChar then some (Char.ofNat n, cs.drop width) else none

/-- The character that is written after a backslash, and what follows it. -/
def escape? : Reader Char
  | 'u' :: rest => code? 4 rest
  | 'U' :: rest => code? 8 rest
  | '/' :: _ => none
  | c :: rest => (Json.Token.escaped? c).map fun d => (d, rest)
  | [] => none

/-! ## One line -/

/-- The text up to the next quote. -/
def basic : Nat → List Char → Reader String
  | 0, _, _ => none
  | fuel + 1, read, cs =>
    match cs with
    | '"' :: rest => some (String.ofList read.reverse, rest)
    | '\\' :: rest => (escape? rest).bind fun (c, rest) => basic fuel (c :: read) rest
    | c :: rest => if isLineChar c then basic fuel (c :: read) rest else none
    | [] => none

/-- The text up to the next apostrophe. -/
def literal (cs : List Char) : Option (String × List Char) :=
  let read := cs.takeWhile fun c => isLineChar c && c ≠ '\''
  match cs.drop read.length with
  | '\'' :: rest => some (String.ofList read, rest)
  | _ => none

/-! ## Several lines -/

/-- What quotes in a row mean : up to two belong to the text, and three end it, which may
follow two more. -/
def closing? (mark : Char) (cs : List Char) : Option (List Char × Bool × List Char) :=
  let n := (cs.takeWhile (· = mark)).length
  if n < 3 then some (List.replicate n mark, false, cs.drop n)
  else if n ≤ 5 then some (List.replicate (n - 3) mark, true, cs.drop n)
  else none

/-- The text behind a backslash at the end of a line, and behind all blanks and line breaks
that follow. -/
def joinLines? (cs : List Char) : Option (List Char) :=
  (newline? (skipBlanks cs)).map fun rest => skipBreaks rest.length rest
where
  /-- The text behind blanks and line breaks. -/
  skipBreaks : Nat → List Char → List Char
    | 0, cs => cs
    | fuel + 1, cs =>
      match newline? (skipBlanks cs) with
      | some rest => skipBreaks fuel rest
      | none => skipBlanks cs

/-- The text up to the next three marks, with escapes if the mark is a quote. -/
def multiline (mark : Char) : Nat → List Char → Reader String
  | 0, _, _ => none
  | fuel + 1, read, cs =>
    match newline? cs, cs with
    | some rest, _ => multiline mark fuel ('\n' :: read) rest
    | none, c :: rest =>
      if c = mark then
        (closing? mark cs).bind fun (marks, ended, rest) =>
          if ended then some (String.ofList (marks ++ read).reverse, rest)
          else multiline mark fuel (marks ++ read) rest
      else if c = '\\' && mark = '"' then
        match joinLines? rest with
        | some rest => multiline mark fuel read rest
        | none => (escape? rest).bind fun (c, rest) => multiline mark fuel (c :: read) rest
      else if isLineChar c then multiline mark fuel (c :: read) rest
      else none
    | none, [] => none

/-- The text of several lines behind the opening marks. -/
def lines? (mark : Char) (cs : List Char) : Option (String × List Char) :=
  multiline mark (cs.length + 1) [] ((newline? cs).getD cs)

/-! ## All texts -/

/-- A text of one line. -/
def lineText? : Reader String
  | '"' :: rest => basic (rest.length + 1) [] rest
  | '\'' :: rest => literal rest
  | _ => none

/-- A text. -/
def text? : Reader String
  | '"' :: '"' :: '"' :: rest => lines? '"' rest
  | '\'' :: '\'' :: '\'' :: rest => lines? '\'' rest
  | cs => lineText? cs

end DataSpec.Toml
