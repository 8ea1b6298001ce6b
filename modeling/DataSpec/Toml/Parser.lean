import DataSpec.Toml.Moment
import DataSpec.Toml.Number
import DataSpec.Toml.Table
import DataSpec.Toml.Text

/-!
# Reading TOML

`Toml.parse?` reads a document. Each of its lines is empty, opens a table, or gives a value
to a key of the table that is open; only a list, and a text of several lines, may go on in
the next line.
-/

set_option autoImplicit false

namespace DataSpec.Toml

/-! ## Keys -/

/-- The largest number of keys in a path, and one more than that of lists and tables inside
one another. -/
def depthLimit : Nat := 79

/-- Characters of keys without quotes. -/
def isKeyChar (c : Char) : Bool := c.isAlphanum || c = '_' || c = '-'

/-- A single key. -/
def key? (cs : List Char) : Option (String × List Char) :=
  match cs with
  | '"' :: _ | '\'' :: _ => lineText? cs
  | _ =>
    let read := cs.takeWhile isKeyChar
    if read.isEmpty then none else some (String.ofList read, cs.drop read.length)

/-- At most `n` keys with points between them, with blanks around each. -/
def keys? : Nat → Reader (List String)
  | 0, _ => none
  | n + 1, cs => do
    let (key, rest) ← key? (skipBlanks cs)
    match skipBlanks rest with
    | '.' :: rest =>
      let (path, rest) ← keys? n rest
      return (key :: path, rest)
    | rest => return ([key], rest)

/-- The keys that lead to a value or to a table. -/
def path? (cs : List Char) : Option (List String × List Char) := keys? depthLimit cs

/-! ## Values -/

/-- Characters of numbers and of truth values. -/
def isWordChar (c : Char) : Bool := c.isAlphanum || c = '_' || c = '-' || c = '+' || c = '.'

/-- The value of a word. -/
def word? (cs : List Char) : Option (Value × List Char) :=
  let word := cs.takeWhile isWordChar
  let rest := cs.drop word.length
  match word with
  | ['t', 'r', 'u', 'e'] => some (.flag true, rest)
  | ['f', 'a', 'l', 's', 'e'] => some (.flag false, rest)
  | _ => (number? word).map fun v => (v, rest)

/-- A value that holds no others. -/
def scalar? (cs : List Char) : Option (Value × List Char) :=
  match cs with
  | '"' :: _ | '\'' :: _ => (text? cs).map fun (s, rest) => (.text s, rest)
  | _ =>
    match moment? cs with
    | some (written, rest) => some (.moment written, rest)
    | none => word? cs

/-- The rest of a list, its items being read by `item`; those before it are the last first.
A comma may stand behind the last item. -/
def items? (item : Reader Value) : Nat → List Value → Reader Value
  | 0, _, _ => none
  | fuel + 1, done, cs =>
    match skipLines cs.length cs with
    | ']' :: rest => some (.list done.reverse, rest)
    | cs => do
      let (v, rest) ← item cs
      match skipLines rest.length rest with
      | ',' :: rest => items? item fuel (v :: done) rest
      | ']' :: rest => return (.list (v :: done).reverse, rest)
      | _ => none

/-- A key with its value, read by `item`. -/
def assignment? (item : Reader Value) (cs : List Char) :
    Option ((List String × Value) × List Char) := do
  let (path, rest) ← path? cs
  match rest with
  | '=' :: rest =>
    let (v, rest) ← item (skipBlanks rest)
    return ((path, v), rest)
  | _ => none

/-- The rest of a table in braces behind its opening brace or a comma. -/
def entries? (item : Reader Value) : Nat → Table → Reader Value
  | 0, _, _ => none
  | fuel + 1, t, cs => do
    let ((path, v), rest) ← assignment? item cs
    let t ← t.assign? path v
    match skipBlanks rest with
    | ',' :: rest => entries? item fuel t rest
    | '\x7d' :: rest => return (.table t.toMembers, rest)
    | _ => none

/-- A table in braces behind its opening brace. -/
def braces? (item : Reader Value) (cs : List Char) : Option (Value × List Char) :=
  match skipBlanks cs with
  | '\x7d' :: rest => some (.table [], rest)
  | cs => entries? item (cs.length + 1) (.mk .header []) cs

/-- A value with at most `depth` lists and tables inside one another. -/
def value? : Nat → Reader Value
  | 0, cs => scalar? cs
  | depth + 1, cs =>
    match cs with
    | '[' :: rest => items? (value? depth) (rest.length + 1) [] rest
    | '\x7b' :: rest => braces? (value? depth) rest
    | cs => scalar? cs

/-! ## Documents -/

/-- What has been read of a document. -/
structure Document where
  root : Table
  /-- The path of the table that is open. -/
  current : List String

namespace Document

/-- Nothing has been read. -/
def start : Document := ⟨.mk .header [], []⟩

/-- The document with the head of a table, or of a table in a list. -/
def open? (d : Document) (isItem : Bool) (path : List String) : Option Document :=
  ((if isItem then d.root.openItem? path else d.root.openTable? path)).map fun root =>
    ⟨root, path⟩

/-- The document with a value for a key of the table that is open. -/
def assign? (d : Document) (path : List String) (v : Value) : Option Document :=
  (d.root.alter? .implied (Table.assign? path v) d.current).map fun root => { d with root }

/-- The document with a line that is not empty, and what follows it in the line. -/
def line? (d : Document) : Reader Document
  | '[' :: '[' :: rest => do
    let (path, rest) ← path? rest
    match rest with
    | ']' :: ']' :: rest => (d.open? true path).map fun d => (d, rest)
    | _ => none
  | '[' :: rest => do
    let (path, rest) ← path? rest
    match rest with
    | ']' :: rest => (d.open? false path).map fun d => (d, rest)
    | _ => none
  | cs => do
    let ((path, v), rest) ← assignment? (value? depthLimit) cs
    (d.assign? path v).map fun d => (d, rest)

/-- The document with all lines of a text; `fuel` is greater than its length. -/
def lines? : Nat → Document → List Char → Option Document
  | 0, _, _ => none
  | fuel + 1, d, cs =>
    match skipLines cs.length cs with
    | [] => some d
    | cs => do
      let (d, rest) ← d.line? cs
      let rest ← endLine? rest
      lines? fuel d rest

end Document

/-- The text without a byte order mark at its start. -/
def withoutMark : List Char → List Char
  | '\ufeff' :: rest => rest
  | cs => cs

/-- The keys of a document with their values. -/
def parse? (text : String) : Option (List (String × Value)) :=
  let cs := withoutMark text.toList
  (Document.start.lines? (cs.length + 1) cs).map fun d => d.root.toMembers

end DataSpec.Toml
