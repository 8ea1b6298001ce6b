import DataSpec.Toml.Basic

/-!
# Tables of TOML

A table is made by its head (`Table.header`), by the head of a table in it (`implied`), or by
the points in a key (`dotted`), and in a document this decides what may be added to it later.
`Table.assign?` gives a key its value, `Table.openTable?` and `Table.openItem?` are heads of
tables and of tables in a list. No key gets two values, and no table two heads.
-/

set_option autoImplicit false

namespace DataSpec.Toml

/-- What makes a table. -/
inductive Maker where
  | header
  | implied
  | dotted
deriving DecidableEq

mutual

/-- What a key stands for in a document that is being read. -/
inductive Node where
  | value (v : Value)
  | table (t : Table)
  /-- Tables in a list, the last first. -/
  | tables (last : Table) (before : List Table)

/-- A table in a document that is being read. -/
inductive Table where
  | mk (maker : Maker) (members : List (String × Node))

end

namespace Table

/-- What made the table. -/
def maker : Table → Maker
  | mk maker _ => maker

/-- The keys in order. -/
def members : Table → List (String × Node)
  | mk _ members => members

/-- What a key stands for. -/
def get? (t : Table) (key : String) : Option Node :=
  (t.members.find? fun m => m.1 = key).map Prod.snd

/-- Let a key stand for something. -/
def set (t : Table) (key : String) (n : Node) : Table :=
  if (t.get? key).isSome then
    mk t.maker (t.members.map fun m => if m.1 = key then (key, n) else m)
  else mk t.maker (t.members ++ [(key, n)])

/-- Change the table at a path. Tables that are missing are made by `maker`; points in a key
do not lead into a table that has a head. -/
def alter? (maker : Maker) (f : Table → Option Table) : List String → Table → Option Table
  | [], t => f t
  | key :: path, t =>
    match t.get? key with
    | none => (alter? maker f path (mk maker [])).map fun u => t.set key (.table u)
    | some (.table u) =>
      if maker = .dotted && u.maker = .header then none
      else (alter? maker f path u).map fun u => t.set key (.table u)
    | some (.tables u before) =>
      (alter? maker f path u).map fun u => t.set key (.tables u before)
    | some (.value _) => none

/-- Give a key of a table its value. It has to be a table made by points in a key if there
are such points, and must not be one otherwise. -/
def assignHere? (dotted : Bool) (key : String) (v : Value) (t : Table) : Option Table :=
  if decide (t.maker = .dotted) ≠ dotted || (t.get? key).isSome then none
  else some (t.set key (.value v))

/-- Give the key at a path its value. -/
def assign? (path : List String) (v : Value) (t : Table) : Option Table :=
  match path.getLast? with
  | none => none
  | some key =>
    let before := path.dropLast
    t.alter? .dotted (assignHere? (!before.isEmpty) key v) before

/-- The head of a table. -/
def openHere? (key : String) (t : Table) : Option Table :=
  match t.get? key with
  | none => some (t.set key (.table (mk .header [])))
  | some (.table u) =>
    if u.maker = .implied then some (t.set key (.table (mk .header u.members))) else none
  | some _ => none

/-- The head of a table in a list. -/
def openItemHere? (key : String) (t : Table) : Option Table :=
  match t.get? key with
  | none => some (t.set key (.tables (mk .header []) []))
  | some (.tables u before) => some (t.set key (.tables (mk .header []) (u :: before)))
  | some _ => none

/-- The head of the table at a path. -/
def openTable? (path : List String) (t : Table) : Option Table :=
  path.getLast?.bind fun key => t.alter? .implied (openHere? key) path.dropLast

/-- The head of a table in the list at a path. -/
def openItem? (path : List String) (t : Table) : Option Table :=
  path.getLast?.bind fun key => t.alter? .implied (openItemHere? key) path.dropLast

end Table

mutual

/-- The value that a key has in the end. -/
def Node.toValue : Node → Value
  | .value v => v
  | .table t => .table t.toMembers
  | .tables last before => .list (tablesToValues [.table last.toMembers] before)

/-- The keys of a table with the values that they have in the end. -/
def Table.toMembers : Table → List (String × Value)
  | .mk _ members => membersToValues members

/-- The values of keys. -/
def membersToValues : List (String × Node) → List (String × Value)
  | [] => []
  | (key, n) :: rest => (key, n.toValue) :: membersToValues rest

/-- The values of tables in a list, the last first, before those that are done. -/
def tablesToValues (done : List Value) : List Table → List Value
  | [] => done
  | t :: rest => tablesToValues (.table t.toMembers :: done) rest

end

end DataSpec.Toml
