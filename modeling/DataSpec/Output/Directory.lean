import DataSpec.Output.Basic

/-!
# Directories

A `FileTree` has files and directories by path, which is the list of the names that lead to
them. A way is how a path is spelled, from some directory. A `DirectoryOutput` writes
documents as files below one of its directories. It makes the directories that are missing,
and replaces files that are there.
-/

set_option autoImplicit false

namespace DataSpec

/-- Files and directories, by their paths without empty segments. -/
structure FileTree where
  files : SortedMap String String
  /-- All directories but the one that holds everything. -/
  directories : SortedSet String

namespace FileTree

/-- The tree without files. -/
def empty : FileTree := ⟨.empty, .empty⟩

/-- The names on a way, with those left out that lead nowhere. -/
def names (path : String) : List String := (Text.segments path).filter fun s => s ≠ "."

/-- The text of a path. -/
def key (names : List String) : String := Text.join "/" names

/-- The file at a path. -/
def file? (t : FileTree) (path : List String) : Option String := t.files.get? (key path)

/-- Whether there is a directory at a path. -/
def isDirectory (t : FileTree) (path : List String) : Bool :=
  path.isEmpty || t.directories.contains (key path)

/-- The beginnings of a path, the path among them and the empty path not. -/
def ancestors (path : List String) : List (List String) :=
  (List.range path.length).map fun n => path.take (n + 1)

/-- Make a directory with all that it is in, unless one of them is a file. -/
def makeDirectory? (t : FileTree) (path : List String) : Option FileTree :=
  if (ancestors path).any fun p => (t.file? p).isSome then none
  else
    let directories := (ancestors path).foldl (fun ds p => ds.add (key p)) t.directories
    some { t with directories }

/-- Whether a name can stand in a path. -/
def isName (name : String) : Bool := !name.toList.contains '\x00'

/-- Whether a name is short enough for a file or a directory. -/
def isShort (name : String) : Bool := decide (name.utf8ByteSize ≤ 255)

/-- Whether a path is short enough to be looked up, with the slash that it begins with. -/
def isReachable (path : List String) : Bool := decide ((key path).utf8ByteSize + 1 < 4096)

/-- Whether a path leads to a directory by the way it is spelled. -/
def endsAsDirectory (path : String) : Bool :=
  let last := (Text.fields (· = '/') path.toList).getLastD []
  last.isEmpty || last = ['.']

/-- Put a file at a path below a directory, with the directories that it needs. These are
made one by one, up to the first whose name is too long. -/
def write (t : FileTree) (root : List String) (path content : String) :
    Except ModelError Unit × FileTree :=
  let target := root ++ names path
  let parents := target.dropLast
  if !parents.all isName || !isReachable parents then (.error (.notStored path), t)
  else
    match t.makeDirectory? (parents.takeWhile isShort) with
    | none => (.error (.notStored path), t)
    | some t =>
      if endsAsDirectory path || t.isDirectory target || !target.all isName
          || !target.all isShort || !isReachable (root ++ [path]) then
        (.error (.notStored path), t)
      else (.ok (), { t with files := t.files.insert (key target) content })

/-! ## Ways -/

/-- The path that a way leads to from a directory, step by step; `..` leads up. -/
def follow (path : List String) : List String → List String
  | [] => path
  | ".." :: rest => follow path.dropLast rest
  | name :: rest => follow (path ++ [name]) rest

/-- The path that a way leads to if every step starts at a directory. -/
def follow? (t : FileTree) (path : List String) : List String → Option (List String)
  | [] => some path
  | name :: rest =>
    if t.isDirectory path then
      t.follow? (if name = ".." then path.dropLast else path ++ [name]) rest
    else none

/-- Where a way begins : at the root of everything if it is spelled so, otherwise at the
given directory. -/
def startOf (here : List String) (way : String) : List String :=
  if Text.startsWith way "/" then [] else here

/-- The directory that a way leads to. -/
def directory? (t : FileTree) (here : List String) (way : String) : Option (List String) :=
  (t.follow? (startOf here way) (names way)).filter t.isDirectory

/-- The content of the file that a way leads to. -/
def read? (t : FileTree) (here : List String) (way : String) : Option String :=
  if endsAsDirectory way then none
  else (t.follow? (startOf here way) (names way)).bind t.file?

/-- The rest of a path that begins with another. -/
def after? : List String → List String → Option (List String)
  | [], path => some path
  | a :: as, b :: bs => if a = b then after? as bs else none
  | _ :: _, [] => none

/-- All files below a directory, with their paths from there, in the order of the names. -/
def filesBelow (t : FileTree) (path : List String) : List (List String × String) :=
  (t.files.toList.filterMap fun f =>
    (after? path (Text.segments f.1)).map fun rest => (rest, f.2)).mergeSort
      fun a b => !decide (b.1 < a.1)

end FileTree

/-- A directory as an output. -/
structure DirectoryOutput where
  tree : FileTree
  /-- The path of the directory. -/
  root : List String

namespace DirectoryOutput

/-- Write a document as a file. -/
def write (o : DirectoryOutput) (path content : String) :
    Except ModelError Unit × DirectoryOutput :=
  if !isOutputPath path then (.error (.invalidOutputPath path), o)
  else
    let (result, tree) := o.tree.write o.root path content
    (result, { o with tree })

instance : Output DirectoryOutput := ⟨write⟩

end DirectoryOutput

end DataSpec
