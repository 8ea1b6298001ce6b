import DataSpec.CommandLine.Session

/-!
# The program

`main` hands a run what it needs to know of the machine, and brings about what the run
decides. All decisions are those of `DataSpec.Session.run`.
-/

set_option autoImplicit false

namespace DataSpec.Program

/-- What is printed when the arguments have no meaning, and as help. -/
def help : String :=
  "Usage: specforge [--config FILE] config\n" ++
  "       specforge [--config FILE] generate --stores DIRECTORY --specifications FILE\n" ++
  "                 [--output DIRECTORY] [--only IRI] [--base-url URL] [--compact]\n"

/-- The path that a way leads to. -/
def place (directory way : String) : List String :=
  FileTree.follow (FileTree.startOf (FileTree.names directory) way) (FileTree.names way)

/-- Add a file of the machine to a tree, if it can be read. -/
def addFile (directory : String) (t : FileTree) (way : String) : IO FileTree := do
  try
    let content ← IO.FS.readFile way
    return (t.write [] (FileTree.key (place directory way)) content).2
  catch _ => return t

/-- Add a directory of the machine to a tree. -/
def addDirectory (directory : String) (t : FileTree) (way : String) : IO FileTree := do
  let path := (← IO.currentDir) / way
  if !(← path.isDir) then return t
  let mut t := (t.makeDirectory? (place directory way)).getD t
  for p in ← path.walkDir do
    if ← p.isDir then t := (t.makeDirectory? (place directory p.toString)).getD t
    else t ← addFile directory t p.toString
  return t

/-- The part of the machine that a run depends on. -/
def surroundings (i : Arguments.Invocation) : IO Surroundings := do
  let directory := (← IO.currentDir).toString
  let mut environment : List (String × String) := []
  for name in Sources.variableNames do
    match ← IO.getEnv name with
    | some value => environment := environment ++ [(name, value)]
    | none => pure ()
  let tree := (FileTree.empty.makeDirectory? (FileTree.names directory)).getD .empty
  let mut s : Surroundings := ⟨directory, environment, tree⟩
  for way in Sources.places s i.settings do
    s := { s with tree := ← addFile directory s.tree way }
  match i.action with
  | .config => return s
  | .generate o =>
    let tree ← addFile directory s.tree o.specifications
    return { s with tree := ← addDirectory directory tree o.stores }

/-- Write the files of a tree that are not in another one. -/
def writeChanges (old new : FileTree) : IO Unit := do
  for (path, content) in new.files.toList do
    if old.files.get? path ≠ some content then
      IO.FS.createDirAll ("/" ++ FileTree.key (Text.segments path).dropLast)
      IO.FS.writeFile ("/" ++ path) content

/-- A run of the program, with its exit code. -/
def run (args : List String) : IO UInt32 := do
  match Arguments.parse args with
  | .error .help =>
    IO.print help
    return 0
  | .error .usage =>
    IO.eprint help
    return 2
  | .ok i =>
    let s ← surroundings i
    let out := Session.run s i
    writeChanges s.tree out.tree
    IO.print out.printed
    match out.error with
    | none => return 0
    | some e =>
      IO.eprintln ("Error: " ++ e.message)
      return 1

end DataSpec.Program

/-- The program. -/
def main (args : List String) : IO UInt32 := DataSpec.Program.run args
