import DataSpec.Config.Settings
import DataSpec.Json.Parser
import DataSpec.Output.Directory
import DataSpec.Text.LowerCase
import DataSpec.Toml.Parser

/-!
# Where settings come from

Settings are gathered from files and from the variables of the environment
(`Sources.settings?`). Each source is laid over the ones before it, so a later one wins
key by key. A file may be missing, unless it was asked for; one that is there and has the
extension of a format has to be readable.
-/

set_option autoImplicit false

namespace DataSpec

/-- What surrounds a run of the program. -/
structure Surroundings where
  /-- The working directory. -/
  directory : String
  /-- The variables of the environment. -/
  environment : List (String × String)
  tree : FileTree

namespace Surroundings

/-- The path of the working directory. -/
def here (s : Surroundings) : List String := FileTree.names s.directory

/-- The value of a variable. -/
def lookup? (s : Surroundings) (name : String) : Option String :=
  (s.environment.find? fun e => e.1 = name).map Prod.snd

/-- The content of a file. -/
def read? (s : Surroundings) (way : String) : Option String := s.tree.read? s.here way

end Surroundings

namespace Sources

/-! ## Files -/

/-- The part of a name after its last point, if something is before the point. -/
def extension? (name : String) : Option String :=
  let cs := name.toList.reverse
  let ending := cs.takeWhile (· ≠ '.')
  if ending.length + 1 < cs.length then some (String.ofList ending.reverse) else none

/-- The content of a file without the byte order mark with which it may begin. A TOML text
may then begin with another one. -/
def unmarked (content : String) : String := String.ofList (Toml.withoutMark content.toList)

/-- The entries of a TOML text. -/
def ofToml? (content : String) : Option (List (String × ConfigValue)) :=
  (Toml.parse? content).map ConfigValue.ofTomlMembers

/-- The entries of a JSON text, which has to be an object. -/
def ofJson? (content : String) : Option (List (String × ConfigValue)) :=
  match (Json.parseReadable? content).map Json.merged with
  | some (.obj members) => some (ConfigValue.ofJsonMembers members)
  | _ => none

/-- The entries of a file that is read by its extension. -/
def parseAs? (extension content : String) : Option (List (String × ConfigValue)) :=
  match extension with
  | "toml" => ofToml? (unmarked content)
  | "json" => ofJson? (unmarked content)
  | _ => none

/-- The extensions of files with settings. -/
def extensions : List String := ["toml", "json"]

/-- The way to a file whose name has one more extension; none if the way does not end with
a name. -/
def extended? (s : Surroundings) (way extension : String) : Option String :=
  let path := FileTree.startOf s.here way ++ FileTree.names way
  match path.getLast? with
  | none | some ".." => none
  | some name => some ("/" ++ FileTree.key (path.dropLast ++ [name ++ "." ++ extension]))

/-- The extension and the content of a file with settings, whose name may lack the
extension. -/
def find? (s : Surroundings) (way : String) : Option (String × String) :=
  match s.read? way with
  | some content =>
    (((FileTree.names way).getLast?.bind extension?).filter extensions.contains).map
      fun e => (e, content)
  | none => extensions.findSome? fun e =>
      ((extended? s way e).bind s.read?).map fun content => (e, content)

/-- The entries of a file that may be missing. -/
def file? (s : Surroundings) (way : String) : Option (List (String × ConfigValue)) :=
  match find? s way with
  | some (extension, content) => parseAs? extension content
  | none => some []

/-- The entries of a file that has to be there. -/
def requiredFile? (s : Surroundings) (way : String) : Option (List (String × ConfigValue)) :=
  (find? s way).bind fun (extension, content) => parseAs? extension content

/-- The files in which the settings of a file may be found. -/
def candidates (s : Surroundings) (way : String) : List String :=
  way :: extensions.filterMap (extended? s way)

/-- The files of the working directory, by increasing weight. -/
def localFiles : List String := ["specforge.toml", ".specforge.toml", "config/specforge.toml"]

/-- The directory with the settings of a person. -/
def personalDirectory? (s : Surroundings) : Option String :=
  match (s.lookup? "XDG_CONFIG_HOME").filter fun way => Text.startsWith way "/" with
  | some way => some way
  | none => ((s.lookup? "HOME").filter fun way => !way.isEmpty).map (· ++ "/.config")

/-- The file with the settings of a person. -/
def personalFile? (s : Surroundings) : Option String :=
  (personalDirectory? s).map (· ++ "/specforge/specforge.toml")

/-- All files in which settings may be found. -/
def places (s : Surroundings) (asked : Option String) : List String :=
  (localFiles ++ (personalFile? s).toList ++ asked.toList).flatMap (candidates s)

/-! ## Variables -/

/-- What the names of variables with settings begin with. -/
def start : String := "specforge__"

/-- A text with points in place of double underscores. -/
def points : List Char → List Char
  | '_' :: '_' :: rest => '.' :: points rest
  | c :: rest => c :: points rest
  | [] => []

/-- The key at the top that a variable is about. -/
def key? (name : String) : Option String :=
  (Text.after? (Text.lowerCase name) start).map fun rest => String.ofList (points rest.toList)

/-- The integer that a text spells, if it has at most 64 bits with its sign. -/
def integer? (s : String) : Option Int :=
  let (negative, digits) :=
    match s.toList with
    | '-' :: digits => (true, digits)
    | '+' :: digits => (false, digits)
    | digits => (false, digits)
  let n : Int := Decimal.natOfDigits digits
  let value := if negative then -n else n
  if digits.isEmpty || !digits.all Char.isDigit then none
  else if value < Int64.minValue.toInt || Int64.maxValue.toInt < value then none
  else some value

/-- The value of a variable : a truth value, a number or a text. -/
def valueOf (s : String) : ConfigValue :=
  match Text.lowerCase s with
  | "true" => .flag true
  | "false" => .flag false
  | _ =>
    match integer? s, Double.ofText? s with
    | some n, _ => .integer n
    | none, some d => .decimal d
    | none, none => .text s

/-- The variable that is about the setting with a path. -/
def variableName (path : List String) : String :=
  "SPECFORGE__" ++ Text.join "__" (path.map fun s => s.map Char.toUpper)

/-- The variables of the environment that a run depends on. -/
def variableNames : List String := ["HOME", "XDG_CONFIG_HOME"] ++ Settings.paths.map variableName

/-- The entries that variables stand for. -/
def variableEntries (s : Surroundings) : List (String × ConfigValue) :=
  s.environment.filterMap fun e => (key? e.1).map fun key => (key, valueOf e.2)

/-! ## All of them -/

/-- Whether there is a file or a directory. -/
def isThere (s : Surroundings) (way : String) : Bool :=
  (s.read? way).isSome || (s.tree.directory? s.here way).isSome

/-- The entries of all sources, by increasing weight. -/
def all? (s : Surroundings) (asked : Option String) :
    Option (List (List (String × ConfigValue))) := do
  let locals ← localFiles.mapM (file? s)
  let personal ← ((personalFile? s).filter (isThere s)).toList.mapM (file? s)
  let askedFor ← asked.toList.mapM (requiredFile? s)
  return locals ++ personal ++ askedFor ++ [variableEntries s]

/-- The settings of all sources. -/
def settings? (s : Surroundings) (asked : Option String) : Option Settings :=
  (all? s asked).bind fun sources =>
    Settings.read? (sources.foldl ConfigValue.putAll (.table []))

end Sources

end DataSpec
