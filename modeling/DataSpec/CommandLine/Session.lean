import DataSpec.CommandLine.Arguments
import DataSpec.Config.Sources
import DataSpec.Generation.Run
import DataSpec.Store.Federation

/-!
# Sessions

`Session.run` is a run of the program : it gathers the settings, loads the stores and the
specifications, and generates documents, or it prints the settings. It ends at the first
thing that fails; what was printed and written until then stays.
-/

set_option autoImplicit false

namespace DataSpec

/-- Why a run fails. -/
inductive SessionError where
  | badSettings
  | noStores (way : String)
  | badStore (way : String) (e : StoreError)
  | noSpecifications (way : String)
  | badSpecifications
  | notGenerated (iri : Iri) (e : ModelError)

namespace SessionError

/-- The text of a reason. -/
def message : SessionError → String
  | badSettings => "failed to load configuration"
  | noStores way => "store directory " ++ way ++ " does not exist"
  | badStore way e => "failed to load store " ++ way ++ ": " ++ e.message
  | noSpecifications way => "failed to read " ++ way
  | badSpecifications => "the specifications cannot be understood"
  | notGenerated iri e => "failed to generate " ++ iri ++ ": " ++ e.message

end SessionError

/-- What a run leaves. -/
structure Outcome where
  /-- The lines that were printed. -/
  printed : String
  tree : FileTree
  error : Option SessionError

namespace Session

/-! ## Stores and specifications -/

/-- The way to a file below a directory. -/
def wayBelow (way : String) (path : List String) : String :=
  (if way.toList.getLast? = some '/' then way else way ++ "/") ++ Text.join "/" path

/-- Whether a file is that of a store. -/
def isStoreFile (path : List String) : Bool :=
  (path.getLast?.bind Sources.extension?) = some "json"

/-- The store in a file. -/
def loadStore (base way content : String) : Except SessionError Store :=
  match ({ Store.new base with location := some way }).load (some content) with
  | .ok s => .ok s
  | .error e => .error (.badStore way e)

/-- Add the stores in files to a federation. -/
def addStores (base way : String) (f : Federation) :
    List (List String × String) → Except SessionError Federation
  | [] => .ok f
  | (path, content) :: rest =>
    if isStoreFile path then
      let place := wayBelow way path
      match loadStore base place content with
      | .error e => .error e
      | .ok s =>
        match f.addStore place s with
        | .error e => .error (.badStore place e)
        | .ok (_, f) => addStores base way f rest
    else addStores base way f rest

/-- The stores in a directory, by the names of their files. -/
def loadStores (s : Surroundings) (base way : String) : Except SessionError Federation :=
  match s.tree.directory? s.here way with
  | none => .error (.noStores way)
  | some path => addStores base way .empty (s.tree.filesBelow path)

/-- The specifications in a file. -/
def loadSpecifications (s : Surroundings) (way baseUrl : String) :
    Except SessionError (List DataSpecification) :=
  match s.read? way with
  | none => .error (.noSpecifications way)
  | some content =>
    match (Json.parse? content).bind (Json.list? DataSpecification.ofJson?) with
    | none => .error .badSpecifications
    | some l => .ok (l.map fun d => d.withDefaults baseUrl)

/-! ## Generation -/

/-- What is printed about a specification. -/
def reportLine (iri : Iri) (artefacts : List Iri) : String :=
  iri ++ ": " ++ toString artefacts.length ++ " artefacts\n"

/-- Generate specifications in order, with what is printed about them. -/
def generateAll (g : Generator DirectoryOutput) (printed : String) :
    DirectoryOutput → List Iri → String × DirectoryOutput × Option SessionError
  | o, [] => (printed, o, none)
  | o, iri :: rest =>
    match g.runSpecification o iri with
    | (.error e, o) => (printed, o, some (.notGenerated iri e))
    | (.ok artefacts, o) => generateAll g (printed ++ reportLine iri artefacts) o rest

/-- Where documents go : the way that is printed. -/
def outputWay (s : Surroundings) (settings : Settings) (asked : Option String) : String :=
  match asked with
  | some way => way
  | none =>
    if Text.startsWith settings.directory "/" then settings.directory
    else s.directory ++ "/" ++ settings.directory

/-- Generate documents. -/
def generate (s : Surroundings) (settings : Settings) (o : Arguments.GenerateOptions) :
    Outcome :=
  let loaded : Except SessionError (Federation × List DataSpecification) := do
    let stores ← loadStores s settings.base o.stores
    let specifications ← loadSpecifications s o.specifications o.baseUrl
    return (stores, specifications)
  match loaded with
  | .error e => ⟨"", s.tree, some e⟩
  | .ok (stores, specifications) =>
    let targets := o.only.elim (specifications.map DataSpecification.iri) ([·])
    let g : Generator DirectoryOutput := {
      resources := stores.resources
      specifications := .ofList specifications
      config := settings.generation
      format := if o.compact then .compact else settings.format
      cancelled := fun _ => false }
    let way := outputWay s settings o.output
    let root := FileTree.follow (FileTree.startOf s.here way) (FileTree.names way)
    match generateAll g "" ⟨s.tree, root⟩ targets with
    | (printed, out, some e) => ⟨printed, out.tree, some e⟩
    | (printed, out, none) => ⟨printed ++ "Output written to " ++ way ++ "\n", out.tree, none⟩

/-- A run of the program. -/
def run (s : Surroundings) (i : Arguments.Invocation) : Outcome :=
  match Sources.settings? s i.settings with
  | none => ⟨"", s.tree, some .badSettings⟩
  | some settings =>
    match i.action with
    | .config => ⟨settings.render, s.tree, none⟩
    | .generate o => generate s settings o

end Session

end DataSpec
