import DataSpec.Config.Generation
import DataSpec.Config.Value
import DataSpec.Toml.Printer

/-!
# Settings of the program

`Settings` are the settings of generation together with those of the stores and of the
output. They are read from what the sources of settings say (`Settings.read?`) : what these
leave out has the default, and what they say beyond the settings is ignored.
-/

set_option autoImplicit false

namespace DataSpec

/-- The settings of the program. -/
structure Settings where
  /-- What the identifiers of new resources begin with. -/
  base : String
  generation : GenerationConfig
  /-- Where documents go. -/
  directory : String
  format : OutputFormat
deriving DecidableEq

namespace Settings

open ConfigValue (orDefault)

/-- The settings that hold if nothing else is said. -/
def default : Settings where
  base := "https://ofn.gov.cz"
  generation := .default
  directory := "./artefacts"
  format := .pretty

/-! ## Reading -/

/-- The base in the settings of stores. -/
def base? (v : ConfigValue) : Option String :=
  match v.record? ["base_iri"] with
  | some [base] => orDefault default.base ConfigValue.text? base
  | _ => none

/-- The dialect in the settings of JSON schemas. -/
def dialect? (v : ConfigValue) : Option String :=
  match v.record? ["dialect"] with
  | some [dialect] => orDefault GenerationConfig.default.dialect ConfigValue.text? dialect
  | _ => none

/-- The settings of a group of classes. -/
def extraction? (v : ConfigValue) : Option XmlExtraction :=
  match v.record? ["extract_type", "extract_group"] with
  | some [extractType, extractGroup] => do
    let extractType ← orDefault false ConfigValue.flag? extractType
    let extractGroup ← orDefault false ConfigValue.flag? extractGroup
    return ⟨extractType, extractGroup⟩
  | _ => none

/-- The settings of XML schemas : those of root classes and those of all others. -/
def extractions? (v : ConfigValue) : Option (XmlExtraction × XmlExtraction) :=
  match v.record? ["root_class", "other_classes"] with
  | some [rootClass, otherClasses] => do
    let rootClass ← orDefault .default extraction? rootClass
    let otherClasses ← orDefault .default extraction? otherClasses
    return (rootClass, otherClasses)
  | _ => none

/-- The layout in the settings of CSV schemas. -/
def layout? (v : ConfigValue) : Option TableLayout :=
  match v.record? ["layout"] with
  | some [layout] => orDefault .single (ConfigValue.name? TableLayout.ofName?) layout
  | _ => none

/-- The languages in the settings of documentation. -/
def languages? (v : ConfigValue) : Option (List String) :=
  match v.record? ["languages"] with
  | some [languages] =>
    orDefault GenerationConfig.default.languages ConfigValue.texts? languages
  | _ => none

/-- The settings of generation. -/
def generation? (v : ConfigValue) : Option GenerationConfig :=
  match v.record? ["json_schema", "xml_schema", "csv_schema", "documentation"] with
  | some [json, xml, csv, documentation] => do
    let d := GenerationConfig.default
    let dialect ← orDefault d.dialect dialect? json
    let (rootClass, otherClasses) ←
      orDefault (d.rootClass, d.otherClasses) extractions? xml
    let layout ← orDefault d.layout layout? csv
    let languages ← orDefault d.languages languages? documentation
    return ⟨dialect, rootClass, otherClasses, layout, languages⟩
  | _ => none

/-- The directory and the format in the settings of the output. -/
def output? (v : ConfigValue) : Option (String × OutputFormat) :=
  match v.record? ["directory", "format"] with
  | some [directory, format] => do
    let directory ← orDefault default.directory ConfigValue.text? directory
    let format ← orDefault default.format (ConfigValue.name? OutputFormat.ofName?) format
    return (directory, format)
  | _ => none

/-- The settings that the sources of settings give. -/
def read? (v : ConfigValue) : Option Settings :=
  match v.record? ["store", "generation", "output"] with
  | some [store, generation, output] => do
    let base ← orDefault default.base base? store
    let generation ← orDefault default.generation generation? generation
    let (directory, format) ←
      orDefault (default.directory, default.format) output? output
    return { base, generation, directory, format }
  | _ => none

/-- The settings by their paths. -/
def paths : List (List String) :=
  [["store", "base_iri"],
    ["generation", "json_schema", "dialect"],
    ["generation", "xml_schema", "root_class", "extract_type"],
    ["generation", "xml_schema", "root_class", "extract_group"],
    ["generation", "xml_schema", "other_classes", "extract_type"],
    ["generation", "xml_schema", "other_classes", "extract_group"],
    ["generation", "csv_schema", "layout"],
    ["generation", "documentation", "languages"],
    ["output", "directory"],
    ["output", "format"]]

/-! ## Writing -/

/-- The settings of a group of classes. -/
def extractionValues (x : XmlExtraction) : List (String × Toml.Plain) :=
  [("extract_type", .flag x.extractType), ("extract_group", .flag x.extractGroup)]

/-- The settings as tables. -/
def tables (s : Settings) : List Toml.Section :=
  [⟨"store", [("base_iri", .text s.base)]⟩,
    ⟨"generation.json_schema", [("dialect", .text s.generation.dialect)]⟩,
    ⟨"generation.xml_schema.root_class", extractionValues s.generation.rootClass⟩,
    ⟨"generation.xml_schema.other_classes", extractionValues s.generation.otherClasses⟩,
    ⟨"generation.csv_schema", [("layout", .text s.generation.layout.name)]⟩,
    ⟨"generation.documentation", [("languages", .texts s.generation.languages)]⟩,
    ⟨"output", [("directory", .text s.directory), ("format", .text s.format.name)]⟩]

/-- The settings as a TOML text. -/
def render (s : Settings) : String := Toml.render s.tables

end Settings

end DataSpec
