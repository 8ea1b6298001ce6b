import DataSpec.Json.Decode
import DataSpec.Json.Printer

/-!
# Generation settings

What the output formats leave open is decided by a `GenerationConfig`. An artefact may
carry a JSON object of its own that is laid over the written form of the settings
(`GenerationConfig.override?`) : it names the settings that it changes, and no others.
-/

set_option autoImplicit false

namespace DataSpec

/-- How JSON documents are laid out. -/
inductive OutputFormat where
  | pretty
  | compact
deriving DecidableEq

namespace OutputFormat

/-- The written form. -/
def name : OutputFormat → String
  | pretty => "pretty"
  | compact => "compact"

/-- The format with a written form. -/
def ofName? (s : String) : Option OutputFormat := [pretty, compact].find? fun f => f.name = s

/-- The text of a JSON document. -/
def render : OutputFormat → Json → String
  | pretty, v => v.pretty ++ "\n"
  | compact, v => v.compact ++ "\n"

end OutputFormat

/-- How many tables a CSV schema has : one that joins all classes, or one per class. -/
inductive TableLayout where
  | single
  | multiple
deriving DecidableEq

namespace TableLayout

/-- The written form. -/
def name : TableLayout → String
  | single => "single"
  | multiple => "multiple"

/-- The layout with a written form. -/
def ofName? (s : String) : Option TableLayout := [single, multiple].find? fun l => l.name = s

end TableLayout

/-- Whether classes get definitions with names, as types or as groups. -/
structure XmlExtraction where
  extractType : Bool
  extractGroup : Bool
deriving DecidableEq

namespace XmlExtraction

/-- No definitions with names. -/
def default : XmlExtraction := ⟨false, false⟩

/-- The written form. -/
def toJson (x : XmlExtraction) : Json :=
  .obj [("extract_type", .bool x.extractType), ("extract_group", .bool x.extractGroup)]

/-- The settings with a written form. -/
def ofJson? (v : Json) : Option XmlExtraction :=
  match v.record ["extract_type", "extract_group"] with
  | some [extractType, extractGroup] =>
    match extractType.withDefault false Json.bool?, extractGroup.withDefault false Json.bool? with
    | some extractType, some extractGroup => some ⟨extractType, extractGroup⟩
    | _, _ => none
  | _ => none

end XmlExtraction

/-- The settings of all output formats. -/
structure GenerationConfig where
  /-- The dialect that JSON schemas declare. -/
  dialect : String
  /-- What is done with the root classes of an XML schema. -/
  rootClass : XmlExtraction
  /-- What is done with all other classes of an XML schema. -/
  otherClasses : XmlExtraction
  layout : TableLayout
  /-- The languages of documentation, the most preferred first. -/
  languages : List String
deriving DecidableEq

namespace GenerationConfig

/-- The settings that hold if nothing else is said. -/
def default : GenerationConfig where
  dialect := "https://json-schema.org/draft/2020-12/schema"
  rootClass := .default
  otherClasses := .default
  layout := .single
  languages := ["cs", "en"]

/-- The written form. -/
def toJson (c : GenerationConfig) : Json :=
  .obj [("json_schema", .obj [("dialect", .str c.dialect)]),
    ("xml_schema", .obj [("root_class", c.rootClass.toJson),
      ("other_classes", c.otherClasses.toJson)]),
    ("csv_schema", .obj [("layout", .str c.layout.name)]),
    ("documentation", .obj [("languages", .strings c.languages)])]

/-- The dialect in the settings of JSON schemas. -/
def dialectOfJson? (v : Json) : Option String :=
  match v.record ["dialect"] with
  | some [dialect] => dialect.withDefault default.dialect Json.str?
  | _ => none

/-- The settings of XML schemas. -/
def xmlOfJson? (v : Json) : Option (XmlExtraction × XmlExtraction) :=
  match v.record ["root_class", "other_classes"] with
  | some [rootClass, otherClasses] =>
    match rootClass.withDefault .default XmlExtraction.ofJson?,
      otherClasses.withDefault .default XmlExtraction.ofJson? with
    | some rootClass, some otherClasses => some (rootClass, otherClasses)
    | _, _ => none
  | _ => none

/-- The layout in the settings of CSV schemas. -/
def layoutOfJson? (v : Json) : Option TableLayout :=
  match v.record ["layout"] with
  | some [layout] => layout.withDefault .single (Json.named? .direct TableLayout.ofName?)
  | _ => none

/-- The languages in the settings of documentation. -/
def languagesOfJson? (v : Json) : Option (List String) :=
  match v.record ["languages"] with
  | some [languages] => languages.withDefault default.languages (Json.list? Json.str?)
  | _ => none

/-- The settings with a written form. What it leaves out has the default. -/
def ofJson? (v : Json) : Option GenerationConfig :=
  match v.record ["json_schema", "xml_schema", "csv_schema", "documentation"] with
  | some [json, xml, csv, documentation] => do
    let dialect ← json.withDefault default.dialect dialectOfJson?
    let (rootClass, otherClasses) ← xml.withDefault (.default, .default) xmlOfJson?
    let layout ← csv.withDefault .single layoutOfJson?
    let languages ← documentation.withDefault default.languages languagesOfJson?
    return ⟨dialect, rootClass, otherClasses, layout, languages⟩
  | _ => none

end GenerationConfig

namespace Json

mutual

/-- A value laid over another one : objects are laid over each other member by member, and
anything else takes the place of what is below. -/
def overlay (below : Json) : Json → Json
  | .obj upper =>
    match below with
    | .obj members => .obj (overlayMembers members upper)
    | _ => .obj upper
  | v => v

/-- Members laid over those of an object. -/
def overlayMembers (below : List (String × Json)) : List (String × Json) → List (String × Json)
  | [] => below
  | (name, v) :: rest =>
    overlayMembers (setMember name (overlay ((member? name below).getD .null) v) below) rest

end

end Json

namespace GenerationConfig

/-- The settings with a JSON value laid over them; `null` changes nothing. There is no
answer if the result is not the written form of settings. -/
def override? (c : GenerationConfig) : Json → Option GenerationConfig
  | .null => some c
  | v => ofJson? (c.toJson.overlay v)

end GenerationConfig

end DataSpec
