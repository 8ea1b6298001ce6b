import DataSpec.Resource.Basic
import DataSpec.Text.CharacterClass
import DataSpec.Text.Segments

/-!
# Data specifications

A data specification has a conceptual schema, the structural schemas published from it,
and the artefacts generated for them. `DataSpecification.defaultArtefacts` is the usual
set : three schemas in different formats per structural schema, and one documentation
that links to all of them.
-/

set_option autoImplicit false

namespace DataSpec

/-- The output formats. -/
inductive Format where
  | jsonSchema
  | xmlSchema
  | csvSchema
  | documentation
deriving DecidableEq

namespace Format

/-- The written form. -/
def name : Format → String
  | jsonSchema => "json-schema"
  | xmlSchema => "xml-schema"
  | csvSchema => "csv-schema"
  | documentation => "documentation"

/-- The format with a written form. -/
def ofName? (s : String) : Option Format :=
  [jsonSchema, xmlSchema, csvSchema, documentation].find? fun f => f.name = s

@[simp]
theorem ofName?_name (f : Format) : ofName? f.name = some f := by cases f <;> decide

end Format

/-- One document to generate. -/
structure Artefact where
  iri : Iri
  /-- The name of the format; a name of no format is refused when the artefact is generated. -/
  generator : String
  /-- Where the document goes. -/
  outputPath : String
  /-- Where the document is published, for references from other documents. -/
  publicUrl : String
  /-- The structural schema that the document describes. -/
  psm : Option Iri
  /-- The artefacts to generate first. -/
  dependsOn : List Iri
  /-- Settings of this document, laid over the general ones. -/
  configuration : Json

namespace Artefact

/-- The written form. -/
def toJson (a : Artefact) : Json :=
  .obj [("iri", .str a.iri), ("generator", .str a.generator), ("outputPath", .str a.outputPath),
    ("publicUrl", .str a.publicUrl), ("psm", Json.strOrNull a.psm),
    ("dependsOn", .strings a.dependsOn), ("configuration", a.configuration)]

/-- The artefact with a written form. -/
def ofJson? (v : Json) : Option Artefact :=
  match v.record ["iri", "generator", "outputPath", "publicUrl", "psm", "dependsOn",
    "configuration"] with
  | some [iri, generator, outputPath, publicUrl, psm, dependsOn, configuration] => do
    let iri ← iri.required Json.str?
    let generator ← generator.required Json.str?
    let outputPath ← outputPath.required Json.str?
    let publicUrl ← publicUrl.withDefault "" Json.str?
    let psm ← psm.withDefault none (Json.option? Json.str?)
    let dependsOn ← dependsOn.withDefault [] (Json.list? Json.str?)
    let configuration ← configuration.withDefault .null Json.whole?
    return ⟨iri, generator, outputPath, publicUrl, psm, dependsOn, configuration⟩
  | _ => none

end Artefact

/-- A data specification. -/
structure DataSpecification where
  iri : Iri
  label : LanguageText
  conceptualSchema : Option Iri
  structuralSchemas : List Iri
  /-- Specifications whose classes this one may refer to. -/
  importedSpecifications : List Iri
  artefacts : List Artefact

namespace DataSpecification

/-- The written form. -/
def toJson (s : DataSpecification) : Json :=
  .obj [("iri", .str s.iri), ("label", s.label.toJson),
    ("conceptualSchema", Json.strOrNull s.conceptualSchema),
    ("structuralSchemas", .strings s.structuralSchemas),
    ("importedSpecifications", .strings s.importedSpecifications),
    ("artefacts", .arr (s.artefacts.map Artefact.toJson))]

/-- The specification with a written form. -/
def ofJson? (v : Json) : Option DataSpecification :=
  match v.record ["iri", "label", "conceptualSchema", "structuralSchemas",
    "importedSpecifications", "artefacts"] with
  | some [iri, label, conceptualSchema, structuralSchemas, imported, artefacts] => do
    let iri ← iri.required Json.str?
    let label ← label.withDefault .empty LanguageText.ofJson?
    let conceptualSchema ← conceptualSchema.withDefault none (Json.option? Json.str?)
    let structuralSchemas ← structuralSchemas.withDefault [] (Json.list? Json.str?)
    let imported ← imported.withDefault [] (Json.list? Json.str?)
    let artefacts ← artefacts.withDefault [] (Json.list? Artefact.ofJson?)
    return ⟨iri, label, conceptualSchema, structuralSchemas, imported, artefacts⟩
  | _ => none

/-- The first artefact with an identifier. -/
def artefact? (s : DataSpecification) (iri : Iri) : Option Artefact :=
  s.artefacts.find? fun a => a.iri = iri

/-- The first artefact that describes a structural schema in a format. -/
def artefactFor? (s : DataSpecification) (psm : Iri) (generator : String) : Option Artefact :=
  s.artefacts.find? fun a => a.generator = generator && a.psm = some psm

/-- Whether a structural schema belongs to the specification. -/
def ownsSchema (s : DataSpecification) (psm : Iri) : Bool := s.structuralSchemas.contains psm

/-! ## The usual artefacts -/

/-- The name of a directory for a label : alphabetic characters and numbers, with the
Latin ones in lower case, and a hyphen for any other character. -/
def slug (label : String) : String :=
  String.ofList (label.toList.map fun c =>
    if Text.isAlphabetic c || Text.isNumber c then c.toLower else '-')

/-- The URL at which a path is published. -/
def publicUrl (baseUrl path : String) : String := Text.trimEnd '/' baseUrl ++ "/" ++ path

/-- The formats of a structural schema with the names of their files. -/
def schemaFiles : List (Format × String) :=
  [(.jsonSchema, "schema.json"), (.xmlSchema, "schema.xsd"),
    (.csvSchema, "schema.csv-metadata.json")]

/-- The directory of a specification. -/
def directory (s : DataSpecification) : String := slug (Text.lastSegment s.iri)

/-- The artefact of a structural schema in a format. -/
def schemaArtefact (s : DataSpecification) (baseUrl : String) (psm : Iri)
    (file : Format × String) : Artefact :=
  let path := s.directory ++ "/" ++ slug (Text.lastSegment psm) ++ "/" ++ file.2
  { iri := psm ++ "#" ++ file.1.name
    generator := file.1.name
    outputPath := path
    publicUrl := publicUrl baseUrl path
    psm := some psm
    dependsOn := []
    configuration := .null }

/-- The artefacts of all structural schemas. -/
def schemaArtefacts (s : DataSpecification) (baseUrl : String) : List Artefact :=
  s.structuralSchemas.flatMap fun psm => schemaFiles.map (s.schemaArtefact baseUrl psm)

/-- The usual artefacts, published under a URL. -/
def defaultArtefacts (s : DataSpecification) (baseUrl : String) : List Artefact :=
  let schemas := s.schemaArtefacts baseUrl
  let path := s.directory ++ "/index.md"
  schemas ++ [{
    iri := s.iri ++ "#" ++ Format.documentation.name
    generator := Format.documentation.name
    outputPath := path
    publicUrl := publicUrl baseUrl path
    psm := none
    dependsOn := schemas.map Artefact.iri
    configuration := .null }]

/-- The specification with the usual artefacts if it has none. -/
def withDefaults (s : DataSpecification) (baseUrl : String) : DataSpecification :=
  if s.artefacts.isEmpty then { s with artefacts := s.defaultArtefacts baseUrl } else s

end DataSpecification

/-- Specifications by identifier. -/
abbrev Specifications := SortedMap Iri DataSpecification

/-- Specifications by identifier, of equal ones the last. -/
def Specifications.ofList (l : List DataSpecification) : Specifications :=
  SortedMap.ofList (l.map fun s => (s.iri, s))

end DataSpec
