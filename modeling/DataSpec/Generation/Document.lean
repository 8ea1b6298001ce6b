import DataSpec.Conceptual.Builder
import DataSpec.CsvSchema.Printer
import DataSpec.CsvSchema.Tabulation
import DataSpec.Documentation.Basic
import DataSpec.JsonSchema.Inlining
import DataSpec.JsonSchema.Printer
import DataSpec.Markdown.Printer
import DataSpec.Structural.Builder
import DataSpec.Structural.Pipeline
import DataSpec.XmlSchema.Expansion
import DataSpec.XmlSchema.Printer

/-!
# Documents

`Workspace.document` is the text of an artefact. It depends on the resources, on the
specifications and on the settings, and on nothing else : not on the documents that were
made before, nor on where the text goes.
-/

set_option autoImplicit false

namespace DataSpec

/-- What documents are made from. -/
structure Workspace where
  resources : ResourceMap
  specifications : Specifications
  /-- The conceptual models by specification. -/
  conceptual : SortedMap Iri ConceptualModel
  config : GenerationConfig
  format : OutputFormat

namespace Workspace

/-- The conceptual models of the specifications that have one. -/
def conceptualModels (resources : ResourceMap) (specifications : Specifications) :
    Except ModelError (SortedMap Iri ConceptualModel) := do
  let models ← specifications.mapValuesM fun s =>
    match s.conceptualSchema with
    | some schema => (ConceptualModel.build resources schema).map some
    | none => .ok none
  return .ofList (models.toList.filterMap fun e => e.2.map fun m => (e.1, m))

/-- The resources, the specifications and the settings, with the conceptual models. -/
def prepare (resources : ResourceMap) (specifications : Specifications)
    (config : GenerationConfig) (format : OutputFormat) : Except ModelError Workspace := do
  let conceptual ← conceptualModels resources specifications
  return { resources, specifications, conceptual, config, format }

/-- The conceptual model of the first specification with a structural schema, or the empty
model. -/
def conceptualFor (w : Workspace) (psm : Iri) : ConceptualModel :=
  ((w.specifications.owner? psm).bind fun s => w.conceptual.get? s.iri).getD .empty

/-- The model of a structural schema, as documents describe it. -/
def structuralModel (w : Workspace) (psm : Iri) : Except ModelError StructuralModel := do
  let m ← StructuralModel.build w.resources psm
  Pass.run (Pass.linked w.specifications) false (w.conceptualFor psm) m

/-- An artefact with the settings that hold for it. -/
def publication (w : Workspace) (a : Artefact) : Except ModelError Publication :=
  match w.config.override? a.configuration with
  | some config => .ok ⟨w.specifications, a, config⟩
  | none => .error .badConfiguration

/-- The model that a schema is made of. -/
def describedModel (w : Workspace) (a : Artefact) : Except ModelError StructuralModel :=
  match a.psm with
  | some psm => w.structuralModel psm
  | none => .error (.noSchema a.iri)

/-- The other schemas that an XML schema may import. -/
def importedSchemas (w : Workspace) (m : StructuralModel) : List Iri :=
  ((m.classes.values.filter fun c =>
    m.isForeign c && (w.specifications.published? .xmlSchema c).isSome).map
      StructuralClass.schema).eraseDups

/-- The models of the schemas that an XML schema may import. -/
def importedModels (w : Workspace) (m : StructuralModel) :
    Except ModelError (SortedMap Iri StructuralModel) := do
  let models ← (w.importedSchemas m).mapM fun psm =>
    (w.structuralModel psm).map fun other => (psm, other)
  return .ofList models

/-- The documents that a documentation describes : of the artefacts that it depends on,
those that have a schema. -/
def describedDocuments (w : Workspace) (s : DataSpecification) :
    List Iri → Except ModelError (List Documentation.Described)
  | [] => .ok []
  | iri :: rest =>
    match s.artefact? iri with
    | none => .error (.missingArtefact iri)
    | some artefact =>
      match artefact.psm with
      | none => w.describedDocuments s rest
      | some psm => do
        let model ← w.structuralModel psm
        let others ← w.describedDocuments s rest
        return ⟨artefact, model⟩ :: others

/-- The text of an artefact of a specification. -/
def document (w : Workspace) (s : DataSpecification) (a : Artefact) :
    Format → Except ModelError String
  | .jsonSchema => do
    let m ← w.describedModel a
    let p ← w.publication a
    let schema ← JsonSchema.ofModel p m
    return w.format.render schema.toJson
  | .xmlSchema => do
    let m ← w.describedModel a
    let p ← w.publication a
    let imported ← w.importedModels m
    let schema ← XmlSchema.ofModel ⟨p, m, imported⟩
    return schema.render
  | .csvSchema => do
    let m ← w.describedModel a
    let p ← w.publication a
    let schema ← CsvSchema.ofModel p m
    return w.format.render schema.toJson
  | .documentation => do
    let p ← w.publication a
    let described ← w.describedDocuments s a.dependsOn
    let document ← Documentation.document (.make s p (w.conceptual.get? s.iri)) described
    return document.render

end Workspace

end DataSpec
