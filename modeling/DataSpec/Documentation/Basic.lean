import DataSpec.Conceptual.Basic
import DataSpec.Datatype
import DataSpec.Documentation.Anchor
import DataSpec.Markdown.Basic
import DataSpec.Publication

/-!
# Documentation

`Documentation.document` describes a specification to people : the classes of its
conceptual model, and for each of its other documents the classes of the structural
model. Everything has an anchor, and where one thing is mentioned in the description of
another there is a link.
-/

set_option autoImplicit false

namespace DataSpec.Documentation

open Markdown

/-- What is documented. -/
structure Subject where
  specification : DataSpecification
  publication : Publication
  conceptual : Option ConceptualModel
  /-- The anchors of the conceptual classes and properties. -/
  anchors : SortedMap Iri String

/-- A document of the specification, with the model that it describes. -/
structure Described where
  artefact : Artefact
  model : StructuralModel

/-! ## Names and anchors -/

/-- The text that readers see, or else the end of the identifier. -/
def nameOf (p : Publication) (t : LanguageText) (iri : Iri) : String :=
  (p.select t).getD (Text.lastSegment iri)

/-- The title of the documentation of a specification. -/
def titleOf (p : Publication) (s : DataSpecification) : String := nameOf p s.label s.iri

/-- What identifies a property of a class. -/
def propertyKey (owner property : Iri) : String := owner ++ " " ++ property

/-- The part of anchors for the conceptual model. -/
def conceptualFormat : String := "conceptual"

/-- The anchors of a conceptual class and of its properties, in a document with a title. -/
def anchorsOf (p : Publication) (title : String) (c : ConceptualClass) : List (Iri × String) :=
  let label := nameOf p c.label c.iri
  (c.iri, Anchor.make title conceptualFormat label c.iri) ::
    c.properties.map fun q =>
      (q.iri, Anchor.make title conceptualFormat (label ++ "-" ++ nameOf p q.label q.iri)
        (propertyKey c.iri q.iri))

/-- The anchors of conceptual classes and properties. -/
def conceptualAnchors (p : Publication) (title : String) :
    Option ConceptualModel → SortedMap Iri String
  | some m => .ofList (m.classes.values.flatMap (anchorsOf p title))
  | none => .empty

namespace Subject

/-- A specification and its conceptual model as what is documented. -/
def make (s : DataSpecification) (p : Publication) (conceptual : Option ConceptualModel) :
    Subject where
  specification := s
  publication := p
  conceptual
  anchors := conceptualAnchors p (titleOf p s) conceptual

/-- The title of the documentation. -/
def title (d : Subject) : String := titleOf d.publication d.specification

/-- The anchor of a thing in the part of the document about a format. -/
def anchor (d : Subject) (format label key : String) : String :=
  Anchor.make d.title format label key

/-- The name of a conceptual class. -/
def classLabel (d : Subject) (c : ConceptualClass) : String := nameOf d.publication c.label c.iri

/-- The name of a conceptual property. -/
def propertyLabel (d : Subject) (p : ConceptualProperty) : String :=
  nameOf d.publication p.label p.iri

/-- A link to a conceptual class or property, if it is described. -/
def conceptualLink (d : Subject) (label : String) (iri : Iri) : Inline :=
  match d.anchors.get? iri with
  | some anchor => .local label anchor
  | none => .text label

/-- A link to a conceptual class by its name. -/
def classLink (d : Subject) (iri : Iri) : Inline :=
  let c := d.conceptual.bind fun m => m.class? iri
  d.conceptualLink ((c.map d.classLabel).getD (Text.lastSegment iri)) iri

/-- A link to a conceptual property by its name. -/
def propertyLink (d : Subject) (iri : Iri) : Inline :=
  let p := d.conceptual.bind fun m => m.property? iri
  d.conceptualLink ((p.map d.propertyLabel).getD (Text.lastSegment iri)) iri

/-! ## Pieces -/

/-- A paragraph with a description, if there is one. -/
def descriptionBlocks (d : Subject) (t : LanguageText) : List Block :=
  match d.publication.select t with
  | some s => [.paragraph [.text s]]
  | none => []

end Subject

/-- The bounds of a property, empty if they are not stated. -/
def boundsText (c : Option Cardinality) : String := (c.map Cardinality.text).getD ""

/-- A datatype, with a link if it is known. -/
def datatypeInline : Option Iri → Inline
  | none => .text "any"
  | some iri =>
    match Datatype.ofIri? iri with
    | some d => .link d.label iri
    | none => .code iri

/-- Pieces with commas between them. -/
def separated : List Inline → List Inline
  | [] => []
  | [i] => [i]
  | i :: rest => i :: .text ", " :: separated rest

/-- The line that marks codelists. -/
def codelistFacts (isCodelist : Bool) : List (List Inline) :=
  if isCodelist then [[.text "Codelist"]] else []

/-- A table, left out if it has no rows. -/
def tableBlocks (header : List String) (rows : List (List (List Inline))) : List Block :=
  if rows.isEmpty then [] else [.table header rows]

namespace Subject

/-! ## The conceptual model -/

/-- Where a conceptual property leads. -/
def rangeInline (d : Subject) : ConceptualRange → Inline
  | .datatype iri => datatypeInline iri
  | .class_ iri => d.classLink iri

/-- The row of a conceptual property. -/
def conceptualRow (d : Subject) (p : ConceptualProperty) : List (List Inline) :=
  [((d.anchors.get? p.iri).toList.map .anchor) ++ [.strong (d.propertyLabel p)],
    [.text ((d.publication.select p.description).getD "")],
    [.text (boundsText p.cardinality)],
    [d.rangeInline p.range]]

/-- What is known about a conceptual class. -/
def conceptualFacts (d : Subject) (c : ConceptualClass) : List (List Inline) :=
  [[.text "IRI: ", .code c.iri]] ++
    (c.concept.toList.map fun iri => [.text "Concept: ", .link iri iri]) ++
    codelistFacts c.isCodelist ++
    c.parents.map fun iri => [.text "Extends: ", d.classLink iri]

/-- The section of a conceptual class. -/
def conceptualClassSection (d : Subject) (c : ConceptualClass) : Section where
  title := d.classLabel c
  anchor := d.anchors.get? c.iri
  blocks := d.descriptionBlocks c.description ++ [.list (d.conceptualFacts c)] ++
    tableBlocks ["Property", "Description", "Cardinality", "Range"]
      (c.properties.map d.conceptualRow)
  sections := []

/-- The section of a conceptual model. -/
def conceptualSection (d : Subject) (m : ConceptualModel) : Section where
  title := "Conceptual model"
  anchor := none
  blocks := []
  sections := m.classes.values.map d.conceptualClassSection

/-! ## Structural models -/

/-- The name of a structural class. -/
def structuralLabel (d : Subject) (c : StructuralClass) : String :=
  (d.publication.select c.label).getD c.name

/-- The anchor of a structural class. -/
def structuralAnchor (d : Subject) (format : String) (c : StructuralClass) : String :=
  d.anchor format (d.structuralLabel c) c.iri

/-- A link to a structural class. -/
def structuralLink (d : Subject) (format : String) (c : StructuralClass) : Inline :=
  .local (d.structuralLabel c) (d.structuralAnchor format c)

/-- Where a structural property leads. -/
def typeInlines (d : Subject) (format : String) (m : StructuralModel) (p : StructuralProperty) :
    Except ModelError (List Inline) := do
  match ← p.range with
  | .datatypes iris => return iris.map datatypeInline
  | .classes iris =>
    let cs ← iris.mapM m.requireClass
    return cs.map (d.structuralLink format)

/-- What a structural property stands for, and which properties it replaces. -/
def originInlines (d : Subject) (p : StructuralProperty) : List Inline :=
  p.pim.toList.map d.propertyLink ++
    if p.path.isEmpty then []
    else [.text (" (through " ++ Text.join " / " (p.path.map Text.lastSegment) ++ ")")]

/-- The row of a structural property. -/
def structuralRow (d : Subject) (format : String) (m : StructuralModel) (c : StructuralClass)
    (p : StructuralProperty) : Except ModelError (List (List Inline)) := do
  let label := (d.publication.select p.label).getD p.name
  let anchor := d.anchor format (d.structuralLabel c ++ "-" ++ label) (propertyKey c.iri p.iri)
  let types ← d.typeInlines format m p
  return [[.anchor anchor, .strong label], [.code p.name], [.text (boundsText p.cardinality)],
    separated types, d.originInlines p]

/-- What is known about a structural class. -/
def structuralFacts (d : Subject) (format : String) (m : StructuralModel)
    (c : StructuralClass) : List (List Inline) :=
  [[.text "Technical label: ", .code c.name]] ++
    (c.pim.toList.map fun iri => [.text "Interpretation: ", d.classLink iri]) ++
    ((c.inheritsFrom.filterMap m.class?).map fun parent =>
      [.text "Extends: ", d.structuralLink format parent]) ++
    codelistFacts c.isCodelist

/-- The section of a structural class. -/
def structuralClassSection (d : Subject) (format : String) (m : StructuralModel)
    (c : StructuralClass) : Except ModelError Section := do
  let rows ← c.properties.mapM (d.structuralRow format m c)
  return {
    title := d.structuralLabel c
    anchor := d.structuralAnchor format c
    blocks := d.descriptionBlocks c.description ++ [.list (d.structuralFacts format m c)] ++
      tableBlocks ["Property", "Technical label", "Cardinality", "Type", "Interpretation"] rows
    sections := [] }

/-- The name of a structural model. -/
def modelLabel (d : Subject) (m : StructuralModel) : String :=
  ((d.publication.select m.label).or m.technicalLabel).getD (Text.lastSegment m.iri)

/-- The line that leads to a document. -/
def artefactBlock (d : Subject) (a : Artefact) : Block :=
  .list [[.text "Artefact: ", .link (Text.lastSegment a.outputPath)
    (Text.relativePath d.publication.artefact.outputPath a.outputPath)]]

/-- The list of root classes, left out if there are none. -/
def rootBlocks (d : Subject) (format : String) (roots : List StructuralClass) : List Block :=
  if roots.isEmpty then []
  else [.paragraph [.text "Root classes:"],
    .list (roots.map fun c => [d.structuralLink format c])]

/-- The section of a document. -/
def structuralSection (d : Subject) (x : Described) : Except ModelError Section := do
  let format := x.artefact.generator
  let label := d.modelLabel x.model
  let roots ← x.model.rootClasses
  let own := x.model.classes.values.filter fun c => !x.model.isForeign c
  let sections ← own.mapM (d.structuralClassSection format x.model)
  return {
    title := label ++ " (" ++ format ++ ")"
    anchor := d.anchor format label x.artefact.iri
    blocks := d.artefactBlock x.artefact :: d.rootBlocks format roots
    sections }

end Subject

/-- The documentation of a specification and of its documents. -/
def document (d : Subject) (described : List Described) : Except ModelError Document := do
  let sections ← described.mapM d.structuralSection
  return {
    title := d.title
    blocks := (d.conceptual.map fun m => d.descriptionBlocks m.description).getD []
    sections := d.conceptual.toList.map d.conceptualSection ++ sections }

end DataSpec.Documentation
