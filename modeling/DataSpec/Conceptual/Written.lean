import DataSpec.Conceptual.Basic

/-!
# Written conceptual models

The JSON form of a conceptual model. What is missing from it is empty; only identifiers
and the ranges of properties have to be there. Of classes with equal identifiers the last
counts.
-/

set_option autoImplicit false

namespace DataSpec

/-- The written form of where a conceptual property leads. -/
def ConceptualRange.toJson : ConceptualRange → Json
  | .datatype iri => .obj [("datatype", Json.strOrNull iri)]
  | .class_ iri => .obj [("class", .str iri)]

/-- The range with a written form. -/
def ConceptualRange.ofJson? (v : Json) : Option ConceptualRange :=
  match v.variant? with
  | some ("datatype", v) => (v.option? Json.str?).map .datatype
  | some ("class", v) => v.str?.map .class_
  | _ => none

/-- The written form. -/
def ConceptualProperty.toJson (p : ConceptualProperty) : Json :=
  .obj [("iri", .str p.iri), ("concept_iri", Json.strOrNull p.concept), ("label", p.label.toJson),
    ("description", p.description.toJson),
    ("cardinality", Json.orNull (p.cardinality.map Cardinality.toJson)),
    ("range", p.range.toJson)]

/-- The property with a written form. -/
def ConceptualProperty.ofJson? (v : Json) : Option ConceptualProperty := do
  let iri ← v.need "iri" Json.str?
  let concept ← v.maybe "concept_iri" Json.str?
  let label ← LanguageText.ofMember? v "label"
  let description ← LanguageText.ofMember? v "description"
  let cardinality ← v.maybe "cardinality" Cardinality.ofJson?
  let range ← v.need "range" ConceptualRange.ofJson?
  return { iri, concept, label, description, cardinality, range }

/-- The written form. -/
def ConceptualClass.toJson (c : ConceptualClass) : Json :=
  .obj [("iri", .str c.iri), ("concept_iri", Json.strOrNull c.concept), ("label", c.label.toJson),
    ("description", c.description.toJson), ("codelist", .bool c.isCodelist),
    ("extends", .strings c.parents),
    ("properties", .arr (c.properties.map ConceptualProperty.toJson))]

/-- The class with a written form. -/
def ConceptualClass.ofJson? (v : Json) : Option ConceptualClass := do
  let iri ← v.need "iri" Json.str?
  let concept ← v.maybe "concept_iri" Json.str?
  let label ← LanguageText.ofMember? v "label"
  let description ← LanguageText.ofMember? v "description"
  let isCodelist ← v.flag? "codelist"
  let parents ← v.strings? "extends"
  let properties ← v.orElse "properties" [] (Json.list? ConceptualProperty.ofJson?)
  return { iri, concept, label, description, isCodelist, parents, properties }

namespace ConceptualModel

/-- The written form. -/
def toJson (m : ConceptualModel) : Json :=
  .obj [("iri", Json.strOrNull m.iri), ("label", m.label.toJson),
    ("description", m.description.toJson),
    ("classes", .arr (m.classes.values.map ConceptualClass.toJson))]

/-- The members of a written form as a model. -/
def ofMembers? (v : Json) : Option ConceptualModel := do
  let iri ← v.maybe "iri" Json.str?
  let label ← LanguageText.ofMember? v "label"
  let description ← LanguageText.ofMember? v "description"
  let classes ← v.orElse "classes" [] (Json.list? ConceptualClass.ofJson?)
  return { iri, label, description, classes := .ofList (classes.map fun c => (c.iri, c)) }

/-- The model with a written form. -/
def ofJson? : Json → Option ConceptualModel
  | .obj members => ofMembers? (.obj members)
  | _ => none

end ConceptualModel

end DataSpec
