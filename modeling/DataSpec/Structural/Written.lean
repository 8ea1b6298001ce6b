import DataSpec.Structural.Basic

/-!
# Written structural models

The JSON form of a structural model. What is missing from it is empty, and a class
belongs to the schema of the model unless it names another one; only identifiers have to
be there. Of classes with equal identifiers the last counts.
-/

set_option autoImplicit false

namespace DataSpec

/-- The written form. -/
def PropertyType.toJson : PropertyType → Json
  | .datatype iri => .obj [("attribute", Json.strOrNull iri)]
  | .class_ iri => .obj [("association", .str iri)]

/-- The type with a written form. -/
def PropertyType.ofJson? (v : Json) : Option PropertyType :=
  match v.variant? with
  | some ("attribute", v) => (v.option? Json.str?).map .datatype
  | some ("association", v) => v.str?.map .class_
  | _ => none

/-- The written form. -/
def StructuralProperty.toJson (p : StructuralProperty) : Json :=
  .obj [("iri", .str p.iri), ("pim", Json.strOrNull p.pim), ("cim", Json.strOrNull p.cim),
    ("label", p.label.toJson), ("description", p.description.toJson),
    ("technical_label", Json.strOrNull p.technicalLabel),
    ("cardinality", Json.orNull (p.cardinality.map Cardinality.toJson)),
    ("dematerialize", .bool p.dematerialize), ("path", .strings p.path),
    ("types", .arr (p.types.map PropertyType.toJson))]

/-- The property with a written form. -/
def StructuralProperty.ofJson? (v : Json) : Option StructuralProperty := do
  let iri ← v.need "iri" Json.str?
  let pim ← v.maybe "pim" Json.str?
  let cim ← v.maybe "cim" Json.str?
  let label ← LanguageText.ofMember? v "label"
  let description ← LanguageText.ofMember? v "description"
  let technicalLabel ← v.maybe "technical_label" Json.str?
  let cardinality ← v.maybe "cardinality" Cardinality.ofJson?
  let dematerialize ← v.flag? "dematerialize"
  let path ← v.strings? "path"
  let types ← v.orElse "types" [] (Json.list? PropertyType.ofJson?)
  return {
    iri, pim, cim, label, description, technicalLabel, cardinality, dematerialize, path, types }

/-- The written form. -/
def StructuralClass.toJson (c : StructuralClass) : Json :=
  .obj [("iri", .str c.iri), ("pim", Json.strOrNull c.pim), ("cim", Json.strOrNull c.cim),
    ("label", c.label.toJson), ("description", c.description.toJson),
    ("technical_label", Json.strOrNull c.technicalLabel), ("codelist", .bool c.isCodelist),
    ("extends", .strings c.parents), ("inherits_from", .strings c.inheritsFrom),
    ("schema", .str c.schema), ("specification", Json.strOrNull c.specification),
    ("referenced", .bool c.isReferenced),
    ("properties", .arr (c.properties.map StructuralProperty.toJson))]

/-- The class with a written form, in the model of a schema. -/
def StructuralClass.ofJson? (schema : Iri) (v : Json) : Option StructuralClass := do
  let iri ← v.need "iri" Json.str?
  let pim ← v.maybe "pim" Json.str?
  let cim ← v.maybe "cim" Json.str?
  let label ← LanguageText.ofMember? v "label"
  let description ← LanguageText.ofMember? v "description"
  let technicalLabel ← v.maybe "technical_label" Json.str?
  let isCodelist ← v.flag? "codelist"
  let parents ← v.strings? "extends"
  let inheritsFrom ← v.strings? "inherits_from"
  let schema ← v.orElse "schema" schema Json.str?
  let specification ← v.maybe "specification" Json.str?
  let isReferenced ← v.flag? "referenced"
  let properties ← v.orElse "properties" [] (Json.list? StructuralProperty.ofJson?)
  return {
    iri, pim, cim, label, description, technicalLabel, isCodelist, parents, inheritsFrom, schema,
    specification, isReferenced, properties }

namespace StructuralModel

/-- The written form. -/
def toJson (m : StructuralModel) : Json :=
  .obj [("iri", .str m.iri), ("label", m.label.toJson), ("description", m.description.toJson),
    ("technical_label", Json.strOrNull m.technicalLabel), ("roots", .strings m.roots),
    ("specification", Json.strOrNull m.specification),
    ("namespace", Json.strOrNull m.xmlNamespace), ("prefix", Json.strOrNull m.xmlPrefix),
    ("classes", .arr (m.classes.values.map StructuralClass.toJson))]

/-- The model with a written form. -/
def ofJson? (v : Json) : Option StructuralModel := do
  let iri ← v.need "iri" Json.str?
  let label ← LanguageText.ofMember? v "label"
  let description ← LanguageText.ofMember? v "description"
  let technicalLabel ← v.maybe "technical_label" Json.str?
  let roots ← v.strings? "roots"
  let specification ← v.maybe "specification" Json.str?
  let xmlNamespace ← v.maybe "namespace" Json.str?
  let xmlPrefix ← v.maybe "prefix" Json.str?
  let classes ← v.orElse "classes" [] (Json.list? (StructuralClass.ofJson? iri))
  return {
    iri, label, description, technicalLabel, roots, specification, xmlNamespace, xmlPrefix
    classes := .ofList (classes.map fun c => (c.iri, c)) }

end StructuralModel

end DataSpec
