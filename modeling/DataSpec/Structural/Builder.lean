import DataSpec.Datatype
import DataSpec.Graph.Extension
import DataSpec.Model.Exploration
import DataSpec.Structural.Basic

/-!
# Building structural models

`StructuralModel.build` makes the model of a structural schema : of its classes, and of
all classes that can be reached from them and from its roots, through parents and the
types of association ends. A class reference stands for the class it references, and
only that class is in the model.
-/

set_option autoImplicit false

namespace DataSpec.StructuralModel

/-- The class that an identifier stands for. -/
def resolve (m : ResourceMap) (iri : Iri) : Except ModelError Iri := do
  let r ← m.require iri
  if r.is .structuralClass then return iri
  else if r.is .structuralClassReference then
    match r.iri? .referencedClass with
    | none => throw (.emptyReference iri)
    | some target =>
      let c ← m.require target
      c.expect .structuralClass
      return target
  else throw (.notOfKind iri .structuralClass)

/-- A type of an association end. -/
def endType (m : ResourceMap) (iri : Iri) : Except ModelError PropertyType :=
  if isDatatypeIri iri then .ok (.datatype (some iri))
  else (resolve m iri).map .class_

/-- The types of a property. -/
def typesOf (m : ResourceMap) (r : Resource) : Except ModelError (List PropertyType) :=
  if r.is .structuralAttribute then .ok [.datatype (r.iri? .datatype)]
  else (r.iriList .range).mapM (endType m)

/-- The property that a resource stands for. -/
def propertyOf (m : ResourceMap) (r : Resource) : Except ModelError StructuralProperty := do
  let types ← typesOf m r
  return {
    iri := r.iri
    pim := r.iri? .interpretation
    cim := none
    label := r.languageText .humanLabel
    description := r.languageText .humanDescription
    technicalLabel := r.text? .technicalLabel
    cardinality := r.cardinality?
    types
    dematerialize := r.flag .dematerialize
    path := [] }

/-- The property that a part of a class stands for, if it is one. -/
def partOf (m : ResourceMap) (iri : Iri) : Except ModelError (Option StructuralProperty) := do
  let r ← m.require iri
  if r.is .structuralAttribute || r.is .structuralAssociationEnd then
    let p ← propertyOf m r
    return some p
  else return none

/-- The class that a resource stands for, in the model of a schema. -/
def classOf (m : ResourceMap) (schema : Iri) (r : Resource) :
    Except ModelError StructuralClass := do
  let parents ← (r.iriList .parents).mapM (resolve m)
  let properties ← r.parts.mapM (partOf m)
  let ownSchema := (r.iri? .schema).getD schema
  return {
    iri := r.iri
    pim := r.iri? .interpretation
    cim := none
    label := r.languageText .humanLabel
    description := r.languageText .humanDescription
    technicalLabel := r.text? .technicalLabel
    isCodelist := r.flag .isCodelist
    parents
    inheritsFrom := []
    properties := properties.filterMap id
    schema := ownSchema
    specification := none
    isReferenced := decide (ownSchema ≠ schema) }

/-- The classes that a class leads to. -/
def links (c : StructuralClass) : List Iri :=
  c.parents ++ c.properties.flatMap StructuralProperty.classes

/-- The classes among the parts of a schema. -/
def classParts (m : ResourceMap) (parts : List Iri) : Except ModelError (List Iri) := do
  let resources ← parts.mapM fun iri => (m.require iri).map fun r => (iri, r)
  return (resources.filter fun e => e.2.is .structuralClass).map Prod.fst

/-- The model of a structural schema. -/
def build (m : ResourceMap) (schema : Iri) : Except ModelError StructuralModel := do
  let r ← m.require schema
  r.expect .structuralSchema
  let roots ← (r.iriList .roots).mapM (resolve m)
  let parts ← classParts m r.parts
  let visited ← m.explore (classOf m schema) links (roots ++ parts)
  let classes : SortedMap Iri StructuralClass := .ofList visited
  ExtensionGraph.checkAcyclic (.ofParents (classes.toList.map fun e => (e.1, e.2.parents)))
  return {
    iri := schema
    label := r.languageText .humanLabel
    description := r.languageText .humanDescription
    technicalLabel := r.text? .technicalLabel
    roots
    classes
    specification := none
    xmlNamespace := r.text? .xmlNamespace
    xmlPrefix := r.text? .xmlPrefix }

end DataSpec.StructuralModel
