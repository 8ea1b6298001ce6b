import DataSpec.Conceptual.Basic
import DataSpec.Graph.Extension
import DataSpec.Model.Exploration

/-!
# Building conceptual models

`ConceptualModel.build` makes the model of a conceptual schema from all resources that
can be reached from it : through parts, parents of classes, owners of attributes, and
ends of associations. An attribute is a property of the class that owns it. Each end of
an association is a property of the class at the other end.
-/

set_option autoImplicit false

namespace DataSpec

/-- What a visited resource is to a conceptual model. -/
inductive ConceptualRole where
  | class_
  | attribute
  | association
  | associationEnd
  | other
deriving DecidableEq

/-- The role of a resource; of several kinds, the first in the order of the roles counts. -/
def Resource.conceptualRole (r : Resource) : ConceptualRole :=
  if r.is .conceptualClass then .class_
  else if r.is .conceptualAttribute then .attribute
  else if r.is .conceptualAssociation then .association
  else if r.is .conceptualAssociationEnd then .associationEnd
  else .other

/-- The resources that a resource leads to. -/
def Resource.conceptualLinks (r : Resource) : List Iri :=
  match r.conceptualRole with
  | .class_ => r.iriList .parents
  | .attribute => (r.iri? .owner).toList
  | .association => r.parts
  | .associationEnd => r.iriList .range
  | .other => []

namespace ConceptualModel

/-- The class that a resource stands for, without properties. -/
def classOf (r : Resource) : ConceptualClass where
  iri := r.iri
  concept := r.iri? .conceptIri
  label := r.languageText .humanLabel
  description := r.languageText .humanDescription
  isCodelist := r.flag .isCodelist
  parents := r.iriList .parents
  properties := []

/-- The property that an attribute stands for. -/
def attributeOf (r : Resource) : ConceptualProperty where
  iri := r.iri
  concept := r.iri? .conceptIri
  label := r.languageText .humanLabel
  description := r.languageText .humanDescription
  cardinality := r.cardinality?
  range := .datatype (r.iri? .datatype)

/-- The property that an end of an association stands for. What the end does not say
about itself is taken from the association. -/
def endOf (association r : Resource) (target : Iri) : ConceptualProperty where
  iri := r.iri
  concept := (r.iri? .conceptIri).or (association.iri? .conceptIri)
  label := ((r.languageText? .humanLabel).or (association.languageText? .humanLabel)).getD .empty
  description := ((r.languageText? .humanDescription).or
    (association.languageText? .humanDescription)).getD .empty
  cardinality := r.cardinality?
  range := .class_ target

/-- The resources of a role, in the order of the visits. -/
def ofRole (role : ConceptualRole) (visited : List (Iri × Resource)) : List (Iri × Resource) :=
  visited.filter fun e => e.2.conceptualRole = role

/-- The first parent of a class that is not a class of the model. -/
def strangeParent? (classes : ResourceMap) : Option Iri :=
  classes.values.findSome? fun r => (r.iriList .parents).find? fun p => !classes.contains p

/-- Attributes in the order of the parts of their class; those not among the parts come
first. -/
def inPartOrder (parts : List Iri) (attributes : List Resource) : List Resource :=
  (attributes.filter fun a => !parts.contains a.iri)
    ++ parts.eraseDups.flatMap fun part => attributes.filter fun a => a.iri = part

/-- Attributes with their owners. -/
def withOwners (attributes : List Resource) : Except ModelError (List (Iri × Resource)) :=
  attributes.mapM fun a =>
    match a.iri? .owner with
    | some owner => .ok (owner, a)
    | none => .error (.missingOwner a.iri)

/-- Add a property to a class of the model. -/
def addProperty (iri : Iri) (p : ConceptualProperty) (classes : SortedMap Iri ConceptualClass) :
    Except ModelError (SortedMap Iri ConceptualClass) :=
  match classes.get? iri with
  | some c => .ok (classes.insert iri { c with properties := c.properties ++ [p] })
  | none => .error (.notOfKind iri .conceptualClass)

/-- Add the attributes that a class owns. -/
def addAttributes (resources : ResourceMap) (owned : List (Iri × Resource))
    (classes : SortedMap Iri ConceptualClass) (owner : Iri) :
    Except ModelError (SortedMap Iri ConceptualClass) :=
  match resources.get? owner with
  | none => .error (.notOfKind owner .conceptualClass)
  | some r =>
    let attributes := (owned.filter fun e => e.1 = owner).map Prod.snd
    (inPartOrder r.parts attributes).foldlM
      (fun classes a => addProperty owner (attributeOf a) classes) classes

/-- An end of an association and the class at it. -/
def participant (ends : ResourceMap) (iri : Iri) : Except ModelError (Resource × Iri) :=
  match ends.get? iri with
  | none => .error (.missingResource iri)
  | some r =>
    match r.iriList .range with
    | target :: _ => .ok (r, target)
    | [] => .error (.noParticipant iri)

/-- Add the two properties of an association. -/
def addAssociation (ends : ResourceMap) (classes : SortedMap Iri ConceptualClass)
    (association : Resource) : Except ModelError (SortedMap Iri ConceptualClass) :=
  match association.parts with
  | [first, second] => do
    let (firstEnd, firstClass) ← participant ends first
    let (secondEnd, secondClass) ← participant ends second
    let classes ← addProperty firstClass (endOf association secondEnd secondClass) classes
    addProperty secondClass (endOf association firstEnd firstClass) classes
  | _ => .error (.notTwoEnds association.iri)

/-- The classes of a model, with their properties, from all visited resources. -/
def classesOf (visited : List (Iri × Resource)) :
    Except ModelError (SortedMap Iri ConceptualClass) := do
  let resources : ResourceMap := .ofList (ofRole .class_ visited)
  ExtensionGraph.checkAcyclic (.ofParents (resources.toList.map fun e =>
    (e.1, e.2.iriList .parents)))
  if let some parent := strangeParent? resources then
    throw (.notOfKind parent .conceptualClass)
  let owned ← withOwners ((ofRole .attribute visited).map Prod.snd)
  let owners := (SortedSet.ofList (owned.map Prod.fst)).keys
  let classes ← owners.foldlM (addAttributes resources owned)
    (resources.mapValues fun _ r => classOf r)
  ((ofRole .association visited).map Prod.snd).foldlM
    (addAssociation (.ofList (ofRole .associationEnd visited))) classes

/-- The model of a conceptual schema. -/
def build (m : ResourceMap) (schema : Iri) : Except ModelError ConceptualModel := do
  let r ← m.require schema
  r.expect .conceptualSchema
  let visited ← m.explore Except.ok Resource.conceptualLinks r.parts
  let classes ← classesOf visited
  return ⟨some schema, r.languageText .humanLabel, r.languageText .humanDescription, classes⟩

end ConceptualModel

end DataSpec
