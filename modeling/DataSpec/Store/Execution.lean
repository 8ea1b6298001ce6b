import DataSpec.Store.Diff
import DataSpec.Store.Error
import DataSpec.Store.Minting

/-!
# What operations do

`Execution.run` computes the diff of an operation against the resources of a store, which
it only reads. A resource is linked in both directions : its `owner` and `schema` name
the resources that hold it, and their `parts` list it. Creation adds to these lists,
deletion takes out of them, and moving permutes one.

Numbers that were minted stay used when the operation fails after all, so the minter is
returned in either case; a store drops it together with the failed operation.
-/

set_option autoImplicit false

namespace DataSpec

/-- The resource, if it has the kind. -/
def Resource.require (r : Resource) (kind : Kind) : Except StoreError Resource :=
  if r.is kind then .ok r else .error (.notOfKind r.iri kind)

/-- Put a resource at the end of the parts. -/
def Resource.addPart (r : Resource) (iri : Iri) : Resource :=
  r.updateList .parts fun parts => parts ++ [iri]

/-- Change the body that a resource will have, which is the stored one if the diff does
not have it yet. -/
def ResourceDiff.edit (d : ResourceDiff) (m : ResourceMap) (iri : Iri)
    (f : Resource → Resource) : Except StoreError ResourceDiff :=
  if d.deleted.contains iri then .error (.beingDeleted iri)
  else
    match d.created.get? iri with
    | some r => .ok { d with created := d.created.insert iri (f r) }
    | none =>
      match d.changed.get? iri with
      | some r => .ok { d with changed := d.changed.insert iri (f r) }
      | none =>
        match m.get? iri with
        | some r => .ok { d with changed := d.changed.insert iri (f r) }
        | none => .error (.missing iri)

/-- What an operation reads : the resources of a store and the base of its identifiers. -/
structure Execution where
  resources : ResourceMap
  base : String

namespace Execution

/-- A resource that has to be there. -/
def require (x : Execution) (iri : Iri) : Except StoreError Resource :=
  match x.resources.get? iri with
  | some r => .ok r
  | none => .error (.missing iri)

/-- A resource that has to be there and to have the kind. -/
def requireKind (x : Execution) (iri : Iri) (kind : Kind) : Except StoreError Resource :=
  (x.require iri).bind fun r => r.require kind

/-- A free identifier for a resource of a kind. -/
def mint (x : Execution) (m : Minter) (kind : Kind) : Except StoreError (Iri × Minter) :=
  match m.mint x.resources x.base kind with
  | some r => .ok r
  | none => .error (.noNumber kind)

/-- The diff that changes one stored resource. -/
def change (x : Execution) (iri : Iri) (f : Resource → Resource) :
    Except StoreError ResourceDiff :=
  ResourceDiff.empty.edit x.resources iri f

/-! ## Creation -/

/-- What is wrong with an attribute of a new resource. Links are the business of the store,
but an association is told its ends. -/
def attributeFault? (kind : Kind) (key : AttributeKey) (v : AttributeValue) :
    Option StoreError :=
  if key.isLink && !(key == .ends && kind == .conceptualAssociation) then
    some (.linkAttribute key)
  else if !key.accepts v then some (.wrongShape key)
  else none

/-- The first fault in the attributes of a new resource. -/
def attributesFault? (kind : Kind) (attributes : Attributes) : Option StoreError :=
  attributes.toList.findSome? fun e => attributeFault? kind e.1 e.2

/-- A new resource with the attributes it was given, its ends aside. -/
def initial (iri : Iri) (kind : Kind) (attributes : Attributes) : Resource :=
  { Resource.new iri kind with attributes := attributes.erase .ends }

/-- Create a schema. -/
def createSchema (x : Execution) (m : Minter) (kind : Kind) (attributes : Attributes) :
    Except StoreError ResourceDiff × Minter :=
  match x.mint m kind with
  | .error e => (.error e, m)
  | .ok (iri, m) => (.ok (ResourceDiff.empty.create (initial iri kind attributes)), m)

/-- A new resource that only a schema holds. -/
def schemaPart (iri : Iri) (kind : Kind) (schema : Iri) (attributes : Attributes) : Resource :=
  (initial iri kind attributes).set .schema (.iri schema)

/-- Create a resource that only a schema holds. -/
def createInSchema (x : Execution) (m : Minter) (kind : Kind) (schema : Iri)
    (attributes : Attributes) : Except StoreError ResourceDiff × Minter :=
  match x.requireKind schema kind.schemaKind with
  | .error e => (.error e, m)
  | .ok _ =>
    match x.mint m kind with
    | .error e => (.error e, m)
    | .ok (iri, m) =>
      ((ResourceDiff.empty.create (schemaPart iri kind schema attributes)).edit x.resources schema
        fun s => s.addPart iri, m)

/-- The schema of a class that is to hold a new resource of a kind. -/
def schemaOfOwner (x : Execution) (kind : Kind) (owner : Iri) : Except StoreError Iri :=
  (x.requireKind owner kind.classKind).bind fun r =>
    match r.iri? .schema with
    | some schema => .ok schema
    | none => .error (.classWithoutSchema owner)

/-- A new resource that a class and its schema hold. -/
def classPart (iri : Iri) (kind : Kind) (owner schema : Iri) (attributes : Attributes) :
    Resource :=
  ((initial iri kind attributes).set .owner (.iri owner)).set .schema (.iri schema)

/-- Create a resource that a class holds, and the schema of the class with it. -/
def createInClass (x : Execution) (m : Minter) (kind : Kind) (owner : Iri)
    (attributes : Attributes) : Except StoreError ResourceDiff × Minter :=
  match x.schemaOfOwner kind owner with
  | .error e => (.error e, m)
  | .ok schema =>
    match x.mint m kind with
    | .error e => (.error e, m)
    | .ok (iri, m) =>
      let d := (ResourceDiff.empty.create (classPart iri kind owner schema attributes)).edit
        x.resources owner fun c => c.addPart iri
      (d.bind fun d => d.edit x.resources schema fun s => s.addPart iri, m)

/-- The two classes that a new association joins. -/
def participants (x : Execution) (attributes : Attributes) : Except StoreError (Iri × Iri) :=
  match attributes.get? .ends with
  | some (.iriList [a, b]) =>
    (x.requireKind a .conceptualClass).bind fun _ =>
      (x.requireKind b .conceptualClass).bind fun _ => .ok (a, b)
  | _ => .error .notTwoEnds

/-- A new end of an association, at one of its classes. -/
def associationEnd (iri association schema participant : Iri) : Resource :=
  (((Resource.new iri .conceptualAssociationEnd).set .owner (.iri association)).set .schema
    (.iri schema)).set .range (.iriList [participant])

/-- A new association with its ends. -/
def associationOf (iri schema : Iri) (attributes : Attributes) (ends : List Iri) : Resource :=
  (schemaPart iri .conceptualAssociation schema attributes).set .parts (.iriList ends)

/-- Identifiers for a new association and its two ends. -/
def mintAssociation (x : Execution) (m : Minter) :
    Except StoreError ((Iri × Iri × Iri) × Minter) :=
  (x.mint m .conceptualAssociation).bind fun (association, m) =>
    (x.mint m .conceptualAssociationEnd).bind fun (first, m) =>
      (x.mint m .conceptualAssociationEnd).map fun (second, m) =>
        ((association, first, second), m)

/-- Create an association together with its two ends. -/
def createAssociation (x : Execution) (m : Minter) (schema : Iri) (attributes : Attributes) :
    Except StoreError ResourceDiff × Minter :=
  match (x.requireKind schema .conceptualSchema).bind fun _ => x.participants attributes with
  | .error e => (.error e, m)
  | .ok (a, b) =>
    match x.mintAssociation m with
    | .error e => (.error e, m)
    | .ok ((association, first, second), m) =>
      let d := ((ResourceDiff.empty.create (associationEnd first association schema a)).create
        (associationEnd second association schema b)).create
          (associationOf association schema attributes [first, second])
      (d.edit x.resources schema fun s =>
        s.updateList .parts fun parts => parts ++ [association, first, second], m)

/-- Create a resource within its owner : a schema has none, an end comes with its
association, and any other resource goes into a schema or a class. -/
def create (x : Execution) (m : Minter) (kind : Kind) (owner : Option Iri)
    (attributes : Attributes) : Except StoreError ResourceDiff × Minter :=
  match attributesFault? kind attributes with
  | some e => (.error e, m)
  | none =>
    match kind, owner with
    | .conceptualSchema, none | .structuralSchema, none => x.createSchema m kind attributes
    | .conceptualSchema, some owner | .structuralSchema, some owner =>
      (.error (.ownedSchema owner), m)
    | .conceptualAssociationEnd, _ => (.error .loneEnd, m)
    | kind, none => (.error (.noOwner kind), m)
    | .conceptualClass, some schema | .structuralClass, some schema
    | .structuralClassReference, some schema => x.createInSchema m kind schema attributes
    | .conceptualAttribute, some owner | .structuralAttribute, some owner
    | .structuralAssociationEnd, some owner => x.createInClass m kind owner attributes
    | .conceptualAssociation, some schema => x.createAssociation m schema attributes

/-! ## Attributes, order and roots -/

/-- Whether a value would make a class extend itself. -/
def extendsItself (target : Iri) (key : AttributeKey) : AttributeValue → Bool
  | .iriList parents => key == .parents && parents.contains target
  | _ => false

/-- Set or drop an attribute that is not a link. -/
def setAttribute (x : Execution) (target : Iri) (key : AttributeKey)
    (value : Option AttributeValue) : Except StoreError ResourceDiff :=
  if key.isLink then .error (.linkAttribute key)
  else
    (x.require target).bind fun _ =>
      match value with
      | none => x.change target fun r => r.remove key
      | some v =>
        if !key.accepts v then .error (.wrongShape key)
        else if extendsItself target key v then .error (.selfExtension target)
        else x.change target fun r => r.set key v

/-- The list with `moved` behind `after`, or in front; none if `after` is not another
element of the list. -/
def reorder (parts : List Iri) (moved : Iri) (after : Option Iri) : Option (List Iri) :=
  let rest := parts.filter (· ≠ moved)
  match after with
  | none => some (moved :: rest)
  | some anchor =>
    if rest.contains anchor then
      let i := rest.idxOf anchor + 1
      some (rest.take i ++ moved :: rest.drop i)
    else none

/-- Move a part within the list of its owner. -/
def setOrder (x : Execution) (owner moved : Iri) (after : Option Iri) :
    Except StoreError ResourceDiff :=
  (x.require owner).bind fun r =>
    if !r.parts.contains moved then .error (.notPart moved owner)
    else
      match reorder r.parts moved after with
      | some parts => x.change owner fun r => r.set .parts (.iriList parts)
      | none => .error (.anchorNotPart (after.getD "") owner)

/-- What is wrong with a root of a schema. -/
def rootFault? (x : Execution) (schema : Resource) (iri : Iri) (kind : Kind) (root : Iri) :
    Option StoreError :=
  if !schema.parts.contains root then some (.rootNotPart root iri)
  else
    match x.requireKind root kind.classKind with
    | .ok _ => none
    | .error e => some e

/-- Set the roots of a schema : classes of its layer out of its parts. -/
def setRoots (x : Execution) (schema : Iri) (roots : List Iri) :
    Except StoreError ResourceDiff :=
  (x.require schema).bind fun r =>
    match r.kind?.filter Kind.isSchema with
    | none => .error (.notSchema schema)
    | some kind =>
      match roots.findSome? (x.rootFault? r schema kind) with
      | some e => .error e
      | none => x.change schema fun r => r.set .roots (.iriList roots)

/-! ## Deletion -/

/-- Take a resource out of the lists of one holder, unless that is gone or going. -/
def detachFrom (x : Execution) (d : ResourceDiff) (iri : Iri) (holder : Option Iri) :
    Except StoreError ResourceDiff :=
  match holder with
  | none => .ok d
  | some holder =>
    if !x.resources.contains holder || d.deleted.contains holder then .ok d
    else d.edit x.resources holder fun h => (h.detach .parts iri).detach .roots iri

/-- Take a resource out of the lists of its owner and its schema. -/
def detach (x : Execution) (d : ResourceDiff) (r : Resource) : Except StoreError ResourceDiff :=
  (x.detachFrom d r.iri (r.iri? .owner)).bind fun d => x.detachFrom d r.iri (r.iri? .schema)

/-- Delete an end of an association. -/
def deleteEnd (x : Execution) (d : ResourceDiff) (iri : Iri) : Except StoreError ResourceDiff :=
  (match x.resources.get? iri with
    | some r => x.detach d r
    | none => .ok d).bind fun d => .ok (d.delete iri)

/-- What deleting a resource does to the resources that hold it, and to its ends. -/
def release (x : Execution) (target : Iri) (r : Resource) (kind : Kind) :
    Except StoreError ResourceDiff :=
  match kind with
  | .conceptualSchema | .structuralSchema =>
    if r.parts.isEmpty then .ok .empty else .error (.schemaInUse r.iri r.parts.length)
  | .conceptualClass | .structuralClass =>
    if r.parts.isEmpty then x.detach .empty r
    else .error (.classInUse r.iri r.parts.length)
  | .conceptualAssociation =>
    (r.parts.foldlM x.deleteEnd ResourceDiff.empty).bind fun d => x.detach d r
  | .conceptualAttribute | .structuralAttribute | .structuralAssociationEnd
  | .structuralClassReference => x.detach .empty r
  | .conceptualAssociationEnd => .error (.endInUse target)

/-- Delete a resource. -/
def delete (x : Execution) (target : Iri) : Except StoreError ResourceDiff :=
  (x.require target).bind fun r =>
    match r.kind? with
    | none => .error (.untyped target)
    | some kind => (x.release target r kind).bind fun d => .ok (d.delete target)

/-! ## All operations -/

/-- The diff of an operation, and the minter after it. -/
def run (x : Execution) (m : Minter) : Operation → Except StoreError ResourceDiff × Minter
  | .create kind owner attributes => x.create m kind owner attributes
  | .setAttribute target key value => (x.setAttribute target key value, m)
  | .setOrder owner moved after => (x.setOrder owner moved after, m)
  | .delete target => (x.delete target, m)
  | .setRoots schema roots => (x.setRoots schema roots, m)

end Execution

end DataSpec
