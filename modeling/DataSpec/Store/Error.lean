import DataSpec.Store.Operation

/-!
# Why a store refuses an operation

A `StoreError` is the reason for which an operation is refused, with what it is about.
Its `message` has the class of the reason in front.
-/

set_option autoImplicit false

namespace DataSpec

/-- The handle of a member of a federation, a number of 64 bits. -/
structure StoreId where
  ofWord ::
  word : UInt64
deriving DecidableEq

/-- The handle with a number. -/
def StoreId.mk (n : Nat) : StoreId := ⟨UInt64.ofNat n⟩

/-- The number of a handle. -/
def StoreId.number (id : StoreId) : Nat := id.word.toNat

/-- The text of a handle. -/
def StoreId.text (id : StoreId) : String := "store-" ++ toString id.number

/-- Why an operation on a store is refused. -/
inductive StoreError where
  /-- The store does not carry out operations of this kind. -/
  | unknownOperation (tag : OperationTag)
  /-- The attribute is a link that the store keeps itself. -/
  | linkAttribute (key : AttributeKey)
  /-- The value does not have the shape of the key. -/
  | wrongShape (key : AttributeKey)
  /-- A schema was to be created within an owner. -/
  | ownedSchema (owner : Iri)
  /-- A resource was to be created without its owner. -/
  | noOwner (kind : Kind)
  /-- An association end was to be created without its association. -/
  | loneEnd
  /-- An association was to be created without exactly two classes to join. -/
  | notTwoEnds
  /-- Every number of the kind is taken. -/
  | noNumber (kind : Kind)
  /-- The class names no schema. -/
  | classWithoutSchema (iri : Iri)
  /-- The class was to extend itself. -/
  | selfExtension (iri : Iri)
  /-- The resource to delete has no kind. -/
  | untyped (iri : Iri)
  /-- The schema to delete still holds resources. -/
  | schemaInUse (iri : Iri) (parts : Nat)
  /-- The class to delete still holds resources. -/
  | classInUse (iri : Iri) (parts : Nat)
  /-- The association end to delete goes only with its association. -/
  | endInUse (iri : Iri)
  /-- The operation created, changed or deleted one resource at once. -/
  | overlap (tag : OperationTag)
  /-- The federation has no member. -/
  | noMembers
  /-- The store is in the federation already. -/
  | alreadyMember
  /-- There is no such resource. -/
  | missing (iri : Iri)
  /-- The resource does not have the kind. -/
  | notOfKind (iri : Iri) (kind : Kind)
  /-- The resource to move is not a part of the owner. -/
  | notPart (iri : Iri) (owner : Iri)
  /-- The resource to move behind is not a part of the owner. -/
  | anchorNotPart (iri : Iri) (owner : Iri)
  /-- The resource is not a schema. -/
  | notSchema (iri : Iri)
  /-- The root is not a part of the schema. -/
  | rootNotPart (iri : Iri) (schema : Iri)
  /-- The resource to change is deleted by the same operation. -/
  | beingDeleted (iri : Iri)
  /-- No member of the federation has the resource. -/
  | unowned (iri : Iri)
  /-- The handle is not that of a member. -/
  | notMember (id : StoreId)
  /-- The store has no file to load from or save to. -/
  | notConnected
  /-- The file of the store does not hold a snapshot. -/
  | badSnapshot (file : String)
deriving DecidableEq

namespace StoreError

/-- The classes of reasons. -/
inductive Category where
  | unknownOperation
  | preconditionFailed
  | invalidReference
  | connector
deriving DecidableEq

/-- What the message of a class begins with. -/
def Category.heading : Category → String
  | unknownOperation => "No executor registered for operation: "
  | preconditionFailed => "Precondition failed: "
  | invalidReference => "Invalid reference: "
  | connector => "Connector error: "

/-- The class of a reason. -/
def category : StoreError → Category
  | unknownOperation _ => .unknownOperation
  | linkAttribute _ | wrongShape _ | ownedSchema _ | noOwner _ | loneEnd | notTwoEnds
  | noNumber _ | classWithoutSchema _ | selfExtension _ | untyped _ | schemaInUse .. | classInUse ..
  | endInUse _ | overlap _ | noMembers | alreadyMember => .preconditionFailed
  | missing _ | notOfKind .. | notPart .. | anchorNotPart .. | notSchema _ | rootNotPart ..
  | beingDeleted _ | unowned _ | notMember _ => .invalidReference
  | notConnected | badSnapshot _ => .connector

/-- The reason without its class. -/
def detail : StoreError → String
  | unknownOperation tag => tag.name
  | linkAttribute key => "attribute " ++ key.name ++ " is maintained by the store"
  | wrongShape key => "attribute " ++ key.name ++ " has the wrong value type"
  | ownedSchema owner => "a schema cannot be owned, got owner " ++ owner
  | noOwner kind => "a " ++ kind.name ++ " must be created inside an owner"
  | loneEnd => "association ends are created together with their association"
  | notTwoEnds => "an association needs exactly two participant classes"
  | noNumber kind => "no identifier is left for a " ++ kind.name
  | classWithoutSchema iri => "class " ++ iri ++ " is not part of a schema"
  | selfExtension iri => "class " ++ iri ++ " cannot extend itself"
  | untyped iri => iri ++ " has no type"
  | schemaInUse iri parts =>
    "only an empty schema can be deleted, " ++ iri ++ " still owns " ++ toString parts
      ++ " resources"
  | classInUse iri parts =>
    "only an empty class can be deleted, " ++ iri ++ " still owns " ++ toString parts
      ++ " resources"
  | endInUse iri => "association end " ++ iri ++ " can only be deleted with its association"
  | overlap tag => tag.name ++ " produced overlapping created, changed and deleted sets"
  | noMembers => "federated store has no member stores"
  | alreadyMember => "store is already a member of this federation"
  | missing iri => "resource " ++ iri ++ " does not exist"
  | notOfKind iri kind => iri ++ " is not a " ++ kind.name
  | notPart iri owner => iri ++ " is not a part of " ++ owner
  | anchorNotPart iri owner => "anchor " ++ iri ++ " is not a part of " ++ owner
  | notSchema iri => iri ++ " is not a schema"
  | rootNotPart iri schema => "root " ++ iri ++ " is not a part of schema " ++ schema
  | beingDeleted iri => iri ++ " is being deleted"
  | unowned iri => "no member store owns " ++ iri
  | notMember id => id.text ++ " is not a member"
  | notConnected => "store is not synchronized with a connector"
  | badSnapshot file => file ++ ": not a store snapshot"

/-- The text of a reason. -/
def message (e : StoreError) : String := e.category.heading ++ e.detail

end StoreError

end DataSpec
