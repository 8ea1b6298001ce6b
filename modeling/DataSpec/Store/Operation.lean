import DataSpec.Resource.Basic

/-!
# Operations

An operation is a request to change a store. It is plain data : what it does is said in
`DataSpec.Store.Execution`, and which store it goes to is decided by `Operation.routingIri?`.
-/

set_option autoImplicit false

namespace DataSpec

/-- The kinds of operations. -/
inductive OperationTag where
  | create
  | setAttribute
  | setOrder
  | delete
  | setRoots
deriving DecidableEq

namespace OperationTag

/-- All kinds of operations. -/
def all : List OperationTag := [create, setAttribute, setOrder, delete, setRoots]

/-- The written form. -/
def name : OperationTag → String
  | create => "create"
  | setAttribute => "set-attribute"
  | setOrder => "set-order"
  | delete => "delete"
  | setRoots => "set-roots"

/-- The kind of operation with a written form. -/
def ofName? (s : String) : Option OperationTag := all.find? fun t => t.name = s

@[simp]
theorem ofName?_name (t : OperationTag) : ofName? t.name = some t := by cases t <;> decide

end OperationTag

/-- A request to change a store. -/
inductive Operation where
  /-- Create a resource within an owner. -/
  | create (kind : Kind) (owner : Option Iri) (attributes : Attributes)
  /-- Set an attribute, or drop it. -/
  | setAttribute (target : Iri) (key : AttributeKey) (value : Option AttributeValue)
  /-- Move a part of an owner behind another part, or to the front. -/
  | setOrder (owner : Iri) (moved : Iri) (after : Option Iri)
  /-- Delete a resource. -/
  | delete (target : Iri)
  /-- Set the root classes of a schema. -/
  | setRoots (schema : Iri) (roots : List Iri)
deriving DecidableEq

namespace Operation

/-- The kind of an operation. -/
def tag : Operation → OperationTag
  | create .. => .create
  | setAttribute .. => .setAttribute
  | setOrder .. => .setOrder
  | delete .. => .delete
  | setRoots .. => .setRoots

/-- The resource whose store the operation goes to; a creation without owner has none. -/
def routingIri? : Operation → Option Iri
  | create _ owner _ => owner
  | setAttribute target _ _ => some target
  | setOrder owner _ _ => some owner
  | delete target => some target
  | setRoots schema _ => some schema

/-! ## Building operations -/

/-- Give the new resource of a creation an attribute; other operations stay as they are. -/
def withAttribute (k : AttributeKey) (v : AttributeValue) : Operation → Operation
  | create kind owner attributes => create kind owner (attributes.insert k v)
  | op => op

/-- Set the label for people. -/
def setHumanLabel (target : Iri) (label : LanguageText) : Operation :=
  setAttribute target .humanLabel (some (.languageText label))

/-- Set the label for programs. -/
def setTechnicalLabel (target : Iri) (label : String) : Operation :=
  setAttribute target .technicalLabel (some (.text label))

/-- Set the datatype of an attribute. -/
def setDatatype (target datatype : Iri) : Operation :=
  setAttribute target .datatype (some (.iri datatype))

/-- Set the bounds of a property. -/
def setCardinality (target : Iri) (c : Cardinality) : Operation :=
  setAttribute target .cardinality (some (.cardinality c))

/-- Set the classes that a class extends. -/
def setParents (target : Iri) (parents : List Iri) : Operation :=
  setAttribute target .parents (some (.iriList parents))

/-! ## The written form -/

/-- The written form. -/
def toJson : Operation → Json
  | create kind owner attributes =>
    .obj ([("type", .str "create"), ("kind", .str kind.name)]
      ++ (owner.map fun o => ("owner", Json.str o)).toList
      ++ [("attributes", attributes.toJson)])
  | setAttribute target key value =>
    .obj [("type", .str "set-attribute"), ("target", .str target), ("key", .str key.name),
      ("value", Json.orNull (value.map AttributeValue.toJson))]
  | setOrder owner moved after =>
    .obj [("type", .str "set-order"), ("owner", .str owner), ("moved", .str moved),
      ("after", Json.strOrNull after)]
  | delete target => .obj [("type", .str "delete"), ("target", .str target)]
  | setRoots schema roots =>
    .obj [("type", .str "set-roots"), ("schema", .str schema), ("roots", .strings roots)]

/-- The operation of a kind whose members are those of a record. -/
def ofFields? (t : OperationTag) (v : Json) : Option Operation :=
  match t with
  | .create =>
    match v.record ["kind", "owner", "attributes"] with
    | some [kind, owner, attributes] =>
      match kind.required (Json.named? .buffered Kind.ofName?),
        owner.withDefault none (Json.option? Json.str?),
        attributes.withDefault .empty (Attributes.ofJson? .buffered) with
      | some kind, some owner, some attributes => some (create kind owner attributes)
      | _, _, _ => none
    | _ => none
  | .setAttribute =>
    match v.record ["target", "key", "value"] with
    | some [target, key, value] =>
      match target.required Json.str?, key.required (Json.named? .buffered AttributeKey.ofName?),
        value.optional (AttributeValue.ofJson? .buffered) with
      | some target, some key, some value => some (setAttribute target key value)
      | _, _, _ => none
    | _ => none
  | .setOrder =>
    match v.record ["owner", "moved", "after"] with
    | some [owner, moved, after] =>
      match owner.required Json.str?, moved.required Json.str?, after.optional Json.str? with
      | some owner, some moved, some after => some (setOrder owner moved after)
      | _, _, _ => none
    | _ => none
  | .delete =>
    match v.record ["target"] with
    | some [target] => (target.required Json.str?).map delete
    | _ => none
  | .setRoots =>
    match v.record ["schema", "roots"] with
    | some [schema, roots] =>
      match schema.required Json.str?, roots.required (Json.list? Json.str?) with
      | some schema, some roots => some (setRoots schema roots)
      | _, _ => none
    | _ => none

/-- The operation with a written form : an object whose member `type` names the kind, or
an array whose first item does. Its other parts are kept in a buffer till the kind is known,
so all of it has to be readable. -/
def ofJson? (v : Json) : Option Operation :=
  if !v.isReadable then none
  else
    match v with
    | .obj members =>
      match (Json.obj members).record ["type"] with
      | some [type] =>
        (type.required Json.str?).bind fun s =>
          (OperationTag.ofName? s).bind fun t => ofFields? t (.obj members)
      | _ => none
    | .arr (.str s :: rest) => (OperationTag.ofName? s).bind fun t => ofFields? t (.arr rest)
    | _ => none

end Operation

end DataSpec
