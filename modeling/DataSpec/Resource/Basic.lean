import DataSpec.Resource.Key
import DataSpec.Resource.Kind
import DataSpec.Resource.Value

/-!
# Resources

A resource is an identifier with the kinds it has, the first of which is its main one,
and its attributes. `AttributeKey.accepts` says which shape of value goes with a key;
the readers of a resource (`text?`, `iri?`, `iriList`, …) answer only for values of their
shape.
-/

set_option autoImplicit false

namespace DataSpec

/-- The shape of the values that a key stores. -/
def AttributeKey.shape : AttributeKey → AttributeValue.Shape
  | .humanLabel | .humanDescription => .languageText
  | .technicalLabel | .baseIri | .xmlNamespace | .xmlPrefix => .text
  | .interpretation | .conceptIri | .owner | .schema | .datatype | .referencedSchema
  | .referencedClass => .iri
  | .parts | .roots | .parents | .range | .ends => .iriList
  | .cardinality => .cardinality
  | .isCodelist | .dematerialize => .flag

/-- Whether a value has the shape that a key stores. -/
def AttributeKey.accepts (k : AttributeKey) (v : AttributeValue) : Bool :=
  decide (v.shape = k.shape)

/-- The attributes of a resource. -/
abbrev Attributes := SortedMap AttributeKey AttributeValue

namespace Attributes

/-- The written form. -/
def toJson (as : Attributes) : Json := .obj (as.toList.map fun e => (e.1.name, e.2.toJson))

/-- The attributes with a written form. -/
def ofJson? (origin : Json.Origin) (v : Json) : Option Attributes :=
  v.map? AttributeKey.ofName? (AttributeValue.ofJson? origin)

end Attributes

/-- A resource of a data model. -/
structure Resource where
  iri : Iri
  kinds : List Kind
  attributes : Attributes
deriving DecidableEq

namespace Resource

/-- A resource of one kind without attributes. -/
def new (iri : Iri) (kind : Kind) : Resource := ⟨iri, [kind], .empty⟩

/-- The main kind. -/
def kind? (r : Resource) : Option Kind := r.kinds.head?

/-- Whether the resource has a kind. -/
def is (r : Resource) (k : Kind) : Bool := r.kinds.contains k

/-- Give the resource another kind. -/
def addKind (r : Resource) (k : Kind) : Resource :=
  if r.is k then r else { r with kinds := r.kinds ++ [k] }

/-- The value of an attribute. -/
def get? (r : Resource) (k : AttributeKey) : Option AttributeValue := r.attributes.get? k

/-- Set an attribute. -/
def set (r : Resource) (k : AttributeKey) (v : AttributeValue) : Resource :=
  { r with attributes := r.attributes.insert k v }

/-- Drop an attribute. -/
def remove (r : Resource) (k : AttributeKey) : Resource :=
  { r with attributes := r.attributes.erase k }

/-- The text under a key. -/
def text? (r : Resource) (k : AttributeKey) : Option String :=
  match r.get? k with
  | some (.text s) => some s
  | _ => none

/-- The text by language under a key. -/
def languageText? (r : Resource) (k : AttributeKey) : Option LanguageText :=
  match r.get? k with
  | some (.languageText t) => some t
  | _ => none

/-- The text by language under a key, or the empty one. -/
def languageText (r : Resource) (k : AttributeKey) : LanguageText :=
  (r.languageText? k).getD .empty

/-- The identifier under a key. -/
def iri? (r : Resource) (k : AttributeKey) : Option Iri :=
  match r.get? k with
  | some (.iri iri) => some iri
  | _ => none

/-- The list under a key, or the empty one. -/
def iriList (r : Resource) (k : AttributeKey) : List Iri :=
  match r.get? k with
  | some (.iriList iris) => iris
  | _ => []

/-- The integer under a key. -/
def integer? (r : Resource) (k : AttributeKey) : Option Int64 :=
  match r.get? k with
  | some (.integer n) => some n
  | _ => none

/-- Whether the flag under a key is set. -/
def flag (r : Resource) (k : AttributeKey) : Bool :=
  match r.get? k with
  | some (.flag b) => b
  | _ => false

/-- The bounds of the resource. -/
def cardinality? (r : Resource) : Option Cardinality :=
  match r.get? .cardinality with
  | some (.cardinality c) => some c
  | _ => none

/-- The resources that this one holds, in order. -/
def parts (r : Resource) : List Iri := r.iriList .parts

/-- Change the list under a key; a value of another shape counts as the empty list. -/
def updateList (r : Resource) (k : AttributeKey) (f : List Iri → List Iri) : Resource :=
  r.set k (.iriList (f (r.iriList k)))

/-- Take an identifier out of the list under a key, if it is there. -/
def detach (r : Resource) (k : AttributeKey) (iri : Iri) : Resource :=
  if (r.iriList k).contains iri then r.updateList k fun l => l.filter (· ≠ iri) else r

/-- The written form. -/
def toJson (r : Resource) : Json :=
  .obj [("iri", .str r.iri), ("types", .arr (r.kinds.map fun k => .str k.name)),
    ("attributes", r.attributes.toJson)]

/-- The resource with a written form. -/
def ofJson? (v : Json) : Option Resource :=
  match v.record ["iri", "types", "attributes"] with
  | some [iri, types, attributes] =>
    match iri.required Json.str?, types.required (Json.list? (Json.named? .direct Kind.ofName?)),
      attributes.withDefault .empty (Attributes.ofJson? .direct) with
    | some iri, some kinds, some attributes => some ⟨iri, kinds, attributes⟩
    | _, _, _ => none
  | _ => none

end Resource

/-- Resources by identifier. The identifier under which a resource is kept may differ from
its own if the map was read from a file. -/
abbrev ResourceMap := SortedMap Iri Resource

namespace ResourceMap

/-- Resources under their own identifiers, of equal ones the last. -/
def ofResources (rs : List Resource) : ResourceMap := .ofList (rs.map fun r => (r.iri, r))

/-- The written form. -/
def toJson (m : ResourceMap) : Json := .obj (m.toList.map fun e => (e.1, e.2.toJson))

/-- The map with a written form. -/
def ofJson? (v : Json) : Option ResourceMap := v.map? some Resource.ofJson?

end ResourceMap

end DataSpec
