import DataSpec.SortedMap

/-!
# Attribute keys

A resource has at most one value per key. The keys that tie resources together (`owner`,
`schema`, `parts`, `roots`, `ends`) are links that the store keeps itself. Keys are
ordered as they are declared, and attributes are written in that order.
-/

set_option autoImplicit false

namespace DataSpec

/-- The name of an attribute. -/
inductive AttributeKey where
  | humanLabel
  | humanDescription
  | technicalLabel
  /-- The conceptual resource that a structural resource stands for. -/
  | interpretation
  /-- The concept that a conceptual class or property stands for. -/
  | conceptIri
  | owner
  | schema
  | parts
  | roots
  /-- The classes that a class extends. -/
  | parents
  | datatype
  /-- Classes, class references or datatypes at an association end. -/
  | range
  /-- The classes that a conceptual association joins, given when it is created. -/
  | ends
  | cardinality
  | isCodelist
  | dematerialize
  | baseIri
  | xmlNamespace
  | xmlPrefix
  | referencedSchema
  | referencedClass
deriving DecidableEq

namespace AttributeKey

/-- All keys in order. -/
def all : List AttributeKey :=
  [humanLabel, humanDescription, technicalLabel, interpretation, conceptIri, owner, schema,
    parts, roots, parents, datatype, range, ends, cardinality, isCodelist, dematerialize,
    baseIri, xmlNamespace, xmlPrefix, referencedSchema, referencedClass]

/-- The written form of a key. -/
def name : AttributeKey → String
  | humanLabel => "human-label"
  | humanDescription => "human-description"
  | technicalLabel => "technical-label"
  | interpretation => "interpretation"
  | conceptIri => "concept-iri"
  | owner => "owner"
  | schema => "schema"
  | parts => "parts"
  | roots => "roots"
  | parents => "extends"
  | datatype => "datatype"
  | range => "range"
  | ends => "ends"
  | cardinality => "cardinality"
  | isCodelist => "is-codelist"
  | dematerialize => "dematerialize"
  | baseIri => "base-iri"
  | xmlNamespace => "namespace"
  | xmlPrefix => "namespace-prefix"
  | referencedSchema => "referenced-schema"
  | referencedClass => "referenced-class"

/-- The key with a written form. -/
def ofName? (s : String) : Option AttributeKey := all.find? fun k => k.name = s

/-- Links that the store keeps itself. -/
def isLink : AttributeKey → Bool
  | owner | schema | parts | roots | ends => true
  | _ => false

/-- The place of a key in the order. -/
def rank : AttributeKey → Nat
  | humanLabel => 0
  | humanDescription => 1
  | technicalLabel => 2
  | interpretation => 3
  | conceptIri => 4
  | owner => 5
  | schema => 6
  | parts => 7
  | roots => 8
  | parents => 9
  | datatype => 10
  | range => 11
  | ends => 12
  | cardinality => 13
  | isCodelist => 14
  | dematerialize => 15
  | baseIri => 16
  | xmlNamespace => 17
  | xmlPrefix => 18
  | referencedSchema => 19
  | referencedClass => 20

theorem getElem?_rank (k : AttributeKey) : all[k.rank]? = some k := by cases k <;> rfl

theorem rank_injective (a b : AttributeKey) (h : a.rank = b.rank) : a = b := by
  have ha := getElem?_rank a
  rw [h, getElem?_rank b] at ha
  exact (Option.some.inj ha).symm

instance : KeyOrder AttributeKey := KeyOrder.ofRank rank rank_injective

@[simp]
theorem ofName?_name (k : AttributeKey) : ofName? k.name = some k := by cases k <;> decide

end AttributeKey

end DataSpec
