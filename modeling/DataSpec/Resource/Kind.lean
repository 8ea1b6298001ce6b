import DataSpec.SortedMap

/-!
# Kinds of resources

There are two layers, conceptual and structural, and each has a schema, which holds all
resources of a data model, classes, and the parts of classes. Kinds are ordered as they
are declared; every table by kind is written in that order.
-/

set_option autoImplicit false

namespace DataSpec

/-- The role of a resource in a data model. -/
inductive Kind where
  | conceptualSchema
  | conceptualClass
  | conceptualAttribute
  | conceptualAssociation
  | conceptualAssociationEnd
  | structuralSchema
  | structuralClass
  | structuralAttribute
  | structuralAssociationEnd
  | structuralClassReference
deriving DecidableEq

namespace Kind

/-- All kinds in order. -/
def all : List Kind :=
  [conceptualSchema, conceptualClass, conceptualAttribute, conceptualAssociation,
    conceptualAssociationEnd, structuralSchema, structuralClass, structuralAttribute,
    structuralAssociationEnd, structuralClassReference]

/-- The written form of a kind. -/
def name : Kind → String
  | conceptualSchema => "conceptual-schema"
  | conceptualClass => "conceptual-class"
  | conceptualAttribute => "conceptual-attribute"
  | conceptualAssociation => "conceptual-association"
  | conceptualAssociationEnd => "conceptual-association-end"
  | structuralSchema => "structural-schema"
  | structuralClass => "structural-class"
  | structuralAttribute => "structural-attribute"
  | structuralAssociationEnd => "structural-association-end"
  | structuralClassReference => "structural-class-reference"

/-- The kind with a written form. -/
def ofName? (s : String) : Option Kind := all.find? fun k => k.name = s

/-- The segment that identifiers of resources of this kind have before their number. -/
def segment : Kind → String
  | conceptualSchema => "schema"
  | conceptualClass => "class"
  | conceptualAttribute => "attribute"
  | conceptualAssociation => "association"
  | conceptualAssociationEnd => "association-end"
  | structuralSchema => "psm-schema"
  | structuralClass => "psm-class"
  | structuralAttribute => "psm-attribute"
  | structuralAssociationEnd => "psm-association-end"
  | structuralClassReference => "psm-class-reference"

/-- Schemas of either layer. -/
def isSchema : Kind → Bool
  | conceptualSchema | structuralSchema => true
  | _ => false

/-- Classes of either layer. -/
def isClass : Kind → Bool
  | conceptualClass | structuralClass => true
  | _ => false

/-- Kinds of the conceptual layer. -/
def isConceptual : Kind → Bool
  | conceptualSchema | conceptualClass | conceptualAttribute | conceptualAssociation
  | conceptualAssociationEnd => true
  | _ => false

/-- The schema of the same layer. -/
def schemaKind (k : Kind) : Kind := if k.isConceptual then conceptualSchema else structuralSchema

/-- The class of the same layer. -/
def classKind (k : Kind) : Kind := if k.isConceptual then conceptualClass else structuralClass

/-- The place of a kind in the order. -/
def rank : Kind → Nat
  | conceptualSchema => 0
  | conceptualClass => 1
  | conceptualAttribute => 2
  | conceptualAssociation => 3
  | conceptualAssociationEnd => 4
  | structuralSchema => 5
  | structuralClass => 6
  | structuralAttribute => 7
  | structuralAssociationEnd => 8
  | structuralClassReference => 9

theorem getElem?_rank (k : Kind) : all[k.rank]? = some k := by cases k <;> rfl

theorem rank_injective (a b : Kind) (h : a.rank = b.rank) : a = b := by
  have ha := getElem?_rank a
  rw [h, getElem?_rank b] at ha
  exact (Option.some.inj ha).symm

instance : KeyOrder Kind := KeyOrder.ofRank rank rank_injective

@[simp]
theorem ofName?_name (k : Kind) : ofName? k.name = some k := by cases k <;> decide

end Kind

end DataSpec
