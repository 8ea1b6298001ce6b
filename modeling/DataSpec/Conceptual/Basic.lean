import DataSpec.Resource.Basic

/-!
# Conceptual models

The classes of a data model as people think of them, with their properties. A property
has a datatype or leads to a class. A model is made of resources
(`DataSpec.Conceptual.Builder`) and holds nothing else.
-/

set_option autoImplicit false

namespace DataSpec

/-- Where a conceptual property leads : to values of a datatype, if it is known, or to a
class. -/
inductive ConceptualRange where
  | datatype (iri : Option Iri)
  | class_ (iri : Iri)
deriving DecidableEq

/-- A property of a conceptual class. -/
structure ConceptualProperty where
  iri : Iri
  /-- The concept that the property stands for. -/
  concept : Option Iri
  label : LanguageText
  description : LanguageText
  cardinality : Option Cardinality
  range : ConceptualRange
deriving DecidableEq

/-- A conceptual class. -/
structure ConceptualClass where
  iri : Iri
  /-- The concept that the class stands for. -/
  concept : Option Iri
  label : LanguageText
  description : LanguageText
  isCodelist : Bool
  parents : List Iri
  properties : List ConceptualProperty
deriving DecidableEq

/-- A conceptual model. The model without a schema stands in where there is none. -/
structure ConceptualModel where
  iri : Option Iri
  label : LanguageText
  description : LanguageText
  classes : SortedMap Iri ConceptualClass
deriving DecidableEq

namespace ConceptualModel

/-- The model without a schema and without classes. -/
def empty : ConceptualModel := ⟨none, .empty, .empty, .empty⟩

/-- The class with an identifier. -/
def class? (m : ConceptualModel) (iri : Iri) : Option ConceptualClass := m.classes.get? iri

/-- All properties, by class. -/
def properties (m : ConceptualModel) : List ConceptualProperty :=
  m.classes.values.flatMap ConceptualClass.properties

/-- The first property with an identifier. -/
def property? (m : ConceptualModel) (iri : Iri) : Option ConceptualProperty :=
  m.properties.find? fun p => p.iri = iri

end ConceptualModel

end DataSpec
