import DataSpec.Model.Error
import DataSpec.Text.Segments

/-!
# Structural models

The classes of one structural schema, as documents describe them, with the classes of
other schemas that they lead to. Classes refer to each other by identifier, so a model
may be cyclic. `StructuralProperty.range` says whether a property leads to datatypes or
to classes; other types of properties have no meaning.
-/

set_option autoImplicit false

namespace DataSpec

/-- A type of a property : a datatype, which may be left open, or a class. -/
inductive PropertyType where
  | datatype (iri : Option Iri)
  | class_ (iri : Iri)
deriving DecidableEq

namespace PropertyType

/-- The class, if the type is one. -/
def class? : PropertyType → Option Iri
  | class_ iri => some iri
  | datatype _ => none

/-- The datatype, if the type is one. -/
def datatype? : PropertyType → Option (Option Iri)
  | datatype iri => some iri
  | class_ _ => none

end PropertyType

/-- Where a property leads. -/
inductive PropertyRange where
  | datatypes (iris : List (Option Iri))
  | classes (iris : List Iri)
deriving DecidableEq

/-- A property of a structural class. -/
structure StructuralProperty where
  iri : Iri
  /-- The conceptual property that it stands for. -/
  pim : Option Iri
  /-- The concept that it stands for. -/
  cim : Option Iri
  label : LanguageText
  description : LanguageText
  technicalLabel : Option String
  /-- The bounds, none until they are stated or taken over. -/
  cardinality : Option Cardinality
  types : List PropertyType
  /-- Whether the property is to be replaced by the properties of its class. -/
  dematerialize : Bool
  /-- The properties that were replaced by this one, the outermost first. -/
  path : List Iri
deriving DecidableEq

namespace StructuralProperty

/-- The name in documents. -/
def name (p : StructuralProperty) : String := p.technicalLabel.getD (Text.lastSegment p.iri)

/-- The bounds, or any number if none are stated. -/
def bounds (p : StructuralProperty) : Cardinality := p.cardinality.getD .any

/-- The classes among the types. -/
def classes (p : StructuralProperty) : List Iri := p.types.filterMap PropertyType.class?

/-- The datatypes among the types. -/
def datatypes (p : StructuralProperty) : List (Option Iri) :=
  p.types.filterMap PropertyType.datatype?

/-- Where the property leads. -/
def range (p : StructuralProperty) : Except ModelError PropertyRange :=
  match p.datatypes, p.classes with
  | [], [] => .error (.noDatatype p.iri)
  | _ :: _, _ :: _ => .error (.mixedRange p.iri)
  | [], classes => .ok (.classes classes)
  | datatypes, [] => .ok (.datatypes datatypes)

end StructuralProperty

/-- A structural class. -/
structure StructuralClass where
  iri : Iri
  /-- The conceptual class that it stands for. -/
  pim : Option Iri
  /-- The concept that it stands for. -/
  cim : Option Iri
  label : LanguageText
  description : LanguageText
  technicalLabel : Option String
  isCodelist : Bool
  parents : List Iri
  /-- The parents whose properties are among those of the class. -/
  inheritsFrom : List Iri
  properties : List StructuralProperty
  /-- The structural schema that defines the class. -/
  schema : Iri
  /-- The specification that publishes that schema, once it is known. -/
  specification : Option Iri
  /-- Whether another schema than that of the model defines the class. -/
  isReferenced : Bool
deriving DecidableEq

namespace StructuralClass

/-- The name in documents. -/
def name (c : StructuralClass) : String := c.technicalLabel.getD (Text.lastSegment c.iri)

end StructuralClass

/-- A structural model. -/
structure StructuralModel where
  iri : Iri
  label : LanguageText
  description : LanguageText
  technicalLabel : Option String
  roots : List Iri
  classes : SortedMap Iri StructuralClass
  /-- The specification that publishes the schema, once it is known. -/
  specification : Option Iri
  /-- The XML namespace. -/
  xmlNamespace : Option String
  /-- The usual short name of the XML namespace. -/
  xmlPrefix : Option String
deriving DecidableEq

namespace StructuralModel

/-- The class with an identifier. -/
def class? (m : StructuralModel) (iri : Iri) : Option StructuralClass := m.classes.get? iri

/-- A class that has to be in the model. -/
def requireClass (m : StructuralModel) (iri : Iri) : Except ModelError StructuralClass :=
  match m.class? iri with
  | some c => .ok c
  | none => .error (.missingResource iri)

/-- The root classes in order. -/
def rootClasses (m : StructuralModel) : Except ModelError (List StructuralClass) :=
  m.roots.mapM m.requireClass

/-- Whether another schema defines a class. -/
def isForeign (m : StructuralModel) (c : StructuralClass) : Bool := decide (c.schema ≠ m.iri)

/-- The model with every class changed by `f`. -/
def mapClasses (m : StructuralModel) (f : StructuralClass → StructuralClass) : StructuralModel :=
  { m with classes := m.classes.mapValues fun _ c => f c }

/-- Whether a property of a class is one of a class it inherits from. -/
def isInherited (m : StructuralModel) (c : StructuralClass) (p : StructuralProperty) : Bool :=
  (c.inheritsFrom.filterMap m.class?).any fun parent => parent.properties.any fun q => q.iri = p.iri

/-- The properties of a class that it does not inherit. -/
def ownProperties (m : StructuralModel) (c : StructuralClass) : List StructuralProperty :=
  c.properties.filter fun p => !m.isInherited c p

end StructuralModel

end DataSpec
