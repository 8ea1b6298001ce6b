import DataSpec.Resource.Value

/-!
# XML schemas

An `XmlSchema` declares the elements of a document. The types of elements are written in
place or have names; a group is a named part of a type. Names may belong to the
namespace of another schema, which is imported.
-/

set_option autoImplicit false

namespace DataSpec

namespace XmlSchema

/-- A name, with the short name of its namespace if it has one. -/
structure QName where
  qualifier : Option String
  name : String
deriving DecidableEq

namespace QName

/-- A name that XML Schema defines. -/
def xs (name : String) : QName := ⟨some "xs", name⟩

/-- The written form. -/
def text (q : QName) : String :=
  match q.qualifier with
  | some qualifier => qualifier ++ ":" ++ q.name
  | none => q.name

end QName

/-- What is said to people about an element or a type. -/
structure Note where
  /-- The concept that is meant. -/
  concept : Option String
  text : String
deriving DecidableEq

mutual

/-- An element. A name that belongs to a namespace refers to an element declared
elsewhere. -/
structure Element where
  name : QName
  type : Option ElementType
  note : Option Note

/-- The type of an element. -/
inductive ElementType where
  /-- A type with a name. -/
  | named (name : QName)
  | complex (type : ComplexType)
  /-- A value of one of several types. -/
  | union (names : List QName)

/-- A type of elements that hold elements. -/
structure ComplexType where
  name : Option String
  isAbstract : Bool
  note : Option Note
  item : Item

/-- What a type or a part of it consists of. -/
inductive Item where
  | sequence (contents : List Content)
  /-- The contents of a group. -/
  | group (name : QName)
  /-- More contents after those of a base type. -/
  | extension (base : QName) (contents : List Content)

/-- A part of a sequence, with the number of times that it may occur. -/
inductive Content where
  | element (bounds : Cardinality) (e : Element)
  | item (bounds : Cardinality) (i : Item)

end

/-- Exactly once. -/
def once : Cardinality := ⟨1, some 1⟩

/-- A part that is there once. -/
def Content.once (i : Item) : Content := .item XmlSchema.once i

/-- A schema that is imported. -/
structure Import where
  /-- The namespace of the schema. -/
  uri : Option String
  /-- The short name of the namespace. -/
  qualifier : Option String
  /-- Where the schema is. -/
  location : String
deriving DecidableEq

/-- A named part of types. -/
structure Group where
  name : String
  contents : List Content

end XmlSchema

/-- An XML schema. -/
structure XmlSchema where
  /-- The namespace that the schema defines. -/
  uri : Option String
  /-- The short name of the namespace. -/
  qualifier : Option String
  imports : List XmlSchema.Import
  /-- Whether the type of texts with a language is defined. -/
  definesLangString : Bool
  groups : List XmlSchema.Group
  /-- The types with names. -/
  types : List XmlSchema.ComplexType
  elements : List XmlSchema.Element

end DataSpec
