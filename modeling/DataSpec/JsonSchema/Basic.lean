import DataSpec.SortedMap

/-!
# JSON schemas

A `JsonSchema` says of which shape the values of a JSON document are. Its definitions are
trees; a definition that occurs inside itself has a name among `defs`, and `Shape.ref`
refers to it.

References are texts in the end, of which nobody can tell where they come from : another
document may be published at `#/$defs/x`. While a schema is made they are of type
`Reference`, which keeps the two kinds apart, and `JsonSchema.mapRefs` writes them out.
-/

set_option autoImplicit false

namespace DataSpec

namespace JsonSchema

mutual

/-- What is said about a value, with references of type `ρ`. -/
structure Definition (ρ : Type) where
  title : Option String
  description : Option String
  shape : Shape ρ

/-- The shape of a value. -/
inductive Shape (ρ : Type) where
  /-- An object, with its properties in order and the names of those it needs. -/
  | object (properties : List (String × Definition ρ)) (required : List String)
  /-- An array, with the least and the greatest number of items. -/
  | array (items : Definition ρ) (min : Option UInt32) (max : Option UInt32)
  /-- A text, in a format that has a name. -/
  | text (format : Option String)
  | integer
  | number
  | boolean
  /-- An object of texts by language. -/
  | languageMap
  /-- A value that one of the definitions describes. -/
  | anyOf (alternatives : List (Definition ρ))
  /-- A value that a definition elsewhere describes. -/
  | ref (target : ρ)
  /-- Any value. -/
  | any

end

/-- What a definition refers to. -/
inductive Reference where
  /-- A named definition of the same schema. -/
  | named (name : String)
  /-- Another document, by its way. -/
  | document (way : String)
deriving DecidableEq

/-- The written form of a reference. -/
def Reference.text : Reference → String
  | named name => "#/$defs/" ++ name
  | document way => way

namespace Definition

variable {ρ : Type}

/-- A shape without words about it. -/
def plain (s : Shape ρ) : Definition ρ := ⟨none, none, s⟩

/-- Give a definition a title and a description in place of those that it has. -/
def annotate (d : Definition ρ) (title description : Option String) : Definition ρ :=
  { d with title, description }

/-- A value that one of the definitions describes; of one definition, itself. -/
def anyOf : List (Definition ρ) → Definition ρ
  | [d] => d
  | ds => plain (.anyOf ds)

end Definition

/-! ## Writing out references -/

mutual

/-- A definition with its references changed. -/
def Definition.mapRefs {ρ σ : Type} (f : ρ → σ) : Definition ρ → Definition σ
  | ⟨title, description, shape⟩ => ⟨title, description, shape.mapRefs f⟩

/-- A shape with its references changed. -/
def Shape.mapRefs {ρ σ : Type} (f : ρ → σ) : Shape ρ → Shape σ
  | .object properties required => .object (mapPropertyRefs f properties) required
  | .array items min max => .array (items.mapRefs f) min max
  | .text format => .text format
  | .integer => .integer
  | .number => .number
  | .boolean => .boolean
  | .languageMap => .languageMap
  | .anyOf alternatives => .anyOf (mapListRefs f alternatives)
  | .ref target => .ref (f target)
  | .any => .any

/-- Properties with their references changed. -/
def mapPropertyRefs {ρ σ : Type} (f : ρ → σ) :
    List (String × Definition ρ) → List (String × Definition σ)
  | [] => []
  | (name, d) :: rest => (name, d.mapRefs f) :: mapPropertyRefs f rest

/-- Definitions with their references changed. -/
def mapListRefs {ρ σ : Type} (f : ρ → σ) : List (Definition ρ) → List (Definition σ)
  | [] => []
  | d :: rest => d.mapRefs f :: mapListRefs f rest

end

end JsonSchema

/-- A JSON schema; its references are texts, unless it is said otherwise. -/
structure JsonSchema (ρ : Type := String) where
  /-- The dialect in which it is written. -/
  dialect : Option String
  /-- Where it is published. -/
  id : Option String
  root : JsonSchema.Definition ρ
  /-- The definitions with names. -/
  defs : SortedMap String (JsonSchema.Definition ρ)

/-- A schema with its references changed. -/
def JsonSchema.mapRefs {ρ σ : Type} (f : ρ → σ) (s : JsonSchema ρ) : JsonSchema σ where
  dialect := s.dialect
  id := s.id
  root := s.root.mapRefs f
  defs := s.defs.mapValues fun _ d => d.mapRefs f

end DataSpec
