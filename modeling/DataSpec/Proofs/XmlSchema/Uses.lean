import DataSpec.XmlSchema.Basic

/-!
# What a schema refers to

A schema refers to types, as the types of elements, the members of unions and the bases of
extensions, and to groups (`XmlSchema.uses`). A type whose name is qualified as the names of
the schema itself has to be among its types, or to be the type of texts with a language that
the schema defines; a group has to be among its groups (`XmlSchema.Resolves`).
-/

set_option autoImplicit false

namespace DataSpec.XmlSchema

/-- A reference by name. -/
inductive Use where
  | type (name : QName)
  | group (name : QName)
deriving DecidableEq

mutual

/-- What an element refers to. -/
def Element.uses : Element → List Use
  | ⟨_, none, _⟩ => []
  | ⟨_, some type, _⟩ => type.uses

/-- What the type of an element refers to. -/
def ElementType.uses : ElementType → List Use
  | .named name => [.type name]
  | .complex type => type.uses
  | .union names => names.map .type

/-- What a type refers to. -/
def ComplexType.uses : ComplexType → List Use
  | ⟨_, _, _, item⟩ => item.uses

/-- What the contents of a type refer to. -/
def Item.uses : Item → List Use
  | .sequence contents => contentsUses contents
  | .group name => [.group name]
  | .extension base contents => .type base :: contentsUses contents

/-- What a part of a sequence refers to. -/
def Content.uses : Content → List Use
  | .element _ e => e.uses
  | .item _ i => i.uses

/-- What the parts of a sequence refer to. -/
def contentsUses : List Content → List Use
  | [] => []
  | c :: rest => c.uses ++ contentsUses rest

end

theorem ComplexType.uses_eq (t : ComplexType) : t.uses = t.item.uses := by
  cases t
  rfl

theorem contentsUses_append (contents contents' : List Content) :
    contentsUses (contents ++ contents') = contentsUses contents ++ contentsUses contents' := by
  induction contents with
  | nil => rfl
  | cons c rest ih => rw [List.cons_append, contentsUses, contentsUses, ih, List.append_assoc]

/-- Everything that a schema refers to. -/
def uses (schema : XmlSchema) : List Use :=
  schema.elements.flatMap Element.uses ++ schema.types.flatMap ComplexType.uses ++
    schema.groups.flatMap fun g => contentsUses g.contents

/-- Whether the schema has a type with a name, be it that of texts with a language. -/
def HasType (schema : XmlSchema) (name : String) : Prop :=
  (∃ t ∈ schema.types, t.name = some name) ∨
    name = "langString" ∧ schema.definesLangString = true

/-- Whether the schema has what is referred to. A type with another qualifier than the names
of the schema is not its own. -/
def Resolves (schema : XmlSchema) : Use → Prop
  | .type q => q.qualifier = schema.qualifier → schema.HasType q.name
  | .group q => q.qualifier = schema.qualifier ∧ ∃ g ∈ schema.groups, g.name = q.name

instance (schema : XmlSchema) (name : String) : Decidable (schema.HasType name) :=
  inferInstanceAs (Decidable (_ ∨ _))

instance (schema : XmlSchema) : DecidablePred schema.Resolves
  | .type _ => inferInstanceAs (Decidable (_ → _))
  | .group _ => inferInstanceAs (Decidable (_ ∧ _))

end DataSpec.XmlSchema
