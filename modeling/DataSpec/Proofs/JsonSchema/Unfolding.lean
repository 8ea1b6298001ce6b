import DataSpec.JsonSchema.Inlining

/-!
# Schemas as trees

A schema with named definitions stands for a tree, in which the definitions are written in
place of the references to them. The tree may be infinite, so it is cut : `unfold` writes
objects out to a depth, and has `Stop.cut` where a deeper one would be. `inlineClass` is the
tree that a model stands for, with every class written out in place however often it was met
before, cut at the same depth.

Both leave out titles and descriptions.
-/

set_option autoImplicit false

namespace DataSpec.JsonSchema

/-- Where a tree ends before it is complete. -/
inductive Stop where
  /-- An object that is too deep. -/
  | cut
  /-- What another document describes. -/
  | document (way : String)
  /-- A name that does not stand for an object. -/
  | missing (name : String)
deriving DecidableEq

/-! ## Trees of schemas -/

/-- The trees of objects, by their properties and the names of those that they need. -/
abbrev ObjectTree := List (String × Definition Reference) → List String → Definition Stop

mutual

/-- The tree of a definition, from trees of objects and of named definitions. -/
def Definition.expand (object : ObjectTree) (named : String → Definition Stop) :
    Definition Reference → Definition Stop
  | ⟨_, _, shape⟩ => shape.expand object named

/-- The tree of a shape, from trees of objects and of named definitions. -/
def Shape.expand (object : ObjectTree) (named : String → Definition Stop) :
    Shape Reference → Definition Stop
  | .object properties required => object properties required
  | .array items min max => .plain (.array (items.expand object named) min max)
  | .text format => .plain (.text format)
  | .integer => .plain .integer
  | .number => .plain .number
  | .boolean => .plain .boolean
  | .languageMap => .plain .languageMap
  | .anyOf alternatives => .plain (.anyOf (expandAll object named alternatives))
  | .ref (.named name) => named name
  | .ref (.document way) => .plain (.ref (.document way))
  | .any => .plain .any

/-- The trees of definitions. -/
def expandAll (object : ObjectTree) (named : String → Definition Stop) :
    List (Definition Reference) → List (Definition Stop)
  | [] => []
  | d :: rest => d.expand object named :: expandAll object named rest

end

/-- The tree of a named definition, from trees of objects. -/
def unfoldNamed (defs : SortedMap String (Definition Reference)) (object : ObjectTree)
    (name : String) : Definition Stop :=
  match defs.get? name with
  | some ⟨_, _, .object properties required⟩ => object properties required
  | _ => .plain (.ref (.missing name))

/-- The tree of an object, to a depth. -/
def unfoldObject (defs : SortedMap String (Definition Reference)) : Nat → ObjectTree
  | 0, _, _ => .plain (.ref .cut)
  | n + 1, properties, required =>
    .plain (.object (properties.map fun e =>
      (e.1, e.2.expand (unfoldObject defs n) (unfoldNamed defs (unfoldObject defs n)))) required)

/-- The tree of a definition, to a depth. -/
def unfold (defs : SortedMap String (Definition Reference)) (n : Nat)
    (d : Definition Reference) : Definition Stop :=
  d.expand (unfoldObject defs n) (unfoldNamed defs (unfoldObject defs n))

/-- A reference to a named definition stands for the tree of that definition. -/
theorem unfold_localRef (defs : SortedMap String (Definition Reference)) (n : Nat) (name : String) :
    unfold defs n (Naming.localRef name) = unfoldNamed defs (unfoldObject defs n) name := rfl

/-- The title and the description of a definition are not in its tree. -/
theorem unfold_annotate (defs : SortedMap String (Definition Reference)) (n : Nat) :
    ∀ (d : Definition Reference) (title description : Option String),
      unfold defs n (d.annotate title description) = unfold defs n d
  | ⟨_, _, _⟩, _, _ => rfl

/-- Alternatives are expanded one by one. -/
theorem expandAll_eq_map (object : ObjectTree) (named : String → Definition Stop) :
    ∀ ds, expandAll object named ds = ds.map (Definition.expand object named)
  | [] => rfl
  | d :: ds => by rw [expandAll, expandAll_eq_map object named ds, List.map_cons]

/-- The tree of alternatives has the trees of each. -/
theorem unfold_anyOf (defs : SortedMap String (Definition Reference)) (n : Nat) :
    ∀ ds, unfold defs n (.anyOf ds) = .anyOf (ds.map (unfold defs n))
  | [] => rfl
  | [_] => rfl
  | d :: d' :: ds => by
    have h : unfold defs n (.anyOf (d :: d' :: ds)) =
        .plain (.anyOf (expandAll (unfoldObject defs n)
          (unfoldNamed defs (unfoldObject defs n)) (d :: d' :: ds))) := rfl
    rw [h, expandAll_eq_map]
    rfl

/-- Values of datatypes have nothing to unfold. -/
theorem unfold_datatypeShape (defs : SortedMap String (Definition Reference)) (n : Nat)
    (iri : Option Iri) :
    unfold defs n (.plain (datatypeShape iri)) = .plain (datatypeShape iri) := by
  unfold datatypeShape
  cases iri with
  | none => rfl
  | some iri =>
    simp only
    split <;> rfl

/-! ## Names in definitions -/

mutual

/-- The names to which a definition refers. -/
def Definition.localNames : Definition Reference → List String
  | ⟨_, _, shape⟩ => shape.localNames

/-- The names to which a shape refers. -/
def Shape.localNames : Shape Reference → List String
  | .object properties _ => propertyLocalNames properties
  | .array items _ _ => items.localNames
  | .anyOf alternatives => allLocalNames alternatives
  | .ref (.named name) => [name]
  | _ => []

/-- The names to which properties refer. -/
def propertyLocalNames : List (String × Definition Reference) → List String
  | [] => []
  | (_, d) :: rest => d.localNames ++ propertyLocalNames rest

/-- The names to which definitions refer. -/
def allLocalNames : List (Definition Reference) → List String
  | [] => []
  | d :: rest => d.localNames ++ allLocalNames rest

end

/-- The names in alternatives are those in each of them. -/
theorem localNames_anyOf :
    ∀ ds : List (Definition Reference), (Definition.anyOf ds).localNames = allLocalNames ds
  | [] => rfl
  | [d] => (List.append_nil d.localNames).symm
  | _ :: _ :: _ => rfl

/-- A title or a description adds no names. -/
theorem localNames_annotate :
    ∀ (d : Definition Reference) (title description : Option String),
      (d.annotate title description).localNames = d.localNames
  | ⟨_, _, _⟩, _, _ => rfl

/-- Nor does a datatype. -/
theorem localNames_datatypeShape (iri : Option Iri) :
    (Definition.plain (datatypeShape iri)).localNames = [] := by
  unfold datatypeShape
  cases iri with
  | none => rfl
  | some iri =>
    simp only
    split <;> rfl

theorem allLocalNames_datatypes : ∀ iris : List (Option Iri),
    allLocalNames (iris.map fun iri => .plain (datatypeShape iri)) = []
  | [] => rfl
  | iri :: iris => by
    rw [List.map_cons, allLocalNames, localNames_datatypeShape, allLocalNames_datatypes iris]
    rfl

/-- Whether there may be several values makes no difference to the names in them. -/
theorem localNames_ofProperty (p : Publication) (q : StructuralProperty)
    (value : Definition Reference) : (ofProperty p q value).localNames = value.localNames := by
  unfold ofProperty
  rw [localNames_annotate]
  split <;> rfl

/-! ## Classes that other documents describe -/

/-- Another document describes a class if the class is of another schema and the specification
that is noted for it publishes that schema. -/
theorem elsewhere?_eq_some_iff {p : Publication} {m : StructuralModel} {c : StructuralClass}
    {way : String} : elsewhere? p m c = some way ↔ c.schema ≠ m.iri ∧
      ∃ b, p.specifications.published? .jsonSchema c = some b ∧
        way = Text.relativePath p.artefact.publicUrl b.publicUrl := by
  unfold elsewhere? StructuralModel.isForeign Publication.reference?
  by_cases hc : c.schema = m.iri
  · simp [hc]
  · rw [if_pos (decide_eq_true hc), Option.map_eq_some_iff, and_iff_right hc]
    exact exists_congr fun b => and_congr_right fun _ => eq_comm

/-! ## Trees of models -/

/-- The tree of the values of a property, from the tree of one of them. -/
def severalOf (q : StructuralProperty) (value : Definition Stop) : Definition Stop :=
  let bounds := q.bounds
  if bounds.isMultiple then
    .plain (.array value (if 0 < bounds.min then some bounds.min else none) bounds.max)
  else value

/-- A property is unfolded where its values are. -/
theorem unfold_ofProperty (defs : SortedMap String (Definition Reference)) (n : Nat)
    (p : Publication) (q : StructuralProperty) (value : Definition Reference) :
    unfold defs n (ofProperty p q value) = severalOf q (unfold defs n value) := by
  unfold ofProperty severalOf
  rw [unfold_annotate]
  simp only
  split <;> rfl

/-- The trees of what a property leads to, from the trees of classes. -/
def inlineRange (class_ : Iri → Except ModelError (Definition Stop)) :
    PropertyRange → Except ModelError (List (Definition Stop))
  | .datatypes iris => .ok (iris.map fun iri => .plain (datatypeShape iri))
  | .classes iris => iris.mapM class_

/-- The name and the tree of a property, from the trees of classes. -/
def inlineProperty (class_ : Iri → Except ModelError (Definition Stop))
    (q : StructuralProperty) : Except ModelError (String × Definition Stop) := do
  let range ← q.range
  let values ← inlineRange class_ range
  return (q.name, severalOf q (.anyOf values))

/-- The tree of a class, from the trees of objects. -/
def inlineWith (p : Publication) (m : StructuralModel)
    (object : StructuralClass → Except ModelError (Definition Stop)) (key : Iri) :
    Except ModelError (Definition Stop) := do
  let c ← m.requireClass key
  if c.isCodelist then return .plain (.text (some "iri"))
  else
    match elsewhere? p m c with
    | some way => return .plain (.ref (.document way))
    | none => object c

/-- The tree of the objects of a class, to a depth. -/
def inlineObject (p : Publication) (m : StructuralModel) :
    Nat → StructuralClass → Except ModelError (Definition Stop)
  | 0, _ => .ok (.plain (.ref .cut))
  | n + 1, c => do
    let properties ← c.properties.mapM (inlineProperty (inlineWith p m (inlineObject p m n)))
    return .plain (.object properties (requiredNames c.properties))

/-- The tree of a class, to a depth. -/
def inlineClass (p : Publication) (m : StructuralModel) (n : Nat) :
    Iri → Except ModelError (Definition Stop) :=
  inlineWith p m (inlineObject p m n)

section

variable {p : Publication} {m : StructuralModel} {iri : Iri} {c : StructuralClass} {n : Nat}

/-- The tree of a codelist is an identifier. -/
theorem inlineClass_of_codelist (hc : m.class? iri = some c) (hl : c.isCodelist = true) :
    inlineClass p m n iri = .ok (.plain (.text (some "iri"))) := by
  have hr : m.requireClass iri = .ok c := by rw [StructuralModel.requireClass, hc]
  rw [inlineClass, inlineWith, hr]
  simp [bind, Except.bind, pure, Except.pure, hl]

/-- The tree of a class that another document describes is the way to it. -/
theorem inlineClass_of_elsewhere {way : String} (hc : m.class? iri = some c)
    (hl : c.isCodelist = false) (he : elsewhere? p m c = some way) :
    inlineClass p m n iri = .ok (.plain (.ref (.document way))) := by
  have hr : m.requireClass iri = .ok c := by rw [StructuralModel.requireClass, hc]
  rw [inlineClass, inlineWith, hr]
  simp [bind, Except.bind, pure, Except.pure, hl, he]

/-- The tree of any other class is an object. -/
theorem inlineClass_of_object (hc : m.class? iri = some c) (hl : c.isCodelist = false)
    (he : elsewhere? p m c = none) : inlineClass p m n iri = inlineObject p m n c := by
  have hr : m.requireClass iri = .ok c := by rw [StructuralModel.requireClass, hc]
  rw [inlineClass, inlineWith, hr]
  simp [bind, Except.bind, hl, he]

/-- The tree of an object has the trees of its properties, which are one level less deep. -/
theorem inlineObject_succ : inlineObject p m (n + 1) c =
    (c.properties.mapM (inlineProperty (inlineClass p m n))).map fun ps =>
      .plain (.object ps (requiredNames c.properties)) := by
  rw [inlineObject]
  show Except.bind (c.properties.mapM (inlineProperty (inlineClass p m n))) _ = _
  cases c.properties.mapM (inlineProperty (inlineClass p m n)) <;> rfl

end

end DataSpec.JsonSchema
