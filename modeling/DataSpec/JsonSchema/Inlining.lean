import DataSpec.Checksum
import DataSpec.Datatype
import DataSpec.JsonSchema.Basic
import DataSpec.Publication
import DataSpec.Structural.Nesting

/-!
# JSON schemas of models

`JsonSchema.ofModel` describes the objects of the root classes of a model. The definition
of a class is written out in place, with three exceptions : objects of a codelist are
referred to by their identifiers, a class that another document describes is described by
a reference to it, and a class that is met while its own definition is being written gets
a named definition (`Naming`).

No class is opened inside itself, so the recursion ends.
-/

set_option autoImplicit false

namespace DataSpec.JsonSchema

/-- The shape of the values of a datatype. -/
def datatypeShape {ρ : Type} : Option Iri → Shape ρ
  | none => .any
  | some iri =>
    match Datatype.ofIri? iri with
    | some .boolean => .boolean
    | some .date => .text (some "date")
    | some .time => .text (some "time")
    | some .dateTime => .text (some "date-time")
    | some .integer => .integer
    | some .decimal => .number
    | some .url => .text (some "iri")
    | some .text => .languageMap
    | some .string | none => .text none

/-! ## Named definitions -/

/-- What is known about the classes that contain themselves. -/
structure Naming where
  /-- The classes that were met inside themselves. -/
  recursive : SortedSet Iri
  /-- The names of their definitions. -/
  names : SortedMap Iri String
  /-- Their definitions by name. -/
  defs : SortedMap String (Definition Reference)

namespace Naming

/-- The state before any class is met. -/
def empty : Naming := ⟨.empty, .empty, .empty⟩

/-- The number of digits that tell apart definitions of equal labels. -/
def hashLength : Nat := 8

/-- The name of the definition of a class : its label, made longer by a part of the
checksum of its identifier if another class has that name. -/
def freshName (s : Naming) (c : StructuralClass) : String :=
  if s.names.values.contains c.name then
    c.name ++ "-" ++ (Checksum.ofText c.iri).short hashLength
  else c.name

/-- The name of the definition of a class, which it keeps. -/
def nameOf (s : Naming) (c : StructuralClass) : String × Naming :=
  match s.names.get? c.iri with
  | some name => (name, s)
  | none => (s.freshName c, { s with names := s.names.insert c.iri (s.freshName c) })

/-- A reference to a named definition. -/
def localRef (name : String) : Definition Reference := .plain (.ref (.named name))

/-- Meet a class inside itself. -/
def refer (s : Naming) (c : StructuralClass) : Definition Reference × Naming :=
  let (name, s) := { s with recursive := s.recursive.add c.iri }.nameOf c
  (localRef name, s)

/-- Close a class, whose definition gets its name if the class was met inside itself. -/
def close (s : Naming) (c : StructuralClass) (d : Definition Reference) :
    Definition Reference × Naming :=
  if s.recursive.contains c.iri then
    let (name, s) := s.nameOf c
    (localRef name, { s with defs := s.defs.insert name d })
  else (d, s)

end Naming

/-! ## Definitions -/

/-- A definition with the title and the description of a class. -/
def ofClass (p : Publication) (c : StructuralClass) (s : Shape Reference) :
    Definition Reference :=
  (Definition.plain s).annotate (p.select c.label) (p.select c.description)

/-- Where another document describes a class. -/
def elsewhere? (p : Publication) (m : StructuralModel) (c : StructuralClass) : Option String :=
  if m.isForeign c then p.reference? .jsonSchema c else none

/-- The names of the properties that have to have a value. -/
def requiredNames (ps : List StructuralProperty) : List String :=
  (ps.filter fun p => p.bounds.isRequired).map StructuralProperty.name

/-- The definition of a property, `value` being that of one value of it. -/
def ofProperty (p : Publication) (q : StructuralProperty) (value : Definition Reference) :
    Definition Reference :=
  let bounds := q.bounds
  let d : Definition Reference :=
    if bounds.isMultiple then
      .plain (.array value (if 0 < bounds.min then some bounds.min else none) bounds.max)
    else value
  d.annotate (p.select q.label) (p.select q.description)

mutual

/-- The definition of a class, `stack` being the classes that are open. -/
def defineClass (p : Publication) (m : StructuralModel) (stack : List Iri) (s : Naming)
    (key : Iri) : Except ModelError (Definition Reference × Naming) :=
  match m.member key with
  | .error e => .error e
  | .ok ⟨c, _hc⟩ =>
    if c.isCodelist then .ok (ofClass p c (.text (some "iri")), s)
    else
      match elsewhere? p m c with
      | some target => .ok (ofClass p c (.ref (.document target)), s)
      | none =>
        if _hs : c.iri ∈ stack then .ok (s.refer c)
        else
          match defineProperties p m (c.iri :: stack) s c.properties with
          | .error e => .error e
          | .ok (properties, s) =>
            .ok (s.close c (ofClass p c (.object properties (requiredNames c.properties))))
termination_by (m.closedCount stack, 0, 0)
decreasing_by exact Prod.Lex.left _ _ (StructuralModel.closedCount_cons_lt _hc _hs)

/-- The definitions of classes. -/
def defineClasses (p : Publication) (m : StructuralModel) (stack : List Iri) (s : Naming) :
    List Iri → Except ModelError (List (Definition Reference) × Naming)
  | [] => .ok ([], s)
  | key :: rest =>
    match defineClass p m stack s key with
    | .error e => .error e
    | .ok (d, s) =>
      match defineClasses p m stack s rest with
      | .error e => .error e
      | .ok (ds, s) => .ok (d :: ds, s)
termination_by keys => (m.closedCount stack, 1, keys.length)
decreasing_by
  · exact Prod.Lex.right _ (Prod.Lex.left _ _ (by omega))
  · exact Prod.Lex.right _ (Prod.Lex.right _ (by simp))

/-- The names and the definitions of properties. -/
def defineProperties (p : Publication) (m : StructuralModel) (stack : List Iri) (s : Naming) :
    List StructuralProperty →
      Except ModelError (List (String × Definition Reference) × Naming)
  | [] => .ok ([], s)
  | q :: rest =>
    let value : Except ModelError (List (Definition Reference) × Naming) :=
      match q.range with
      | .error e => .error e
      | .ok (.datatypes iris) => .ok (iris.map fun iri => .plain (datatypeShape iri), s)
      | .ok (.classes iris) => defineClasses p m stack s iris
    match value with
    | .error e => .error e
    | .ok (ds, s) =>
      match defineProperties p m stack s rest with
      | .error e => .error e
      | .ok (qs, s) => .ok ((q.name, ofProperty p q (.anyOf ds)) :: qs, s)
termination_by qs => (m.closedCount stack, 2, qs.length)
decreasing_by
  · exact Prod.Lex.right _ (Prod.Lex.left _ _ (by omega))
  · exact Prod.Lex.right _ (Prod.Lex.right _ (by simp))

end

/-- The schema of a model before its references are written out, and what is known in the
end about the classes that contain themselves. -/
def draft (p : Publication) (m : StructuralModel) :
    Except ModelError (JsonSchema Reference × Naming) := do
  let _ ← m.rootClasses
  let (roots, s) ← defineClasses p m [] .empty m.roots
  let url := p.artefact.publicUrl
  let schema : JsonSchema Reference := {
    dialect := some p.config.dialect
    id := if url.isEmpty then none else some url
    root := .anyOf roots
    defs := s.defs }
  return (schema, s)

/-- The schema of a model. -/
def ofModel (p : Publication) (m : StructuralModel) : Except ModelError JsonSchema :=
  (draft p m).map fun (schema, _) => schema.mapRefs Reference.text

end DataSpec.JsonSchema
