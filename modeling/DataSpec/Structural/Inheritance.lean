import DataSpec.Graph.Extension
import DataSpec.Structural.Basic

/-!
# Flat inheritance

Documents describe a class with all its properties, so the properties of the parents are
copied into it : `StructuralModel.flatten` goes through the classes parents first, and
puts what a class inherits in front of what it declares itself. A property that it
declares anew is not inherited twice; one that two parents have is an error.
-/

set_option autoImplicit false

namespace DataSpec.StructuralModel

/-- The first parent of a class that is not in the model. -/
def missingParent? (m : StructuralModel) : Option Iri :=
  m.classes.values.findSome? fun c => c.parents.find? fun p => !m.classes.contains p

/-- The first property of a list whose identifier comes before it, in `seen` or in the
list. -/
def repeated? : List Iri → List StructuralProperty → Option Iri
  | _, [] => none
  | seen, p :: rest => if seen.contains p.iri then some p.iri else repeated? (p.iri :: seen) rest

/-- What a class has from its parents and of its own. -/
def withInherited (inherited own : List StructuralProperty) : List StructuralProperty :=
  inherited ++ own.filter fun p => !inherited.any fun q => q.iri = p.iri

/-- Copy the properties of its parents into a class. -/
def inheritInto (m : StructuralModel) (iri : Iri) : Except ModelError StructuralModel :=
  match m.class? iri with
  | none => .ok m
  | some c =>
    if c.parents.isEmpty then .ok m
    else do
      let parents ← c.parents.mapM m.requireClass
      let inherited := parents.flatMap StructuralClass.properties
      match repeated? [] inherited with
      | some p => throw (.inheritedTwice iri p)
      | none =>
        return { m with classes := m.classes.insert iri { c with
          properties := withInherited inherited c.properties
          parents := []
          inheritsFrom := c.parents } }

/-- The model in which every class has all its properties. -/
def flatten (m : StructuralModel) : Except ModelError StructuralModel :=
  match m.missingParent? with
  | some iri => .error (.missingResource iri)
  | none => do
    let order ← ExtensionGraph.parentsFirst
      (.ofParents (m.classes.toList.map fun e => (e.1, e.2.parents)))
    order.foldlM inheritInto m

end DataSpec.StructuralModel
