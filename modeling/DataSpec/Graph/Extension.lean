import DataSpec.Graph.Basic
import DataSpec.Model.Error

/-!
# Extension of classes

The edges of an `ExtensionGraph` lead from a class to the classes that it extends. Models
with a cycle in it are refused (`checkAcyclic`), and inheritance goes through the classes
parents first (`parentsFirst`).
-/

set_option autoImplicit false

namespace DataSpec

/-- Which class extends which. -/
abbrev ExtensionGraph := Digraph Iri

namespace ExtensionGraph

/-- The graph of classes with their parents. -/
def ofParents (l : List (Iri × List Iri)) : ExtensionGraph :=
  l.foldl (fun g e => e.2.foldl (fun g parent => g.addEdge e.1 parent) (g.addNode e.1)) .empty

/-- The first text of a list in the order of texts. -/
def least? : List Iri → Option Iri
  | [] => none
  | iri :: rest =>
    match least? rest with
    | some other => some (if other < iri then other else iri)
    | none => some iri

/-- A class that extends itself, directly or through others. -/
def cycle? (g : ExtensionGraph) : Option Iri := g.cyclicComponent?.bind least?

/-- Fail if a class extends itself. -/
def checkAcyclic (g : ExtensionGraph) : Except ModelError Unit :=
  match g.cycle? with
  | some iri => .error (.extensionCycle iri)
  | none => .ok ()

/-- All classes, each after the classes that it extends. -/
def parentsFirst (g : ExtensionGraph) : Except ModelError (List Iri) :=
  match g.order with
  | .ok ns => .ok ns.reverse
  | .error iri => .error (.extensionCycle iri)

end ExtensionGraph

end DataSpec
