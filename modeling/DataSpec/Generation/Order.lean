import DataSpec.Graph.Basic
import DataSpec.Model.Error
import DataSpec.Specification

/-!
# Order of artefacts

An artefact is generated after those that it depends on. `DataSpecification.order` lists
the artefacts of a specification so, if all dependencies are artefacts of the
specification and none depends on itself. Artefacts are told apart by their places in the
specification; an identifier stands for the last artefact that has it.
-/

set_option autoImplicit false

namespace DataSpec.DataSpecification

/-- Fail if an artefact depends on one that is not there. -/
def checkDependencies (s : DataSpecification) (a : Artefact) : Except ModelError Unit :=
  match a.dependsOn.find? fun iri => (s.artefact? iri).isNone with
  | some iri => .error (.missingArtefact iri)
  | none => .ok ()

/-- The place of the last artefact with an identifier. -/
def place? (s : DataSpecification) (iri : Iri) : Option Nat :=
  (s.artefacts.zipIdx.reverse.find? fun e => e.1.iri = iri).map Prod.snd

/-- The edge from the place of a dependency to that of an artefact. -/
def dependencyEdge? (s : DataSpecification) (a : Artefact) (dependency : Iri) :
    Option (Nat × Nat) :=
  match s.place? dependency, s.place? a.iri with
  | some source, some target => some (source, target)
  | _, _ => none

/-- The edges of all dependencies, by artefact. -/
def dependencyEdges (s : DataSpecification) : List (Nat × Nat) :=
  s.artefacts.flatMap fun a => a.dependsOn.filterMap (s.dependencyEdge? a)

/-- The places of the artefacts, with an edge to each from those that it depends on. -/
def dependencies (s : DataSpecification) : Digraph Nat :=
  s.dependencyEdges.foldl (fun g e => g.addEdge e.1 e.2) ⟨List.range s.artefacts.length, []⟩

/-- The artefacts, each after those that it depends on. -/
def order (s : DataSpecification) : Except ModelError (List Artefact) := do
  s.artefacts.forM s.checkDependencies
  match s.dependencies.order with
  | .ok places => return places.filterMap fun n => s.artefacts[n]?
  | .error n => throw (.circularArtefact ((s.artefacts[n]?.map Artefact.iri).getD ""))

end DataSpec.DataSpecification
