import DataSpec.Generation.Document
import DataSpec.Generation.Order
import DataSpec.Output.Basic

/-!
# Generation

A `Generator` writes the artefacts of specifications to an output. `runSpecification`
writes all artefacts of one, each after those that it depends on, and stops at the first
that fails; what was written before stays. A run may also be cancelled, which is noticed
before an artefact is begun.
-/

set_option autoImplicit false

namespace DataSpec

/-- What is needed to generate artefacts to an output of type `σ`. -/
structure Generator (σ : Type) where
  resources : ResourceMap
  specifications : Specifications
  config : GenerationConfig
  format : OutputFormat
  /-- Whether a run is cancelled, given what the output holds. -/
  cancelled : σ → Bool

namespace Generator

variable {σ : Type} [Output σ]

/-- The specification with an identifier. -/
def specification (g : Generator σ) (iri : Iri) : Except ModelError DataSpecification :=
  match g.specifications.get? iri with
  | some s => .ok s
  | none => .error (.missingSpecification iri)

/-- What a run makes documents from. -/
def workspace (g : Generator σ) (o : σ) : Except ModelError Workspace :=
  if g.cancelled o then .error .cancelled
  else Workspace.prepare g.resources g.specifications g.config g.format

/-- Write an artefact of a specification. -/
def write (g : Generator σ) (w : Workspace) (s : DataSpecification) (o : σ) (a : Artefact) :
    Except ModelError Unit × σ :=
  if g.cancelled o then (.error .cancelled, o)
  else
    match Format.ofName? a.generator with
    | none => (.error (.unknownGenerator a.generator), o)
    | some f =>
      match w.document s a f with
      | .error e => (.error e, o)
      | .ok text => Output.write o a.outputPath text

/-- Write artefacts in order, up to the first that fails. -/
def writeAll (g : Generator σ) (w : Workspace) (s : DataSpecification) :
    σ → List Artefact → Except ModelError Unit × σ
  | o, [] => (.ok (), o)
  | o, a :: rest =>
    match g.write w s o a with
    | (.error e, o) => (.error e, o)
    | (.ok (), o) => g.writeAll w s o rest

/-- What is made sure before anything is written : the specification, its artefacts in the
order of writing, and what their documents are made from. -/
def plan (g : Generator σ) (o : σ) (iri : Iri) :
    Except ModelError (DataSpecification × List Artefact × Workspace) := do
  let s ← g.specification iri
  let artefacts ← s.order
  let w ← g.workspace o
  return (s, artefacts, w)

/-- Write all artefacts of a specification; the identifiers come in the order of writing. -/
def runSpecification (g : Generator σ) (o : σ) (iri : Iri) :
    Except ModelError (List Iri) × σ :=
  match g.plan o iri with
  | .error e => (.error e, o)
  | .ok (s, artefacts, w) =>
    match g.writeAll w s o artefacts with
    | (.error e, o) => (.error e, o)
    | (.ok (), o) => (.ok (artefacts.map Artefact.iri), o)

/-- Write one artefact of a specification. -/
def runArtefact (g : Generator σ) (o : σ) (iri artefact : Iri) : Except ModelError Unit × σ :=
  let plan : Except ModelError (DataSpecification × Artefact × Workspace) := do
    let s ← g.specification iri
    let a ←
      match s.artefact? artefact with
      | some a => .ok a
      | none => .error (.missingArtefact artefact)
    s.checkDependencies a
    let w ← g.workspace o
    return (s, a, w)
  match plan with
  | .error e => (.error e, o)
  | .ok (s, a, w) => g.write w s o a

end Generator

end DataSpec
