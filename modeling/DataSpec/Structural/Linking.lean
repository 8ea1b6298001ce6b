import DataSpec.Specification
import DataSpec.Structural.Basic

/-!
# Links to specifications

A class of another schema is described by reference if a specification publishes that
schema. `StructuralModel.link` notes for the model and for each class the specification
that does, and `Specifications.published?` finds the document to refer to.
-/

set_option autoImplicit false

namespace DataSpec

/-- The first specification with a structural schema. -/
def Specifications.owner? (s : Specifications) (psm : Iri) : Option DataSpecification :=
  s.values.find? fun d => d.ownsSchema psm

/-- The artefact that publishes the schema of a class in a format. -/
def Specifications.published? (s : Specifications) (f : Format) (c : StructuralClass) :
    Option Artefact :=
  (c.specification.bind s.get?).bind fun d => d.artefactFor? c.schema f.name

/-- Note the specifications that publish the schemas of the classes. -/
def StructuralModel.link (s : Specifications) (m : StructuralModel) : StructuralModel :=
  { m with
    specification := (s.owner? m.iri).map DataSpecification.iri
    classes := m.classes.mapValues fun _ c =>
      { c with specification := (s.owner? c.schema).map DataSpecification.iri } }

end DataSpec
