import DataSpec.Structural.Dematerialization
import DataSpec.Structural.Inheritance
import DataSpec.Structural.Linking
import DataSpec.Structural.Propagation

/-!
# From built to documented models

A structural model goes through a list of passes before it is written. The usual list is
`Pass.standard`; each pass relies on those before it.
-/

set_option autoImplicit false

namespace DataSpec

/-- A step on the way of a structural model. -/
inductive Pass where
  | codelistMarking
  | cardinalityPropagation
  | labelPropagation
  | inheritanceFlattening
  | dematerialization
  | specificationLinking (specifications : Specifications)

namespace Pass

/-- The name of a pass. -/
def name : Pass → String
  | codelistMarking => "codelist-marking"
  | cardinalityPropagation => "cardinality-propagation"
  | labelPropagation => "label-propagation"
  | inheritanceFlattening => "inheritance-flattening"
  | dematerialization => "dematerialization"
  | specificationLinking _ => "specification-linking"

/-- The passes that every model goes through. -/
def standard : List Pass :=
  [codelistMarking, cardinalityPropagation, codelistMarking, labelPropagation,
    inheritanceFlattening, dematerialization]

/-- The passes of a model whose classes may be published by specifications. -/
def linked (specifications : Specifications) : List Pass :=
  standard ++ [specificationLinking specifications]

/-- The model after a pass. -/
def apply (conceptual : ConceptualModel) (m : StructuralModel) :
    Pass → Except ModelError StructuralModel
  | codelistMarking => .ok (m.markCodelists conceptual)
  | cardinalityPropagation => .ok (m.propagateBounds conceptual)
  | labelPropagation => .ok (m.propagateLabels conceptual)
  | inheritanceFlattening => m.flatten
  | dematerialization => m.dematerialize
  | specificationLinking specifications => .ok (m.link specifications)

/-- The model after a list of passes, none of which is begun once the run is cancelled. -/
def run (passes : List Pass) (cancelled : Bool) (conceptual : ConceptualModel)
    (m : StructuralModel) : Except ModelError StructuralModel :=
  passes.foldlM (fun m p => if cancelled then .error .cancelled else p.apply conceptual m) m

end Pass

end DataSpec
