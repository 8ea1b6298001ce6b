import DataSpec.Conceptual.Basic
import DataSpec.Structural.Basic

/-!
# What structural classes take over from conceptual ones

A structural class or property that names the conceptual one it stands for takes over
from it what it leaves unsaid : whether it is a codelist, its bounds, its label and
description, and the concept it stands for. Nothing that is said is changed.
-/

set_option autoImplicit false

namespace DataSpec

namespace ConceptualModel

/-- The class that a structural class stands for. -/
def classOf? (m : ConceptualModel) (c : StructuralClass) : Option ConceptualClass :=
  c.pim.bind m.class?

/-- The property that a structural property stands for. -/
def propertyOf? (m : ConceptualModel) (p : StructuralProperty) : Option ConceptualProperty :=
  p.pim.bind m.property?

end ConceptualModel

/-- A text, or another one in its place if it is empty. -/
def LanguageText.orElse (t source : LanguageText) : LanguageText :=
  if t.isEmpty then source else t

/-- A property with the bounds it should have. -/
def StructuralProperty.withBounds (conceptual : ConceptualModel) (p : StructuralProperty) :
    StructuralProperty :=
  match p.cardinality with
  | some _ => p
  | none => { p with cardinality := (conceptual.propertyOf? p).bind ConceptualProperty.cardinality }

/-- A property with the label, the description and the concept it should have. -/
def StructuralProperty.withLabels (conceptual : ConceptualModel) (p : StructuralProperty) :
    StructuralProperty :=
  match conceptual.propertyOf? p with
  | none => p
  | some q => { p with
      label := LanguageText.orElse p.label q.label
      description := LanguageText.orElse p.description q.description
      cim := p.cim.or q.concept }

namespace StructuralClass

/-- The class with every property changed by `f`. -/
def mapProperties (f : StructuralProperty → StructuralProperty) (c : StructuralClass) :
    StructuralClass :=
  { c with properties := c.properties.map f }

/-- A class marked as a codelist if the conceptual one is. -/
def marked (conceptual : ConceptualModel) (c : StructuralClass) : StructuralClass :=
  { c with isCodelist := c.isCodelist || (conceptual.classOf? c).any ConceptualClass.isCodelist }

/-- A class with the label, the description and the concept it should have. -/
def withLabels (conceptual : ConceptualModel) (c : StructuralClass) : StructuralClass :=
  match conceptual.classOf? c with
  | none => c
  | some d => { c with
      label := LanguageText.orElse c.label d.label
      description := LanguageText.orElse c.description d.description
      cim := c.cim.or d.concept }

end StructuralClass

namespace StructuralModel

/-- Mark the classes that stand for codelists. -/
def markCodelists (conceptual : ConceptualModel) (m : StructuralModel) : StructuralModel :=
  m.mapClasses (StructuralClass.marked conceptual)

/-- Take over bounds. -/
def propagateBounds (conceptual : ConceptualModel) (m : StructuralModel) : StructuralModel :=
  m.mapClasses (StructuralClass.mapProperties (StructuralProperty.withBounds conceptual))

/-- Take over labels, descriptions and concepts. -/
def propagateLabels (conceptual : ConceptualModel) (m : StructuralModel) : StructuralModel :=
  m.mapClasses fun c => (c.withLabels conceptual).mapProperties
    (StructuralProperty.withLabels conceptual)

end StructuralModel

end DataSpec
