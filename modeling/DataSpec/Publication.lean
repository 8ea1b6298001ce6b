import DataSpec.Config.Generation
import DataSpec.Structural.Linking

/-!
# Publication

A model is written for an artefact, under settings, and among specifications that other
documents belong to. A `Publication` is all of that. What it decides for several formats
alike is here : in which of several languages readers see a text, and how a document refers to
the one that describes a class of another schema.
-/

set_option autoImplicit false

namespace DataSpec

/-- What a document is written for. -/
structure Publication where
  specifications : Specifications
  artefact : Artefact
  config : GenerationConfig

namespace Publication

/-- A text in the language in which readers see it. -/
def select (p : Publication) (t : LanguageText) : Option String := t.select p.config.languages

/-- The way from the document to the one that describes a class in a format. -/
def reference? (p : Publication) (f : Format) (c : StructuralClass) : Option String :=
  (p.specifications.published? f c).map fun other =>
    Text.relativePath p.artefact.publicUrl other.publicUrl

end Publication

end DataSpec
