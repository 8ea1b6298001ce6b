import DataSpec.Resource.Basic

/-!
# Why a model or a document cannot be made

A `ModelError` is the reason for which a model cannot be built from resources or brought
into the form that documents need, or for which a document cannot be written, with what
it is about.
-/

set_option autoImplicit false

namespace DataSpec

/-- Why a model or a document cannot be made. -/
inductive ModelError where
  /-- There is no such resource, or no such class in the model. -/
  | missingResource (iri : Iri)
  /-- The attribute names no class that owns it. -/
  | missingOwner (iri : Iri)
  /-- The resource does not have the kind. -/
  | notOfKind (iri : Iri) (kind : Kind)
  /-- The class extends itself, directly or through others. -/
  | extensionCycle (iri : Iri)
  /-- The class reference names no class. -/
  | emptyReference (iri : Iri)
  /-- The property has no type. -/
  | noDatatype (iri : Iri)
  /-- The association end names no class. -/
  | noParticipant (iri : Iri)
  /-- The types of the property are classes as well as datatypes. -/
  | mixedRange (iri : Iri)
  /-- The association does not have two ends. -/
  | notTwoEnds (iri : Iri)
  /-- The class inherits the property from two parents. -/
  | inheritedTwice (iri : Iri) (property : Iri)
  /-- The property to inline does not have one class as its type. -/
  | inlinedRange (property : Iri)
  /-- The property to inline may have several values. -/
  | inlinedMultiple (property : Iri)
  /-- The property to inline leads back to a class that is being inlined. -/
  | inlinedLoop (property : Iri) (target : Iri)
  /-- The schema does not have one root class, as tables need. -/
  | notOneRoot (schema : Iri) (roots : Nat)
  /-- The property has several classes as its types. -/
  | severalClasses (property : Iri)
  /-- A class among the types of a property extends a class that is not among them. -/
  | parentOutsideRange (name : String)
  /-- A class among the types of a property extends several classes. -/
  | severalParents (name : String)
  /-- The artefact names no structural schema. -/
  | noSchema (artefact : Iri)
  /-- The artefact has to be generated before itself. -/
  | circularArtefact (artefact : Iri)
  | missingSpecification (iri : Iri)
  | missingArtefact (iri : Iri)
  | unknownGenerator (name : String)
  /-- There is a document at the path already. -/
  | duplicateOutput (path : String)
  /-- The path leads out of the output directory, or nowhere. -/
  | invalidOutputPath (path : String)
  | cancelled
  /-- The settings of an artefact are not those of its format. -/
  | badConfiguration
  /-- The document could not be stored. -/
  | notStored (path : String)
deriving DecidableEq

namespace ModelError

/-- The classes of reasons. -/
inductive Category where
  | missingResource
  | unexpectedResourceType
  | cycleDetected
  | incompleteModel
  | ambiguousPropertyRange
  | unsupportedModel
  | missingSpecification
  | missingArtefact
  | unknownGenerator
  | duplicateOutput
  | invalidOutputPath
  | cancelled
  | json
  | io
deriving DecidableEq

/-- The class of a reason. -/
def category : ModelError → Category
  | missingResource _ | missingOwner _ => .missingResource
  | notOfKind .. => .unexpectedResourceType
  | extensionCycle _ => .cycleDetected
  | emptyReference _ | noDatatype _ | noParticipant _ => .incompleteModel
  | mixedRange _ => .ambiguousPropertyRange
  | notTwoEnds _ | inheritedTwice .. | inlinedRange _ | inlinedMultiple _ | inlinedLoop ..
  | notOneRoot .. | severalClasses _ | parentOutsideRange _ | severalParents _ | noSchema _
  | circularArtefact _ => .unsupportedModel
  | missingSpecification _ => .missingSpecification
  | missingArtefact _ => .missingArtefact
  | unknownGenerator _ => .unknownGenerator
  | duplicateOutput _ => .duplicateOutput
  | invalidOutputPath _ => .invalidOutputPath
  | cancelled => .cancelled
  | badConfiguration => .json
  | notStored _ => .io

/-- What the message of a class begins with. -/
def Category.heading : Category → String
  | missingResource => "Missing resource: "
  | unexpectedResourceType => "Resource "
  | cycleDetected => "Class extension cycle detected at "
  | incompleteModel => "Incomplete model: property "
  | ambiguousPropertyRange => "Ambiguous property range: "
  | unsupportedModel => "Unsupported model: "
  | missingSpecification => "Specification not found: "
  | missingArtefact => "Artefact not found: "
  | unknownGenerator => "No generator registered for: "
  | duplicateOutput => "Output already written: "
  | invalidOutputPath => "Invalid output path: "
  | cancelled => "Generation cancelled"
  | json => "JSON error: "
  | io => "IO error: "

/-- The reason without its class. -/
def detail : ModelError → String
  | missingResource iri => iri
  | missingOwner iri => "owner of " ++ iri
  | notOfKind iri kind => iri ++ " is not a " ++ kind.name
  | extensionCycle iri => iri
  | emptyReference iri => iri ++ " references no class"
  | noDatatype iri => iri ++ " has no data type"
  | noParticipant iri => iri ++ " has no participant class"
  | mixedRange iri => iri ++ " mixes association and attribute types"
  | notTwoEnds iri => "association " ++ iri ++ " must have exactly two ends"
  | inheritedTwice iri property =>
    "class " ++ iri ++ " inherits property " ++ property ++ " from more than one parent"
  | inlinedRange property =>
    "dematerialized property " ++ property ++ " must have exactly one class in its range"
  | inlinedMultiple property =>
    "dematerialized property " ++ property ++ " must not be multi-valued"
  | inlinedLoop property target =>
    "dematerialization of " ++ property ++ " loops back to " ++ target
  | notOneRoot schema roots =>
    "CSV schema of " ++ schema ++ " needs exactly one root class, found " ++ toString roots
  | severalClasses property => "property " ++ property ++ " has more than one class in its range"
  | parentOutsideRange name => "class " ++ name ++ " extends a class outside the property range"
  | severalParents name => "multiple inheritance is not supported (class " ++ name ++ ")"
  | noSchema artefact => "artefact " ++ artefact ++ " names no structural schema"
  | circularArtefact artefact => "artefact " ++ artefact ++ " depends on itself"
  | missingSpecification iri => iri
  | missingArtefact iri => iri
  | unknownGenerator name => name
  | duplicateOutput path => path
  | invalidOutputPath path => path
  | cancelled => ""
  | badConfiguration => "not the settings of the format"
  | notStored path => path

/-- The text of a reason. -/
def message (e : ModelError) : String := e.category.heading ++ e.detail

end ModelError

end DataSpec
