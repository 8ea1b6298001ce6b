import DataSpec.Model.Error
import DataSpec.Text.Segments

/-!
# Output

Documents go to an output, each under a path whose segments are parted by slashes. A path
must not lead out of the output (`isOutputPath`). A `MemoryOutput` keeps the documents by
path and never replaces one.
-/

set_option autoImplicit false

namespace DataSpec

/-- Whether a path leads to a place in an output : it is not empty, does not begin at the
root, and never goes up. -/
def isOutputPath (path : String) : Bool :=
  !path.isEmpty && !Text.startsWith path "/" && !(Text.segments path).contains ".."

/-- A type of outputs. A write that fails may still change the output. -/
class Output (σ : Type) where
  write : σ → (path : String) → (content : String) → Except ModelError Unit × σ

/-- Documents by path. -/
structure MemoryOutput where
  documents : SortedMap String String

namespace MemoryOutput

/-- The output without documents. -/
def empty : MemoryOutput := ⟨.empty⟩

/-- Add a document at a path where there is none. -/
def write (o : MemoryOutput) (path content : String) : Except ModelError Unit × MemoryOutput :=
  if !isOutputPath path then (.error (.invalidOutputPath path), o)
  else if o.documents.contains path then (.error (.duplicateOutput path), o)
  else (.ok (), ⟨o.documents.insert path content⟩)

instance : Output MemoryOutput := ⟨write⟩

end MemoryOutput

end DataSpec
