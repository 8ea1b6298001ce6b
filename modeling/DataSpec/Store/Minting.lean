import DataSpec.Resource.Basic
import DataSpec.Text.Segments

/-!
# Minting identifiers

A new resource gets the identifier `base/segment/n`, with the first number above the
counter of its kind for which that identifier is free. A number that has been issued is
not issued again, also when its resource is deleted, because counters only grow.

Numbers have 64 bits, so a search that finds all of them taken would go round for ever :
then there is no identifier.
-/

set_option autoImplicit false

namespace DataSpec

/-- The last number issued per kind. -/
abbrev Counters := SortedMap Kind UInt64

namespace Counters

/-- The last number issued for a kind. -/
def current (c : Counters) (kind : Kind) : UInt64 := (c.get? kind).getD 0

/-- The written form. -/
def toJson (c : Counters) : Json := .obj (c.toList.map fun e => (e.1.name, .nat e.2.toNat))

/-- The counters with a written form. -/
def ofJson? (v : Json) : Option Counters :=
  v.map? Kind.ofName? fun n => (n.natBelow? UInt64.size).map UInt64.ofNat

end Counters

/-- The identifier of the `n`-th resource of a kind. -/
def identifier (base : String) (kind : Kind) (n : UInt64) : Iri :=
  Text.trimEnd '/' base ++ "/" ++ kind.segment ++ "/" ++ toString n.toNat

/-- The state of minting within one operation : the counters, and the identifiers that
the operation has minted. -/
structure Minter where
  counters : Counters
  minted : SortedSet Iri

namespace Minter

/-- The first number from `n` on whose identifier is not taken. Every taken identifier
spoils one number at most, so as many numbers are tried as there are taken ones, and one
more. -/
def firstFree (idOf : UInt64 → Iri) (isTaken : Iri → Bool) : List Iri → UInt64 → Option UInt64
  | [], n => if isTaken (idOf n) then none else some n
  | _ :: taken, n => if isTaken (idOf n) then firstFree idOf isTaken taken (n + 1) else some n

/-- Whether an identifier is in use or has been minted by the operation. -/
def isTaken (m : Minter) (resources : ResourceMap) (iri : Iri) : Bool :=
  resources.contains iri || m.minted.contains iri

/-- A free identifier for a resource of a kind, unless all numbers are taken. -/
def mint (m : Minter) (resources : ResourceMap) (base : String) (kind : Kind) :
    Option (Iri × Minter) :=
  (firstFree (identifier base kind) (m.isTaken resources) (resources.keys ++ m.minted.keys)
    (m.counters.current kind + 1)).map fun n =>
      (identifier base kind n,
        ⟨m.counters.insert kind n, SortedSet.add m.minted (identifier base kind n)⟩)

end Minter

end DataSpec
