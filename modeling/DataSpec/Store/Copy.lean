import DataSpec.Store.Federation

/-!
# Copies of stores

Documents are made from a copy of a store, so that what others do to the store meanwhile does
not matter. The copy itself is made step by step : the store is asked for its identifiers, and
then for the resource of each. Others may give commands to the store between two of these
steps; a `Reading` is a step with the commands that are given before it.
-/

set_option autoImplicit false

namespace DataSpec

/-- A type of stores that are read by asking for their identifiers and for single resources. -/
class Reader (σ : Type) where
  list : σ → List Iri
  read? : σ → Iri → Option Resource

instance : Reader Store := ⟨fun s => s.state.resources.keys, Store.read?⟩

instance : Reader Federation := ⟨Federation.list, Federation.read?⟩

namespace Reader

variable {σ κ : Type} [Reader σ]

/-- Take a resource over, if it is still there. -/
def collect (done : ResourceMap) (iri : Iri) (s : σ) : ResourceMap :=
  match read? s iri with
  | some r => done.insert iri r
  | none => done

/-- All resources at one moment. -/
def resources (s : σ) : ResourceMap := (list s).foldl (fun done iri => collect done iri s) .empty

/-- The reading of one resource, and the commands that others have given since the step
before it. -/
structure Reading (κ : Type) where
  before : List κ
  iri : Iri

/-- The resources that readings add to others, `effect` being what a command does. -/
def copyFrom (effect : σ → κ → σ) : σ → ResourceMap → List (Reading κ) → ResourceMap
  | _, done, [] => done
  | s, done, step :: rest =>
    let s := step.before.foldl effect s
    copyFrom effect s (collect done step.iri s) rest

/-- The copy of a store that is made by readings. -/
def copy (effect : σ → κ → σ) (s : σ) (steps : List (Reading κ)) : ResourceMap :=
  copyFrom effect s .empty steps

end Reader

end DataSpec
