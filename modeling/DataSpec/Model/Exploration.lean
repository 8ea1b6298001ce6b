import DataSpec.Model.Error

/-!
# Exploring resources

A model is built from the resources that can be reached from its schema. `explore` visits
resources in the order in which they are met, each once, and makes something of each
one. It ends because every resource is visited once.
-/

set_option autoImplicit false

namespace DataSpec

/-- A resource that has to be there. -/
def ResourceMap.require (m : ResourceMap) (iri : Iri) : Except ModelError Resource :=
  match m.get? iri with
  | some r => .ok r
  | none => .error (.missingResource iri)

/-- Fail unless the resource has the kind. -/
def Resource.expect (r : Resource) (kind : Kind) : Except ModelError Unit :=
  if r.is kind then .ok () else .error (.notOfKind r.iri kind)

/-- What is made of the resources in the queue and of all that are reached from them, in
the order of the visits; `free` has the resources that are not visited yet. -/
def explore {β : Type} (m : ResourceMap) (make : Resource → Except ModelError β)
    (next : β → List Iri) : List Iri → List Iri → Except ModelError (List (Iri × β))
  | _, [] => .ok []
  | free, iri :: queue =>
    match m.require iri with
    | .error e => .error e
    | .ok r =>
      if _h : iri ∈ free then
        match make r with
        | .error e => .error e
        | .ok b =>
          match explore m make next (free.erase iri) (queue ++ next b) with
          | .error e => .error e
          | .ok rest => .ok ((iri, b) :: rest)
      else explore m make next free queue
termination_by free queue => (free.length, queue.length)
decreasing_by
  · have := List.length_erase_of_mem _h
    have := List.length_pos_of_mem _h
    exact Prod.Lex.left _ _ (by omega)
  · exact Prod.Lex.right _ (by simp)

/-- What is made of the given resources and of all that are reached from them. -/
def ResourceMap.explore {β : Type} (m : ResourceMap) (make : Resource → Except ModelError β)
    (next : β → List Iri) (start : List Iri) : Except ModelError (List (Iri × β)) :=
  DataSpec.explore m make next m.keys start

end DataSpec
