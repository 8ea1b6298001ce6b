import DataSpec.Structural.Nesting

/-!
# Dematerialization

An association that is marked for it is replaced by the properties of its class, and so
are the associations among these, down to properties that are not marked. It has to lead
to one class, with one value at most, and must not lead back to a class that is being
inlined. A property that comes through an association records it in its `path`, and is
optional if the association is.
-/

set_option autoImplicit false

namespace DataSpec

/-- A property as it is seen through an association that it replaces. -/
def StructuralProperty.through (outer p : StructuralProperty) : StructuralProperty :=
  { p with
    path := outer.iri :: p.path
    cardinality :=
      if outer.bounds.min = 0 then some ⟨0, p.bounds.max⟩ else p.cardinality }

namespace StructuralModel

/-- The class by whose properties an association is replaced, `stack` being the classes
that are being inlined. -/
def inlined (classes : SortedMap Iri StructuralClass) (stack : List Iri)
    (p : StructuralProperty) :
    Except ModelError { e : Iri × StructuralClass // classes.get? e.1 = some e.2 ∧ e.1 ∉ stack } :=
  match p.types with
  | [.class_ target] =>
    if p.bounds.isMultiple then .error (.inlinedMultiple p.iri)
    else if hs : target ∈ stack then .error (.inlinedLoop p.iri target)
    else
      match hc : classes.get? target with
      | none => .error (.missingResource target)
      | some c => .ok ⟨(target, c), hc, hs⟩
  | _ => .error (.inlinedRange p.iri)

/-- Properties with the associations among them replaced. -/
def expand (classes : SortedMap Iri StructuralClass) (stack : List Iri) :
    List StructuralProperty → Except ModelError (List StructuralProperty)
  | [] => .ok []
  | p :: rest =>
    let here : Except ModelError (List StructuralProperty) :=
      if p.dematerialize then
        match inlined classes stack p with
        | .error e => .error e
        | .ok ⟨e, _⟩ =>
          (expand classes (e.1 :: stack) e.2.properties).map (List.map p.through)
      else .ok [p]
    match here with
    | .error e => .error e
    | .ok here => (expand classes stack rest).map (here ++ ·)
termination_by ps => ((classes.keys.filter (· ∉ stack)).length, ps.length)
decreasing_by
  · rename_i h
    exact Prod.Lex.left _ _
      (length_filter_not_mem_cons_lt (SortedMap.mem_keys_of_get? h.1) h.2)
  · exact Prod.Lex.right _ (by simp)

/-- A class with the marked associations replaced. -/
def dematerializeClass (classes : SortedMap Iri StructuralClass) (c : StructuralClass) :
    Except ModelError StructuralClass :=
  (expand classes [c.iri] c.properties).map fun ps => { c with properties := ps }

/-- The model with the marked associations replaced. -/
def dematerialize (m : StructuralModel) : Except ModelError StructuralModel :=
  (m.classes.mapValuesM (dematerializeClass m.classes)).map fun classes => { m with classes }

end StructuralModel

end DataSpec
