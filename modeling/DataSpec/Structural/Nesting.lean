import DataSpec.Structural.Basic

/-!
# Nesting of classes

Documents describe a class inside another one, as deep as the associations lead. The
classes that are open at some point are kept in a list, and none is opened twice, so the
number of classes that are not open (`StructuralModel.closedCount`) gets smaller with
every level (`closedCount_cons_lt`). It bounds the recursions over a model, which may be
cyclic.
-/

set_option autoImplicit false

namespace DataSpec.StructuralModel

/-- The number of keys outside a list gets smaller when one of them is put into it. -/
theorem length_filter_not_mem_cons_lt {α : Type} [DecidableEq α] {keys stack : List α} {k : α}
    (hk : k ∈ keys) (hs : k ∉ stack) :
    (keys.filter (· ∉ k :: stack)).length < (keys.filter (· ∉ stack)).length := by
  have heq : keys.filter (· ∉ k :: stack) = (keys.filter (· ∉ stack)).filter (· ≠ k) := by
    rw [List.filter_filter]
    congr 1
    funext x
    by_cases hx : x = k <;> simp [hx]
  rw [heq]
  exact List.length_filter_lt_length_iff_exists.mpr ⟨k, by simp [hk, hs], by simp⟩

/-- The number of classes that are not open. -/
def closedCount (m : StructuralModel) (stack : List Iri) : Nat :=
  ((m.classes.values.map StructuralClass.iri).filter (· ∉ stack)).length

/-- A class that can be looked up is among the classes. -/
theorem mem_values_of_class? {m : StructuralModel} {key : Iri} {c : StructuralClass}
    (h : m.class? key = some c) : c ∈ m.classes.values :=
  List.mem_map.mpr ⟨(key, c), SortedMap.mem_toList_iff.mpr h, rfl⟩

/-- Opening a class leaves fewer that are not open. -/
theorem closedCount_cons_lt {m : StructuralModel} {stack : List Iri} {c : StructuralClass}
    (h : c ∈ m.classes.values) (hs : c.iri ∉ stack) :
    m.closedCount (c.iri :: stack) < m.closedCount stack :=
  length_filter_not_mem_cons_lt (List.mem_map_of_mem h) hs

/-- A class of a model. -/
abbrev Member (m : StructuralModel) := { c : StructuralClass // c ∈ m.classes.values }

/-- The class with an identifier, which has to be in the model. -/
def member (m : StructuralModel) (iri : Iri) : Except ModelError m.Member :=
  match h : m.class? iri with
  | none => .error (.missingResource iri)
  | some c => .ok ⟨c, mem_values_of_class? h⟩

end DataSpec.StructuralModel
