import DataSpec.Graph.Extension
import DataSpec.Proofs.Graph.Order

/-!
# Extension of classes

The graph of some classes with their parents has just these as its nodes
(`mem_nodes_ofParents`), and if no class extends itself they can be listed parents first
(`exists_parentsFirst_eq_ok`).
-/

set_option autoImplicit false
set_option linter.unusedSectionVars false

namespace DataSpec.ExtensionGraph

variable {l : List (Iri × List Iri)} {g : ExtensionGraph} {n c : Iri}

theorem proper_addParents (c : Iri) (parents : List Iri) (h : g.Proper) :
    (parents.foldl (fun g parent => g.addEdge c parent) g).Proper := by
  induction parents generalizing g with
  | nil => exact h
  | cons p parents ih => exact ih (h.addEdge c p)

theorem mem_nodes_addParents :
    ∀ {parents : List Iri} {g : ExtensionGraph}, c ∈ g.nodes →
      (n ∈ (parents.foldl (fun g parent => g.addEdge c parent) g).nodes ↔
        n ∈ g.nodes ∨ n ∈ parents)
  | [], _, _ => by simp
  | p :: parents, g, hc => by
    have hc' : c ∈ (g.addEdge c p).nodes := Digraph.mem_nodes_addEdge.mpr (Or.inl hc)
    rw [List.foldl_cons, mem_nodes_addParents hc', Digraph.mem_nodes_addEdge, List.mem_cons]
    constructor
    · rintro ((h | rfl | rfl) | h)
      · exact Or.inl h
      · exact Or.inl hc
      · exact Or.inr (Or.inl rfl)
      · exact Or.inr (Or.inr h)
    · rintro (h | rfl | h)
      · exact Or.inl (Or.inl h)
      · exact Or.inl (Or.inr (Or.inr rfl))
      · exact Or.inr h

/-- One class with its parents. -/
def addClass (g : ExtensionGraph) (e : Iri × List Iri) : ExtensionGraph :=
  e.2.foldl (fun g parent => g.addEdge e.1 parent) (g.addNode e.1)

/-- A class is added with its parents. -/
theorem mem_nodes_addClass {e : Iri × List Iri} :
    n ∈ (addClass g e).nodes ↔ n ∈ g.nodes ∨ n = e.1 ∨ n ∈ e.2 := by
  have hc : e.1 ∈ (g.addNode e.1).nodes := Digraph.mem_nodes_addNode.mpr (Or.inr rfl)
  rw [addClass, mem_nodes_addParents hc, Digraph.mem_nodes_addNode, or_assoc]

theorem proper_foldl_addClass (l : List (Iri × List Iri)) (h : g.Proper) :
    (l.foldl addClass g).Proper := by
  induction l generalizing g with
  | nil => exact h
  | cons e l ih => exact ih (proper_addParents e.1 e.2 (h.addNode e.1))

/-- The nodes are the classes and their parents. -/
theorem mem_nodes_foldl_addClass :
    ∀ {l : List (Iri × List Iri)} {g : ExtensionGraph},
      n ∈ (l.foldl addClass g).nodes ↔ n ∈ g.nodes ∨ ∃ e ∈ l, n = e.1 ∨ n ∈ e.2
  | [], _ => by simp
  | e :: l, g => by
    rw [List.foldl_cons, mem_nodes_foldl_addClass, mem_nodes_addClass, or_assoc]
    simp

theorem mem_edges_addParents {e : Iri × Iri} :
    ∀ {parents : List Iri} {g : ExtensionGraph},
      e ∈ (parents.foldl (fun g parent => g.addEdge c parent) g).edges ↔
        e ∈ g.edges ∨ e.1 = c ∧ e.2 ∈ parents
  | [], _ => by simp
  | p :: parents, g => by
    rw [List.foldl_cons, mem_edges_addParents, Digraph.mem_edges_addEdge, List.mem_cons,
      Prod.ext_iff, or_assoc]
    simp only [← and_or_left]

/-- The edges lead from classes to their parents. -/
theorem mem_edges_foldl_addClass {e : Iri × Iri} :
    ∀ {l : List (Iri × List Iri)} {g : ExtensionGraph},
      e ∈ (l.foldl addClass g).edges ↔ e ∈ g.edges ∨ ∃ a ∈ l, e.1 = a.1 ∧ e.2 ∈ a.2
  | [], _ => by simp
  | a :: l, g => by
    rw [List.foldl_cons, mem_edges_foldl_addClass, addClass, mem_edges_addParents,
      Digraph.edges_addNode, or_assoc]
    simp

/-- The graph of classes and parents is proper. -/
theorem proper_ofParents (l : List (Iri × List Iri)) : (ofParents l).Proper :=
  proper_foldl_addClass l .empty

/-- The nodes are the classes and their parents. -/
theorem mem_nodes_ofParents : n ∈ (ofParents l).nodes ↔ ∃ e ∈ l, n = e.1 ∨ n ∈ e.2 := by
  have h := mem_nodes_foldl_addClass (l := l) (g := Digraph.empty) (n := n)
  rw [or_iff_right (show n ∉ (Digraph.empty : ExtensionGraph).nodes from nofun)] at h
  exact h

/-- The edges lead from the classes to their parents. -/
theorem mem_edges_ofParents {e : Iri × Iri} :
    e ∈ (ofParents l).edges ↔ ∃ a ∈ l, e.1 = a.1 ∧ e.2 ∈ a.2 := by
  have h := mem_edges_foldl_addClass (l := l) (g := Digraph.empty) (e := e)
  rw [or_iff_right (show e ∉ (Digraph.empty : ExtensionGraph).edges from nofun)] at h
  exact h

theorem least?_eq_none_iff {is : List Iri} : least? is = none ↔ is = [] := by
  cases is with
  | nil => simp [least?]
  | cons i is =>
    rw [least?]
    split <;> simp

/-- If no class extends itself, all classes and parents are listed parents first. -/
theorem exists_parentsFirst_eq_ok (h : (ofParents l).checkAcyclic = .ok ()) :
    ∃ ns, (ofParents l).parentsFirst = .ok ns ∧ ∀ n, n ∈ ns ↔ n ∈ (ofParents l).nodes := by
  have hc : (ofParents l).cyclicComponent? = none := by
    unfold checkAcyclic at h
    split at h
    · simp at h
    rename_i hcycle
    cases hcc : (ofParents l).cyclicComponent? with
    | none => rfl
    | some c =>
      rw [cycle?, hcc, Option.bind_some, least?_eq_none_iff] at hcycle
      exact absurd hcycle (Digraph.ne_nil_of_mem_componentsFrom (List.mem_of_find?_eq_some hcc))
  obtain ⟨ns, hns, hmem⟩ := Digraph.exists_order_eq_ok (proper_ofParents l) hc
  refine ⟨ns.reverse, ?_, fun n => by rw [List.mem_reverse, hmem]⟩
  rw [parentsFirst, hns]

/-- Classes without parents do not extend themselves. -/
theorem checkAcyclic_of_no_parents (h : ∀ e ∈ l, e.2 = []) :
    (ofParents l).checkAcyclic = .ok () := by
  have hedges : (ofParents l).edges = [] := List.eq_nil_iff_forall_not_mem.mpr fun e he => by
    obtain ⟨a, ha, -, hmem⟩ := mem_edges_ofParents.mp he
    rw [h a ha] at hmem
    exact List.not_mem_nil hmem
  rw [checkAcyclic, cycle?, Digraph.cyclicComponent?_eq_none hedges]
  rfl

/-- Classes without parents are listed in some order. -/
theorem exists_parentsFirst_of_no_parents (h : ∀ e ∈ l, e.2 = []) :
    ∃ ns, (ofParents l).parentsFirst = .ok ns := by
  obtain ⟨ns, hns, -⟩ := Digraph.exists_order_of_rank (proper_ofParents l) (fun _ => 0)
    fun {a b} hab => by
      obtain ⟨e, he, -, hb⟩ := mem_edges_ofParents.mp hab
      rw [h e he] at hb
      simp at hb
  refine ⟨ns.reverse, ?_⟩
  rw [parentsFirst, hns]

/-- However the classes and parents are listed, all of them are. -/
theorem mem_of_parentsFirst {ns : List Iri} (h : g.parentsFirst = .ok ns) :
    n ∈ ns ↔ n ∈ g.nodes := by
  unfold parentsFirst at h
  split at h
  · rename_i hns
    obtain rfl := Except.ok.inj h
    rw [List.mem_reverse, Digraph.mem_of_order_eq_ok hns]
  · simp at h

end DataSpec.ExtensionGraph
