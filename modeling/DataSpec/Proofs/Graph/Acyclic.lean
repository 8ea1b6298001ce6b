import DataSpec.Proofs.Graph.Order
import Mathlib.Data.Finset.Card
import Mathlib.Logic.Relation

/-!
# Order and cycles

`Digraph.order` finds an order exactly when no node is reached from itself along edges
(`exists_order_eq_ok_iff`), and the order that it finds has every node once
(`nodup_of_order_eq_ok`), after all from which an edge leads to it
(`finished_of_order_eq_ok`).

In a graph without cycles the number of nodes that are reached from a node falls along
edges, so it is a rank with which a search goes through the graph. The other way round, the
places in an order rise along edges.
-/

set_option autoImplicit false
set_option linter.unusedSectionVars false

namespace DataSpec.Digraph

variable {α : Type} [DecidableEq α] {g : Digraph α} {a b n : α} {ns : List α}

/-- Whether an edge leads from a node to another. -/
def Leads (g : Digraph α) (a b : α) : Prop := (a, b) ∈ g.edges

/-- A graph in which no node is reached from itself along edges. -/
def Acyclic (g : Digraph α) : Prop := ∀ n, ¬ Relation.TransGen g.Leads n n

/-! ## Ranks -/

open Classical in
/-- The number of nodes that are reached from a node. -/
noncomputable def reach (g : Digraph α) (n : α) : Nat :=
  (g.nodes.toFinset.filter (Relation.TransGen g.Leads n)).card

theorem reach_lt (h : g.Proper) (hc : g.Acyclic) (hab : g.Leads a b) :
    g.reach b < g.reach a := by
  classical
  refine Finset.card_lt_card ((Finset.ssubset_iff_of_subset fun n hn => ?_).mpr ⟨b, ?_, ?_⟩)
  · rw [Finset.mem_filter] at hn ⊢
    exact ⟨hn.1, hn.2.head hab⟩
  · exact Finset.mem_filter.mpr ⟨List.mem_toFinset.mpr (h.target hab), .single hab⟩
  · exact fun hb => hc b (Finset.mem_filter.mp hb).2

/-! ## Orders -/

/-- If no node comes too late, all from which an edge leads to a node come before it. -/
theorem finished_of_late?_eq_none :
    ∀ {ns seen : List α}, (∀ n ∈ ns, n ∉ g.predecessors n) → g.late? seen ns = none →
      Finished g.predecessors seen ns
  | [], _, _, _ => trivial
  | n :: ns, seen, hself, h => by
    rw [late?] at h
    split at h
    · simp at h
    rename_i hfind
    refine ⟨fun p hp => ?_, finished_of_late?_eq_none
      (fun n hn => hself n (List.mem_cons_of_mem _ hn)) h⟩
    have hpn : p ≠ n := fun heq => hself n List.mem_cons_self (heq ▸ hp)
    have hseen := List.find?_eq_none.mp hfind p hp
    simpa [hpn] using hseen

/-- What a finished list says about a node in it. -/
theorem Finished.before {next : α → List α} {l₂ : List α} :
    ∀ {l₁ done : List α}, Finished next done (l₁ ++ n :: l₂) → b ∈ next n → b ∈ done ∨ b ∈ l₁
  | [], _, h, hb => Or.inl (h.1 b hb)
  | m :: l₁, done, h, hb => by
    rcases Finished.before h.2 hb with hb | hb
    · exact (List.mem_cons.mp hb).elim (fun heq => Or.inr (heq ▸ List.mem_cons_self)) Or.inl
    · exact Or.inr (List.mem_cons_of_mem _ hb)

/-- What a successful search for an order has found out. -/
theorem order_cases (h : g.order = .ok ns) :
    (∀ n ∈ g.nodes, ¬ g.Leads n n) ∧ g.late? [] ns = none ∧
      ns = (left (g.search g.successors)).reverse := by
  unfold order at h
  simp only at h
  split at h
  · simp at h
  rename_i hself
  split at h
  · simp at h
  rename_i hlate
  obtain rfl := Except.ok.inj h
  refine ⟨fun n hn hnn => ?_, hlate, rfl⟩
  have := List.find?_eq_none.mp hself n (mem_entered_search.mpr hn)
  exact this (by simpa using mem_successors.mpr hnn)

/-- An order has every node once. -/
theorem nodup_of_order_eq_ok (h : g.Proper) (ho : g.order = .ok ns) : ns.Nodup := by
  obtain ⟨-, -, rfl⟩ := order_cases ho
  exact List.nodup_reverse.mpr (nodup_left_search h.nodup _)

/-- An order has every node after all from which an edge leads to it. -/
theorem finished_of_order_eq_ok (ho : g.order = .ok ns) : Finished g.predecessors [] ns := by
  obtain ⟨hself, hlate, -⟩ := order_cases ho
  refine finished_of_late?_eq_none (fun n hn hnn => ?_) hlate
  exact hself n ((mem_of_order_eq_ok ho).mp hn) (mem_predecessors.mp hnn)

/-- Places in an order rise along edges. -/
theorem idxOf_lt_of_order_eq_ok (h : g.Proper) (ho : g.order = .ok ns) (hab : g.Leads a b) :
    ns.idxOf a < ns.idxOf b := by
  obtain ⟨before, rest, rfl, hb⟩ :=
    List.eq_append_cons_of_mem ((mem_of_order_eq_ok ho).mpr (h.target hab))
  have ha : a ∈ before := ((finished_of_order_eq_ok ho).before
    (mem_predecessors.mpr hab)).resolve_left List.not_mem_nil
  rw [List.idxOf_append_of_mem ha, List.idxOf_append_of_notMem hb, List.idxOf_cons_self]
  exact List.idxOf_lt_length_of_mem ha

/-- A graph has an order if and only if it has no cycle. -/
theorem exists_order_eq_ok_iff (h : g.Proper) : (∃ ns, g.order = .ok ns) ↔ g.Acyclic := by
  constructor
  · rintro ⟨ns, ho⟩ n hn
    have hlt : Relation.TransGen (· < ·) (ns.idxOf n) (ns.idxOf n) :=
      Relation.TransGen.lift ns.idxOf (fun _ _ => idxOf_lt_of_order_eq_ok h ho) n n hn
    rw [Relation.transGen_eq_self] at hlt
    exact Nat.lt_irrefl _ hlt
  · intro hc
    obtain ⟨ns, ho, -⟩ := exists_order_of_rank h g.reach fun hab => reach_lt h hc hab
    exact ⟨ns, ho⟩

end DataSpec.Digraph
