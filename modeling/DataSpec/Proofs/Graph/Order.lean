import DataSpec.Proofs.Graph.Walk
import Mathlib.Data.List.Basic

/-!
# Components and order agree

When no component of a graph has a cycle, its nodes have an order in which every edge leads
forward, and `Digraph.order` finds it (`exists_order_eq_ok`).

The components are made for the nodes in an order in which they lead : if each of them is a
single node without an edge to itself, every edge of it leads to a node that came before
(`idxOf_lt_of_trivial_components`). So places in that order are ranks that get smaller
along edges, and a search leaves every node after all that it leads to.
-/

set_option autoImplicit false
set_option linter.unusedSectionVars false

namespace DataSpec.Digraph

variable {α : Type} [DecidableEq α] {g : Digraph α} {a b n p : α}

/-! ## Graphs whose edges stay within -/

/-- A graph that lists every node once, and whose edges join nodes of it. -/
structure Proper (g : Digraph α) : Prop where
  nodup : g.nodes.Nodup
  source : ∀ {a b}, (a, b) ∈ g.edges → a ∈ g.nodes
  target : ∀ {a b}, (a, b) ∈ g.edges → b ∈ g.nodes

theorem Proper.empty : (Digraph.empty : Digraph α).Proper := ⟨List.nodup_nil, nofun, nofun⟩

theorem mem_nodes_addNode : a ∈ (g.addNode n).nodes ↔ a ∈ g.nodes ∨ a = n := by
  unfold addNode
  split
  · constructor
    · exact Or.inl
    · rintro (h | rfl)
      · exact h
      · assumption
  · simp

@[simp]
theorem edges_addNode (g : Digraph α) (n : α) : (g.addNode n).edges = g.edges := by
  unfold addNode
  split <;> rfl

/-- An edge brings its nodes with it. -/
theorem mem_nodes_addEdge : n ∈ (g.addEdge a b).nodes ↔ n ∈ g.nodes ∨ n = a ∨ n = b := by
  have hnodes : (g.addEdge a b).nodes = ((g.addNode a).addNode b).nodes := by
    simp only [addEdge]
    split <;> rfl
  rw [hnodes, mem_nodes_addNode, mem_nodes_addNode, or_assoc]

theorem mem_edges_addEdge {e : α × α} :
    e ∈ (g.addEdge a b).edges ↔ e ∈ g.edges ∨ e = (a, b) := by
  simp only [addEdge]
  split
  · rename_i h
    simp only [edges_addNode] at h ⊢
    exact ⟨Or.inl, fun h' => h'.elim id fun h' => h' ▸ h⟩
  · simp

theorem Proper.addNode (h : g.Proper) (n : α) : (g.addNode n).Proper where
  nodup := by
    unfold Digraph.addNode
    split
    · exact h.nodup
    · exact List.nodup_append'.mpr ⟨h.nodup, List.nodup_singleton n, by simpa⟩
  source he := mem_nodes_addNode.mpr (Or.inl (h.source (by simpa using he)))
  target he := mem_nodes_addNode.mpr (Or.inl (h.target (by simpa using he)))

/-- A graph stays proper with a node more, or with an edge more. -/
theorem Proper.addEdge (h : g.Proper) (a b : α) : (g.addEdge a b).Proper where
  nodup := by
    have hn := ((h.addNode a).addNode b).nodup
    simp only [Digraph.addEdge]
    split <;> exact hn
  source he := by
    rcases mem_edges_addEdge.mp he with he | he
    · exact mem_nodes_addEdge.mpr (Or.inl (h.source he))
    · exact mem_nodes_addEdge.mpr (Or.inr (Or.inl (Prod.mk.inj he).1))
  target he := by
    rcases mem_edges_addEdge.mp he with he | he
    · exact mem_nodes_addEdge.mpr (Or.inl (h.target he))
    · exact mem_nodes_addEdge.mpr (Or.inr (Or.inr (Prod.mk.inj he).2))

/-! ### Several edges -/

theorem mem_edges_foldl_addEdge {e : α × α} :
    ∀ {es : List (α × α)} {g : Digraph α},
      e ∈ (es.foldl (fun g e => g.addEdge e.1 e.2) g).edges ↔ e ∈ g.edges ∨ e ∈ es
  | [], _ => by simp
  | e' :: es, g => by
    rw [List.foldl_cons, mem_edges_foldl_addEdge, mem_edges_addEdge, List.mem_cons, or_assoc]

/-- Edges between nodes of a graph add no nodes to it. -/
theorem mem_nodes_foldl_addEdge :
    ∀ {es : List (α × α)} {g : Digraph α}, (∀ e ∈ es, e.1 ∈ g.nodes ∧ e.2 ∈ g.nodes) →
      (n ∈ (es.foldl (fun g e => g.addEdge e.1 e.2) g).nodes ↔ n ∈ g.nodes)
  | [], _, _ => Iff.rfl
  | e :: es, g, h => by
    obtain ⟨h₁, h₂⟩ := h e List.mem_cons_self
    have hsame : ∀ k, k ∈ (g.addEdge e.1 e.2).nodes ↔ k ∈ g.nodes := fun k => by
      rw [mem_nodes_addEdge]
      exact ⟨fun hk => hk.elim id fun hk => hk.elim (· ▸ h₁) (· ▸ h₂), Or.inl⟩
    rw [List.foldl_cons, mem_nodes_foldl_addEdge fun e' he' => ?_, hsame]
    rw [hsame, hsame]
    exact h e' (List.mem_cons_of_mem _ he')

theorem Proper.foldl_addEdge (es : List (α × α)) (h : g.Proper) :
    (es.foldl (fun g e => g.addEdge e.1 e.2) g).Proper := by
  induction es generalizing g with
  | nil => exact h
  | cons e es ih => exact ih (h.addEdge e.1 e.2)

/-- Successors and predecessors are the ends of edges. -/
theorem mem_successors : b ∈ g.successors a ↔ (a, b) ∈ g.edges := by
  simp [successors]

theorem mem_predecessors : a ∈ g.predecessors b ↔ (a, b) ∈ g.edges := by
  simp [predecessors]

/-! ## The search from all nodes -/

/-- A search enters the nodes of the graph. -/
theorem mem_entered_search {next : α → List α} : n ∈ entered (g.search next) ↔ n ∈ g.nodes := by
  constructor
  · exact mem_free_of_mem_entered _ _
  · exact fun h => mem_entered_of_mem _ _ (List.mem_map_of_mem h) h

/-- A search leaves the nodes that it enters. -/
theorem mem_left_search {next : α → List α} : n ∈ left (g.search next) ↔ n ∈ g.nodes := by
  have hstack : .leave n ∉ g.nodes.map Visit.enter := by simp
  rw [search, mem_left_iff, or_iff_right hstack]
  exact mem_entered_search

/-- A search leaves no node twice. -/
theorem nodup_left_search (h : g.nodes.Nodup) (next : α → List α) :
    (left (g.search next)).Nodup := by
  refine nodup_left _ _ ?_ h ?_
  · rw [left_map_enter]
    exact List.nodup_nil
  · rw [left_map_enter]
    exact nofun

/-! ## Order -/

/-- No node comes too late when the nodes before each one have all that lead to it. -/
theorem late?_eq_none {ns : List α} :
    ∀ {seen : List α}, (∀ s₁ n s₂, ns = s₁ ++ n :: s₂ → ∀ p ∈ g.predecessors n,
      p = n ∨ p ∈ s₁ ∨ p ∈ seen) → g.late? seen ns = none := by
  induction ns with
  | nil => exact fun _ => rfl
  | cons n ns ih =>
    intro seen h
    have hfind : (g.predecessors n).find? (fun p => p ∉ n :: seen) = none := by
      refine List.find?_eq_none.mpr fun p hp => ?_
      rcases h [] n ns rfl p hp with rfl | hs | hs
      · simp
      · simp at hs
      · simp [hs]
    rw [late?, hfind]
    refine ih fun s₁ n' s₂ heq p hp => ?_
    rcases h (n :: s₁) n' s₂ (by rw [heq]; rfl) p hp with rfl | hs | hs
    · exact Or.inl rfl
    · rcases List.mem_cons.mp hs with rfl | hs
      · exact Or.inr (Or.inr List.mem_cons_self)
      · exact Or.inr (Or.inl hs)
    · exact Or.inr (Or.inr (List.mem_cons_of_mem _ hs))

/-- What a finished node leads to is before it. -/
theorem Finished.mem_of_mem {next : α → List α} {l₂ : List α} :
    ∀ {l₁ done : List α}, Finished next done (l₁ ++ l₂) → p ∈ l₁ → b ∈ next p →
      b ∈ done ∨ b ∈ l₁
  | n :: l₁, done, h, hp, hb => by
    rcases List.mem_cons.mp hp with rfl | hp
    · exact Or.inl (h.1 b hb)
    · rcases Finished.mem_of_mem h.2 hp hb with hb | hb
      · rcases List.mem_cons.mp hb with rfl | hb
        · exact Or.inr List.mem_cons_self
        · exact Or.inl hb
      · exact Or.inr (List.mem_cons_of_mem _ hb)

/-- An order lists all nodes. -/
theorem mem_of_order_eq_ok {ns : List α} (h : g.order = .ok ns) : n ∈ ns ↔ n ∈ g.nodes := by
  unfold order at h
  simp only at h
  split at h
  · simp at h
  · split at h
    · simp at h
    · obtain rfl := Except.ok.inj h
      rw [List.mem_reverse, mem_left_search]

/-- A graph whose edges lead to smaller ranks has an order, which lists all of its nodes. -/
theorem exists_order_of_rank (h : g.Proper) (rank : α → Nat)
    (hr : ∀ {a b}, (a, b) ∈ g.edges → rank b < rank a) :
    ∃ ns, g.order = .ok ns ∧ ∀ n, n ∈ ns ↔ n ∈ g.nodes := by
  refine ⟨(left (g.search g.successors)).reverse, ?_, fun n => by
    rw [List.mem_reverse, mem_left_search]⟩
  have hself : (entered (g.search g.successors)).find? (fun n => n ∈ g.successors n) = none := by
    refine List.find?_eq_none.mpr fun n _ => ?_
    simp only [decide_eq_true_eq]
    exact fun hn => Nat.lt_irrefl _ (hr (mem_successors.mp hn))
  have hfin : Finished g.successors [] (left (g.search g.successors)) := by
    refine finished_left_walk (· ∈ g.nodes) rank (fun _ b hb => ?_) _ _ _
      (fun v hv => ?_) (fun n hn => Or.inl hn) ?_
    · have hb := mem_successors.mp hb
      exact ⟨h.target hb, hr hb⟩
    · obtain ⟨n, hn, rfl⟩ := List.mem_map.mp hv
      exact hn
    · have hpush : ∀ (ns above : List α), Layered g.successors rank [] above
          (ns.map Visit.enter) := by
        intro ns
        induction ns with
        | nil => exact fun _ => trivial
        | cons n ns ih => exact fun above => ih (n :: above)
      exact hpush _ _
  have hlate : g.late? [] (left (g.search g.successors)).reverse = none := by
    refine late?_eq_none fun s₁ n s₂ heq p hp => ?_
    have hp := mem_predecessors.mp hp
    have hl : left (g.search g.successors) = s₂.reverse ++ n :: s₁.reverse := by
      rw [← List.reverse_inj, heq]
      simp
    have hmem : p ∈ s₂.reverse ++ n :: s₁.reverse := by
      rw [← hl]
      exact mem_left_search.mpr (h.source hp)
    rcases List.mem_append.mp hmem with hm | hm
    · -- A node before one that leads to it would be listed twice.
      exfalso
      rw [hl] at hfin
      have hn := (hfin.mem_of_mem hm (mem_successors.mpr hp)).resolve_left List.not_mem_nil
      have hnd := nodup_left_search h.nodup g.successors
      rw [hl] at hnd
      exact (List.disjoint_of_nodup_append hnd) hn List.mem_cons_self
    · rcases List.mem_cons.mp hm with rfl | hm
      · exact Or.inl rfl
      · exact Or.inr (Or.inl (List.mem_reverse.mp hm))
  simp only [order, hself, hlate]

/-! ## Components -/

/-- A component that consists of one node without an edge to itself. -/
def Trivial (g : Digraph α) (c : List α) : Prop := ∃ n, c = [n] ∧ n ∉ g.successors n

/-- If all components are trivial, edges lead to nodes that come before among the leaders. -/
theorem idxOf_lt_of_trivial_components :
    ∀ {leaders free : List α}, (∀ c ∈ g.componentsFrom leaders free, g.Trivial c) →
      ∀ {a b}, a ∈ leaders → a ∈ free → b ∈ free → b ∈ g.successors a →
        leaders.idxOf b < leaders.idxOf a
  | n :: leaders, free, h, a, b, ha, haf, hbf, hab => by
    rw [componentsFrom] at h
    split at h
    · rename_i hn
      obtain ⟨k, hk, hself⟩ := h _ List.mem_cons_self
      have hwalk := walk_enter_of_mem g.successors hn []
      rw [hwalk, entered_enter] at hk
      obtain ⟨rfl, hnil⟩ := List.cons.inj hk
      -- The leader leads to nothing that is free, or its component had more nodes.
      have hfree : ∀ b ∈ g.successors n, b ∉ free := by
        intro b hb hbf
        have hbn : b ≠ n := fun h => hself (h ▸ hb)
        have hmem : b ∈ entered (walk g.successors
            ((g.successors n).map .enter ++ [.leave n]) (free.erase n)) :=
          mem_entered_of_mem _ _ (List.mem_append_left _ (List.mem_map_of_mem hb))
            ((List.mem_erase_of_ne hbn).mpr hbf)
        rw [hnil] at hmem
        exact List.not_mem_nil hmem
      have han : a ≠ n := fun h => hfree b (h ▸ hab) hbf
      have hal : a ∈ leaders := (List.mem_cons.mp ha).resolve_left han
      rw [List.idxOf_cons_ne _ han.symm]
      by_cases hbn : b = n
      · rw [hbn, List.idxOf_cons_self]
        exact Nat.succ_pos _
      · rw [List.idxOf_cons_ne _ (Ne.symm hbn)]
        have hrest : ∀ x ∈ free, x ≠ n → x ∈ free.filter fun m =>
            m ∉ entered (walk g.successors [.enter n] free) := by
          intro x hx hxn
          rw [hwalk, entered_enter, hnil]
          simpa using ⟨hx, hxn⟩
        refine Nat.succ_lt_succ (idxOf_lt_of_trivial_components
          (fun c hc => h c (List.mem_cons_of_mem _ hc)) hal (hrest a haf han) (hrest b hbf hbn) hab)
    · rename_i hn
      have han : a ≠ n := fun h => hn (h ▸ haf)
      have hbn : b ≠ n := fun h => hn (h ▸ hbf)
      rw [List.idxOf_cons_ne _ han.symm, List.idxOf_cons_ne _ hbn.symm]
      exact Nat.succ_lt_succ (idxOf_lt_of_trivial_components h
        ((List.mem_cons.mp ha).resolve_left han) haf hbf hab)

/-- A graph none of whose components is cyclic has an order, which lists all its nodes. -/
theorem exists_order_eq_ok (h : g.Proper) (hc : g.cyclicComponent? = none) :
    ∃ ns, g.order = .ok ns ∧ ∀ n, n ∈ ns ↔ n ∈ g.nodes := by
  have htriv : ∀ c ∈ g.components, g.Trivial c := by
    intro c hmem
    have hno := List.find?_eq_none.mp hc c hmem
    match c, hno with
    | [n], hno => exact ⟨n, rfl, by simpa using hno⟩
    | [], hno => simp at hno
    | _ :: _ :: _, hno => simp at hno
  refine exists_order_of_rank h
    (fun n => (left (g.search g.predecessors)).reverse.idxOf n) fun hab => ?_
  refine idxOf_lt_of_trivial_components htriv ?_ (h.source hab) (h.target hab)
    (mem_successors.mpr hab)
  rw [List.mem_reverse, mem_left_search]
  exact h.source hab

/-- Components have nodes. -/
theorem ne_nil_of_mem_componentsFrom {c : List α} :
    ∀ {leaders free : List α}, c ∈ g.componentsFrom leaders free → c ≠ []
  | n :: leaders, free, hc => by
    rw [componentsFrom] at hc
    split at hc
    · rename_i hn
      rcases List.mem_cons.mp hc with rfl | hc
      · rw [walk_enter_of_mem g.successors hn, entered_enter]
        exact List.cons_ne_nil _ _
      · exact ne_nil_of_mem_componentsFrom hc
    · exact ne_nil_of_mem_componentsFrom hc

/-- Where no edge leads anywhere, all components are trivial. -/
theorem trivial_of_mem_componentsFrom (h : ∀ n, g.successors n = []) {c : List α} :
    ∀ {leaders free : List α}, c ∈ g.componentsFrom leaders free → g.Trivial c
  | n :: leaders, free, hc => by
    rw [componentsFrom] at hc
    split at hc
    · rename_i hn
      rcases List.mem_cons.mp hc with rfl | hc
      · refine ⟨n, ?_, by simp [h]⟩
        rw [walk_enter_of_mem g.successors hn, h, List.map_nil, List.nil_append, walk_leave,
          walk_nil, entered_enter, entered_leave, entered_nil]
      · exact trivial_of_mem_componentsFrom h hc
    · exact trivial_of_mem_componentsFrom h hc

/-- A graph without edges has no cyclic component. -/
theorem cyclicComponent?_eq_none (h : g.edges = []) : g.cyclicComponent? = none := by
  refine List.find?_eq_none.mpr fun c hc => ?_
  have hnone : ∀ n, g.successors n = [] := fun n => by simp [successors, h]
  obtain ⟨n, rfl, hn⟩ := trivial_of_mem_componentsFrom hnone hc
  simpa using hn

end DataSpec.Digraph
