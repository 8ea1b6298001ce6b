import DataSpec.Proofs.Graph.Acyclic
import DataSpec.Proofs.Graph.Extension

/-!
# Order and components find the same cycles

A walk visits all that a node leads to between entering and leaving that node (`walk_visit`).
So the nodes that are left before a node `b`, and from which a path of such nodes leads to `b`,
are visited on behalf of `b` and are reached from it (`reaches_of_left`). Two things follow. A
node that comes too late in an order lies on a cycle (`cycle_of_order_eq_error`), and the nodes
of a component reach each other (`mutual_of_mem_componentsFrom`), so that a component of several
nodes is a cycle through each of them (`cycle_of_cyclicComponent?_eq_some`).

For classes with their parents this means that listing them parents first succeeds exactly if
no component has a cycle, that this is the case exactly if no class extends itself, and that
both name a class on a cycle otherwise (`parentsFirst_and_cycle?_ofParents`).
-/

set_option autoImplicit false
set_option linter.unusedSectionVars false

namespace DataSpec

namespace Digraph

variable {α : Type} [DecidableEq α] {g : Digraph α} {next : α → List α} {a b n m : α}
  {ns free c : List α}

/-! ## The parts of a walk -/

/-- A walk over two stacks is a walk over the first one, and then over the second one with the
nodes that are still free. -/
theorem exists_walk_append (next : α → List α) (stack stack' : List (Visit α)) (free : List α)
    (hf : free.Nodup) :
    ∃ rest : List α, rest.Sublist free ∧
      (∀ n, n ∈ rest ↔ n ∈ free ∧ n ∉ entered (walk next stack free)) ∧
      walk next (stack ++ stack') free = walk next stack free ++ walk next stack' rest := by
  induction stack, free using walk.induct next with
  | case1 free => exact ⟨free, List.Sublist.refl _, by simp, by simp⟩
  | case2 m stack free ih =>
    obtain ⟨rest, hsub, hmem, hwalk⟩ := ih hf
    exact ⟨rest, hsub, by simpa using hmem, by simp [hwalk]⟩
  | case3 m stack free hm ih =>
    obtain ⟨rest, hsub, hmem, hwalk⟩ := ih (hf.erase m)
    refine ⟨rest, hsub.trans List.erase_sublist, fun n => ?_, ?_⟩
    · rw [hmem, hf.mem_erase_iff, walk_enter_of_mem next hm, entered_enter, List.mem_cons]
      tauto
    · rw [List.cons_append, walk_enter_of_mem next hm, walk_enter_of_mem next hm]
      simp only [List.append_assoc, List.cons_append] at hwalk ⊢
      rw [hwalk]
  | case4 m stack free hm ih =>
    rw [List.cons_append, walk_enter_of_not_mem next hm, walk_enter_of_not_mem next hm]
    exact ih hf

/-- A node that is entered is left after a walk over all that it leads to. -/
theorem walk_visit (next : α → List α) (hf : free.Nodup) (hn : n ∈ free) (ns : List α) :
    ∃ rest : List α, rest.Sublist (free.erase n) ∧
      (∀ m, m ∈ rest ↔
        m ∈ free.erase n ∧ m ∉ entered (walk next ((next n).map .enter) (free.erase n))) ∧
      walk next ((n :: ns).map .enter) free =
        .enter n :: (walk next ((next n).map .enter) (free.erase n) ++
          .leave n :: walk next (ns.map .enter) rest) := by
  obtain ⟨rest, hsub, hmem, hwalk⟩ := exists_walk_append next ((next n).map .enter)
    (.leave n :: ns.map .enter) (free.erase n) (hf.erase n)
  refine ⟨rest, hsub, hmem, ?_⟩
  rw [List.map_cons, walk_enter_of_mem next hn, hwalk, walk_leave]

/-- What is entered is reached from the stack, along nodes that are free. -/
theorem reaches_of_entered (stack : List (Visit α)) (free : List α)
    (h : n ∈ entered (walk next stack free)) :
    ∃ k, .enter k ∈ stack ∧ k ∈ free ∧
      Relation.ReflTransGen (fun x y => x ∈ free ∧ y ∈ free ∧ y ∈ next x) k n := by
  induction stack, free using walk.induct next with
  | case1 free => simp at h
  | case2 m stack free ih =>
    rw [walk_leave, entered_leave] at h
    obtain ⟨k, hk, hpath⟩ := ih h
    exact ⟨k, List.mem_cons_of_mem _ hk, hpath⟩
  | case3 m stack free hm ih =>
    rw [walk_enter_of_mem next hm, entered_enter, List.mem_cons] at h
    rcases h with rfl | h
    · exact ⟨n, List.mem_cons_self, hm, .refl⟩
    obtain ⟨k, hk, hkf, hpath⟩ := ih h
    have hkf := List.mem_of_mem_erase hkf
    have hpath : Relation.ReflTransGen (fun x y => x ∈ free ∧ y ∈ free ∧ y ∈ next x) k n :=
      Relation.ReflTransGen.mono (fun x y h =>
        ⟨List.mem_of_mem_erase h.1, List.mem_of_mem_erase h.2.1, h.2.2⟩) _ _ hpath
    rcases List.mem_append.mp hk with hk | hk
    · obtain ⟨k', hk', heq⟩ := List.mem_map.mp hk
      obtain rfl := Visit.enter.inj heq
      exact ⟨m, List.mem_cons_self, hm, hpath.head ⟨hm, hkf, hk'⟩⟩
    · exact ⟨k, List.mem_cons_of_mem _ (by simpa using hk), hkf, hpath⟩
  | case4 m stack free hm ih =>
    rw [walk_enter_of_not_mem next hm] at h
    obtain ⟨k, hk, hpath⟩ := ih h
    exact ⟨k, List.mem_cons_of_mem _ hk, hpath⟩

/-- A free node to which a node leads that is entered is entered as well. -/
theorem mem_entered_of_next (stack : List (Visit α)) (free : List α)
    (ha : a ∈ entered (walk next stack free)) (hb : b ∈ next a) (hbf : b ∈ free) :
    b ∈ entered (walk next stack free) := by
  induction stack, free using walk.induct next with
  | case1 free => simp at ha
  | case2 m stack free ih =>
    rw [walk_leave, entered_leave] at ha ⊢
    exact ih ha hbf
  | case3 m stack free hm ih =>
    rw [walk_enter_of_mem next hm, entered_enter, List.mem_cons] at ha ⊢
    by_cases hbm : b = m
    · exact Or.inl hbm
    have hbf := (List.mem_erase_of_ne hbm).mpr hbf
    rcases ha with rfl | ha
    · exact Or.inr (mem_entered_of_mem _ _ (by simp [hb]) hbf)
    · exact Or.inr (ih ha hbf)
  | case4 m stack free hm ih =>
    rw [walk_enter_of_not_mem next hm] at ha ⊢
    exact ih ha hbf

/-- All nodes that a walk over nodes to enter leaves have been entered. -/
theorem mem_left_enter : n ∈ left (walk next (ns.map .enter) free) ↔
    n ∈ entered (walk next (ns.map .enter) free) := by
  rw [mem_left_iff, or_iff_right (by simp)]

/-! ## Nodes that are left before another -/

/-- Where a place in a list lies that has been cut at another one. -/
theorem split_cases {l l' pre post : List α} (h : l ++ n :: l' = pre ++ b :: post) :
    (∃ mid, l = pre ++ b :: mid) ∨ (b = n ∧ pre = l) ∨
      ∃ mid, pre = l ++ n :: mid ∧ l' = mid ++ b :: post := by
  rcases List.append_eq_append_iff.mp h with ⟨mid, rfl, hmid⟩ | ⟨mid, rfl, hmid⟩
  · rcases List.cons_eq_append_iff.mp hmid with ⟨rfl, hcons⟩ | ⟨mid, rfl, hrest⟩
    · exact Or.inr (Or.inl ⟨(List.cons.inj hcons).1, List.append_nil l⟩)
    · exact Or.inr (Or.inr ⟨mid, rfl, hrest⟩)
  · rcases List.cons_eq_append_iff.mp hmid with ⟨rfl, hcons⟩ | ⟨mid, rfl, -⟩
    · exact Or.inr (Or.inl ⟨(List.cons.inj hcons).1.symm, (List.append_nil pre).symm⟩)
    · exact Or.inl ⟨mid, rfl⟩

/-- What leads to a node along nodes that are left before it is reached from it. -/
theorem reaches_of_left :
    ∀ (ns free : List α), free.Nodup → ∀ {before after : List α},
      left (walk next (ns.map .enter) free) = before ++ b :: after →
      Relation.ReflTransGen (fun x y => x ∈ b :: before ∧ y ∈ next x) a b →
      Relation.ReflTransGen (fun x y => y ∈ next x) b a
  | [], free, _, before, after, h, _ => by simp at h
  | n :: ns, free, hf, before, after, h, hpath => by
    by_cases hn : n ∈ free
    swap
    · rw [List.map_cons, walk_enter_of_not_mem next hn] at h
      exact reaches_of_left ns free hf h hpath
    obtain ⟨rest, hsub, hrest, hwalk⟩ := walk_visit next hf hn ns
    have hshort := List.length_erase_of_mem hn
    have hpos := List.length_pos_of_mem hn
    have hle := hsub.length_le
    rw [hwalk, left_enter, left_append, left_leave] at h
    rcases split_cases h with ⟨mid, hinner⟩ | ⟨rfl, rfl⟩ | ⟨mid, rfl, hlater⟩
    -- `b` is visited on behalf of `n`, and all that was left before it as well.
    · exact reaches_of_left (next n) (free.erase n) (hf.erase n) hinner hpath
    -- `b` is `n` itself.
    · rcases hpath.cases_head with rfl | ⟨k, ⟨ha, -⟩, -⟩
      · exact .refl
      rcases List.mem_cons.mp ha with rfl | ha
      · exact .refl
      obtain ⟨k, hk, -, hreach⟩ := reaches_of_entered _ _ (mem_left_enter.mp ha)
      obtain ⟨k', hk', heq⟩ := List.mem_map.mp hk
      obtain rfl := Visit.enter.inj heq
      exact (Relation.ReflTransGen.mono (fun x y h => h.2.2) _ _ hreach).head hk'
    -- `b` is visited later, and so is the whole path, for else `n` would have led to `b`.
    · have hvisited : ∀ {x y}, x ∈ left (walk next ((next n).map .enter) (free.erase n)) ∨ x = n →
          y ∈ next x → y ∉ left (walk next (ns.map .enter) rest) := by
        intro x y hx hxy hy
        have hy := (hrest y).mp (mem_free_of_mem_entered _ _ (mem_left_enter.mp hy))
        refine hy.2 ?_
        rcases hx with hx | rfl
        · exact mem_entered_of_next _ _ (mem_left_enter.mp hx) hxy hy.1
        · exact mem_entered_of_mem _ _ (List.mem_map_of_mem hxy) hy.1
      have hpath' : a ∈ b :: mid ∧
          Relation.ReflTransGen (fun x y => x ∈ b :: mid ∧ y ∈ next x) a b := by
        induction hpath using Relation.ReflTransGen.head_induction_on with
        | refl => exact ⟨List.mem_cons_self, .refl⟩
        | @head x y hxy _ ih =>
          obtain ⟨hy, hpath⟩ := ih
          obtain ⟨hx, hnext⟩ := hxy
          have hy : y ∈ left (walk next (ns.map .enter) rest) := by
            rw [hlater]
            rcases List.mem_cons.mp hy with rfl | hy <;> simp [*]
          have hx : x ∈ b :: mid := by
            rw [List.mem_cons, List.mem_append, List.mem_cons] at hx
            rcases hx with rfl | hx | rfl | hx
            · exact List.mem_cons_self
            · exact absurd hy (hvisited (Or.inl hx) hnext)
            · exact absurd hy (hvisited (Or.inr rfl) hnext)
            · exact List.mem_cons_of_mem _ hx
          exact ⟨hx, hpath.head ⟨hx, hnext⟩⟩
      exact reaches_of_left ns rest ((hf.erase n).sublist hsub) hlater hpath'.2
termination_by ns free => (free.length, ns.length)

/-! ## Cycles -/

/-- A node that comes too late leads to one that comes before it. -/
theorem late?_eq_some {p : α} :
    ∀ {ns seen : List α}, g.late? seen ns = some p → p ∉ seen ∧
      ∃ n l l', ns = l ++ n :: l' ∧ p ∈ g.predecessors n ∧ p ≠ n ∧ p ∉ l
  | n :: ns, seen, h => by
    rw [late?] at h
    split at h
    · rename_i q hfind
      obtain rfl := Option.some.inj h
      have hnot : q ≠ n ∧ q ∉ seen := by simpa using List.find?_some hfind
      exact ⟨hnot.2, n, [], ns, rfl, List.mem_of_find?_eq_some hfind, hnot.1, List.not_mem_nil⟩
    · obtain ⟨hseen, k, l, l', rfl, hp, hpk, hpl⟩ := late?_eq_some h
      rw [List.mem_cons, not_or] at hseen
      refine ⟨hseen.2, k, n :: l, l', rfl, hp, hpk, ?_⟩
      rw [List.mem_cons, not_or]
      exact ⟨hseen.1, hpl⟩

/-- If there is no order, the node that is named lies on a cycle. -/
theorem cycle_of_order_eq_error (h : g.Proper) (he : g.order = .error n) :
    Relation.TransGen g.Leads n n := by
  unfold order at he
  simp only at he
  split at he
  · rename_i m hself
    obtain rfl := Except.error.inj he
    exact .single (mem_successors.mp (by simpa using List.find?_some hself))
  split at he
  · rename_i p hlate
    obtain rfl := Except.error.inj he
    obtain ⟨-, n, l, l', heq, hp, hpn, hpl⟩ := late?_eq_some hlate
    have hedge : g.Leads p n := mem_predecessors.mp hp
    -- `p` is left before `n`, so it is reached from there.
    have hleft : left (g.search g.successors) = l'.reverse ++ n :: l.reverse := by
      rw [← List.reverse_reverse (left _), heq]
      simp
    have hmem : p ∈ l'.reverse := by
      have hp : p ∈ left (g.search g.successors) := mem_left_search.mpr (h.source hedge)
      rw [hleft, List.mem_append, List.mem_cons] at hp
      exact hp.resolve_right fun hp => hp.elim hpn fun hp => hpl (List.mem_reverse.mp hp)
    have hreach := reaches_of_left g.nodes g.nodes h.nodup hleft
      (.single ⟨List.mem_cons_of_mem _ hmem, mem_successors.mpr hedge⟩)
    exact .head' hedge (Relation.ReflTransGen.mono (fun x y => mem_successors.mp) _ _ hreach)
  · simp at he

/-- What is entered from a node, of nodes that a search against the edges leaves before it, is
reached from that node and reaches it. -/
theorem mutual_of_mem_entered (h : g.Proper) {before after : List α}
    (hleft : left (g.search g.predecessors) = before ++ n :: after)
    (hfree : ∀ x ∈ free, x ∈ n :: before)
    (hm : m ∈ entered (walk g.successors [.enter n] free)) :
    Relation.ReflTransGen g.Leads n m ∧ Relation.ReflTransGen g.Leads m n := by
  obtain ⟨k, hk, -, hpath⟩ := reaches_of_entered _ _ hm
  obtain rfl := Visit.enter.inj (List.mem_singleton.mp hk)
  refine ⟨Relation.ReflTransGen.mono (fun x y h => mem_successors.mp h.2.2) _ _ hpath, ?_⟩
  have hback : Relation.ReflTransGen (fun x y => x ∈ k :: before ∧ y ∈ g.predecessors x) m k :=
    Relation.ReflTransGen.mono (fun x y h =>
      ⟨hfree x h.2.1, mem_predecessors.mpr (mem_successors.mp h.2.2)⟩) _ _ hpath.swap
  have hreach := reaches_of_left g.nodes g.nodes h.nodup hleft hback
  exact Relation.ReflTransGen.mono (fun x y => mem_predecessors.mp) _ _ hreach.swap

/-- A component has a first node, which all others reach and are reached from. -/
theorem mutual_of_mem_componentsFrom (h : g.Proper) :
    ∀ {leaders free before : List α}, free.Nodup →
      (left (g.search g.predecessors)).reverse = before ++ leaders →
      (∀ n ∈ free, n ∈ leaders) → c ∈ g.componentsFrom leaders free →
      ∃ n rest, c = n :: rest ∧ ∀ m ∈ rest, m ≠ n ∧
        Relation.ReflTransGen g.Leads n m ∧ Relation.ReflTransGen g.Leads m n
  | n :: leaders, free, before, hf, heq, hleaders, hc => by
    have hstep : (left (g.search g.predecessors)).reverse = (before ++ [n]) ++ leaders := by
      simpa using heq
    rw [componentsFrom] at hc
    split at hc
    · rename_i hn
      rcases List.mem_cons.mp hc with rfl | hc
      · have hleft : left (g.search g.predecessors) = leaders.reverse ++ n :: before.reverse := by
          rw [← List.reverse_reverse (left _), heq]
          simp
        refine ⟨n, _, by rw [walk_enter_of_mem g.successors hn, entered_enter],
          fun m hm => ⟨?_, ?_⟩⟩
        · rintro rfl
          exact hf.not_mem_erase (mem_free_of_mem_entered _ _ hm)
        · have hentered : m ∈ entered (walk g.successors [.enter n] free) := by
            rw [walk_enter_of_mem g.successors hn, entered_enter]
            exact List.mem_cons_of_mem _ hm
          exact mutual_of_mem_entered h hleft (fun x hx => by simpa using hleaders x hx) hentered
      · refine mutual_of_mem_componentsFrom h (hf.filter _) hstep (fun m hm => ?_) hc
        obtain ⟨hm, hnot⟩ := List.mem_filter.mp hm
        have hmn : m ≠ n := by
          rintro rfl
          simp [walk_enter_of_mem g.successors hn] at hnot
        exact (List.mem_cons.mp (hleaders m hm)).resolve_left hmn
    · rename_i hn
      refine mutual_of_mem_componentsFrom h hf hstep (fun m hm => ?_) hc
      exact (List.mem_cons.mp (hleaders m hm)).resolve_left fun hmn => hn (hmn ▸ hm)

/-- Every node of a component that has a cycle lies on one. -/
theorem cycle_of_cyclicComponent?_eq_some (h : g.Proper) (hc : g.cyclicComponent? = some c)
    (hm : m ∈ c) : Relation.TransGen g.Leads m m := by
  have hleaders : (left (g.search g.predecessors)).reverse =
      [] ++ (left (g.search g.predecessors)).reverse := rfl
  obtain ⟨n, rest, rfl, hmutual⟩ := mutual_of_mem_componentsFrom h h.nodup hleaders
    (fun n hn => List.mem_reverse.mpr (mem_left_search.mpr hn)) (List.mem_of_find?_eq_some hc)
  have hfound := List.find?_some hc
  have hcycle : ∀ k ∈ rest, Relation.TransGen g.Leads n k ∧ Relation.TransGen g.Leads k n :=
    fun k hk => by
      obtain ⟨hkn, hto, hfrom⟩ := hmutual k hk
      exact ⟨(Relation.reflTransGen_iff_eq_or_transGen.mp hto).resolve_left hkn,
        (Relation.reflTransGen_iff_eq_or_transGen.mp hfrom).resolve_left hkn.symm⟩
  rcases List.mem_cons.mp hm with rfl | hm
  · cases rest with
    | nil => exact .single (mem_successors.mp (by simpa using hfound))
    | cons k rest =>
      obtain ⟨hto, hfrom⟩ := hcycle k List.mem_cons_self
      exact hto.trans hfrom
  · obtain ⟨hto, hfrom⟩ := hcycle m hm
    exact hfrom.trans hto

end Digraph

namespace ExtensionGraph

variable {l : List (Iri × List Iri)} {g : ExtensionGraph} {c p : Iri}

/-- Whether a class is listed with a parent. -/
def Extends (l : List (Iri × List Iri)) (c p : Iri) : Prop := ∃ e ∈ l, c = e.1 ∧ p ∈ e.2

theorem leads_ofParents : (ofParents l).Leads = Extends l :=
  funext fun _ => funext fun _ => propext mem_edges_ofParents

theorem mem_of_least?_eq_some :
    ∀ {is : List Iri} {c : Iri}, least? is = some c → c ∈ is
  | i :: is, c, h => by
    rw [least?] at h
    split at h
    · rename_i other hrest
      obtain rfl := Option.some.inj h
      split
      · exact List.mem_cons_of_mem _ (mem_of_least?_eq_some hrest)
      · exact List.mem_cons_self
    · obtain rfl := Option.some.inj h
      exact List.mem_cons_self

/-- A class that is found to extend itself does. -/
theorem cycle_of_cycle?_eq_some (h : (ofParents l).cycle? = some c) :
    Relation.TransGen (Extends l) c c := by
  obtain ⟨component, hcomponent, hleast⟩ := Option.bind_eq_some_iff.mp h
  rw [← leads_ofParents]
  exact Digraph.cycle_of_cyclicComponent?_eq_some (proper_ofParents l) hcomponent
    (mem_of_least?_eq_some hleast)

theorem checkAcyclic_eq_ok_iff : g.checkAcyclic = .ok () ↔ g.cycle? = none := by
  unfold checkAcyclic
  split <;> simp [*]

theorem checkAcyclic_eq_error_iff {e : ModelError} :
    g.checkAcyclic = .error e ↔ ∃ c, g.cycle? = some c ∧ e = .extensionCycle c := by
  unfold checkAcyclic
  split <;> simp [*, eq_comm]

theorem parentsFirst_eq_ok_iff {ns : List Iri} :
    g.parentsFirst = .ok ns ↔ g.order = .ok ns.reverse := by
  unfold parentsFirst
  split <;> simp [*, List.reverse_eq_iff]

theorem parentsFirst_eq_error_iff {e : ModelError} :
    g.parentsFirst = .error e ↔ ∃ c, g.order = .error c ∧ e = .extensionCycle c := by
  unfold parentsFirst
  split <;> simp [*, eq_comm]

/-- There is no class on a cycle to be found exactly if no class extends itself. -/
theorem checkAcyclic_ofParents_iff :
    (ofParents l).checkAcyclic = .ok () ↔ ∀ c, ¬ Relation.TransGen (Extends l) c c := by
  constructor
  · intro h
    obtain ⟨ns, hns, -⟩ := exists_parentsFirst_eq_ok h
    rw [← leads_ofParents]
    exact (Digraph.exists_order_eq_ok_iff (proper_ofParents l)).mp
      ⟨_, parentsFirst_eq_ok_iff.mp hns⟩
  · intro h
    rw [checkAcyclic_eq_ok_iff, Option.eq_none_iff_forall_not_mem]
    exact fun c hc => h c (cycle_of_cycle?_eq_some hc)

/-- A class comes after those that it extends. -/
theorem mem_before_of_parentsFirst {before after : List Iri}
    (h : (ofParents l).parentsFirst = .ok (before ++ c :: after)) (hp : Extends l c p) :
    p ∈ before := by
  rw [parentsFirst_eq_ok_iff] at h
  have hedge : (ofParents l).Leads c p := mem_edges_ofParents.mpr hp
  have hlt := Digraph.idxOf_lt_of_order_eq_ok (proper_ofParents l) h hedge
  have hnodup := Digraph.nodup_of_order_eq_ok (proper_ofParents l) h
  have hmem := (Digraph.mem_of_order_eq_ok h).mpr ((proper_ofParents l).target hedge)
  have hreverse : (before ++ c :: after).reverse = after.reverse ++ c :: before.reverse := by simp
  rw [hreverse] at hlt hnodup hmem
  have hc : c ∉ after.reverse := fun hc =>
    List.disjoint_of_nodup_append hnodup hc List.mem_cons_self
  rw [List.idxOf_append_of_notMem hc, List.idxOf_cons_self] at hlt
  rw [List.mem_append, List.mem_cons] at hmem
  rcases hmem with hmem | rfl | hmem
  · rw [List.idxOf_append_of_mem hmem] at hlt
    have := List.idxOf_lt_length_of_mem hmem
    omega
  · rw [List.idxOf_append_of_notMem hc, List.idxOf_cons_self] at hlt
    exact absurd hlt (Nat.lt_irrefl _)
  · exact List.mem_reverse.mp hmem

/-- Classes can be listed parents first exactly if no class on a cycle is found, that is, if no
class extends itself through one or more others. The list has every class and every parent
once, after all that it extends. Whichever way a cycle is found, the class that is named
extends itself. -/
theorem parentsFirst_and_cycle?_ofParents (l : List (Iri × List Iri)) :
    ((∃ ns, (ofParents l).parentsFirst = .ok ns) ↔ (ofParents l).checkAcyclic = .ok ()) ∧
    ((ofParents l).checkAcyclic = .ok () ↔ ∀ c, ¬ Relation.TransGen (Extends l) c c) ∧
    (∀ ns, (ofParents l).parentsFirst = .ok ns →
      ns.Nodup ∧ (∀ n, n ∈ ns ↔ ∃ e ∈ l, n = e.1 ∨ n ∈ e.2) ∧
      ∀ before c after, ns = before ++ c :: after → ∀ p, Extends l c p → p ∈ before) ∧
    (∀ c, (ofParents l).cycle? = some c → Relation.TransGen (Extends l) c c) ∧
    (∀ e, (ofParents l).checkAcyclic = .error e →
      ∃ c, (ofParents l).cycle? = some c ∧ e = .extensionCycle c) ∧
    ∀ e, (ofParents l).parentsFirst = .error e →
      ∃ c, e = .extensionCycle c ∧ Relation.TransGen (Extends l) c c := by
  refine ⟨?_, checkAcyclic_ofParents_iff, fun ns hns => ⟨?_, fun n => ?_, ?_⟩,
    fun c => cycle_of_cycle?_eq_some, fun e => checkAcyclic_eq_error_iff.mp, fun e he => ?_⟩
  · rw [checkAcyclic_ofParents_iff, ← leads_ofParents]
    refine Iff.trans ?_ (Digraph.exists_order_eq_ok_iff (proper_ofParents l))
    exact ⟨fun ⟨ns, hns⟩ => ⟨_, parentsFirst_eq_ok_iff.mp hns⟩,
      fun ⟨ns, hns⟩ => ⟨ns.reverse, parentsFirst_eq_ok_iff.mpr (by rwa [List.reverse_reverse])⟩⟩
  · exact List.nodup_reverse.mp
      (Digraph.nodup_of_order_eq_ok (proper_ofParents l) (parentsFirst_eq_ok_iff.mp hns))
  · rw [mem_of_parentsFirst hns, mem_nodes_ofParents]
  · rintro before c after rfl p hp
    exact mem_before_of_parentsFirst hns hp
  · obtain ⟨c, hc, rfl⟩ := parentsFirst_eq_error_iff.mp he
    exact ⟨c, rfl, leads_ofParents ▸ Digraph.cycle_of_order_eq_error (proper_ofParents l) hc⟩

/-- Where only one class has a parent, only that class extends another. -/
theorem transGen_extends_singleton {child parent : Iri}
    (h : Relation.TransGen (Extends [(child, [parent])]) c p) : c = child ∧ p = parent := by
  have hends : ∀ {c p}, Extends [(child, [parent])] c p → c = child ∧ p = parent := by
    rintro c p ⟨e, he, rfl, hp⟩
    obtain rfl := List.mem_singleton.mp he
    exact ⟨rfl, List.mem_singleton.mp hp⟩
  obtain ⟨_, hfirst, -⟩ := Relation.TransGen.head'_iff.mp h
  obtain ⟨_, -, hlast⟩ := Relation.TransGen.tail'_iff.mp h
  exact ⟨(hends hfirst).1, (hends hlast).2⟩

/-- A class comes after its parent, and a class that is its own parent is named. -/
theorem parentsFirst_and_cycle?_parent :
    (∃ before after, (ofParents [("person", ["agent"])]).parentsFirst =
      .ok (before ++ "person" :: after) ∧ "agent" ∈ before) ∧
    (ofParents [("agent", ["agent"])]).parentsFirst = .error (.extensionCycle "agent") ∧
    (ofParents [("agent", ["agent"])]).checkAcyclic = .error (.extensionCycle "agent") := by
  constructor
  · obtain ⟨horder, hacyclic, hlists, -⟩ :=
      parentsFirst_and_cycle?_ofParents [("person", ["agent"])]
    have hnot : ∀ c, ¬ Relation.TransGen (Extends [("person", ["agent"])]) c c := by
      intro c hc
      obtain ⟨rfl, hparent⟩ := transGen_extends_singleton hc
      exact absurd hparent (by decide)
    obtain ⟨ns, hns⟩ := horder.mpr (hacyclic.mpr hnot)
    obtain ⟨-, hmem, hbefore⟩ := hlists ns hns
    obtain ⟨before, after, rfl⟩ :=
      List.append_of_mem ((hmem "person").mpr ⟨_, List.mem_singleton_self _, Or.inl rfl⟩)
    have hextends : Extends [("person", ["agent"])] "person" "agent" :=
      ⟨_, List.mem_singleton_self _, rfl, List.mem_singleton_self _⟩
    exact ⟨before, after, hns, hbefore before "person" after rfl "agent" hextends⟩
  · obtain ⟨horder, hacyclic, -, hcycle, hfails, hfails'⟩ :=
      parentsFirst_and_cycle?_ofParents [("agent", ["agent"])]
    have hnot : ¬ (ofParents [("agent", ["agent"])]).checkAcyclic = .ok () := fun hok =>
      hacyclic.mp hok "agent"
        (.single ⟨_, List.mem_singleton_self _, rfl, List.mem_singleton_self _⟩)
    constructor
    · cases h : (ofParents [("agent", ["agent"])]).parentsFirst with
      | ok ns => exact absurd (horder.mp ⟨ns, h⟩) hnot
      | error e =>
        obtain ⟨c, rfl, hc⟩ := hfails' e h
        rw [(transGen_extends_singleton hc).1]
    · cases h : (ofParents [("agent", ["agent"])]).checkAcyclic with
      | ok u => exact absurd h hnot
      | error e =>
        obtain ⟨c, hc, rfl⟩ := hfails e h
        rw [(transGen_extends_singleton (hcycle c hc)).1]

end ExtensionGraph

end DataSpec
