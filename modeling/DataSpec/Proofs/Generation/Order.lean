import DataSpec.Generation.Order
import DataSpec.Proofs.Except
import DataSpec.Proofs.Graph.Acyclic

/-!
# The order of artefacts

Artefacts are ordered by their places in the specification. An edge leads to the place of an
artefact from the place of each that it depends on (`leads_dependencies`), so the graph has a
cycle when an artefact depends on itself, directly or through others, and only then
(`acyclic_dependencies_iff`). An order exists exactly if all dependencies are artefacts of
the specification and there is no such cycle (`exists_order_iff`).

If the identifiers of the artefacts differ, the order has every artefact once, each after all
that it depends on (`isOrder_of_order`).
-/

set_option autoImplicit false

namespace DataSpec.DataSpecification

variable {s : DataSpecification} {a : Artefact} {iri x y : Iri} {i j : Nat} {l : List Artefact}

/-- Whether an artefact of the specification depends on another, by their identifiers. -/
def DependsOn (s : DataSpecification) (x y : Iri) : Prop :=
  ∃ a ∈ s.artefacts, a.iri = x ∧ y ∈ a.dependsOn

/-- All dependencies are artefacts of the specification. -/
def Supplied (s : DataSpecification) : Prop :=
  ∀ a ∈ s.artefacts, ∀ iri ∈ a.dependsOn, ∃ b ∈ s.artefacts, b.iri = iri

/-- No artefact depends on itself, directly or through others. -/
def Acyclic (s : DataSpecification) : Prop := ∀ iri, ¬ Relation.TransGen s.DependsOn iri iri

/-- The identifiers of the artefacts differ. -/
def Distinct (s : DataSpecification) : Prop := (s.artefacts.map Artefact.iri).Nodup

/-- A list that has every artefact once, each after all that it depends on. -/
structure IsOrder (s : DataSpecification) (l : List Artefact) : Prop where
  perm : l.Perm s.artefacts
  before : ∀ {done a rest}, l = done ++ a :: rest → ∀ iri ∈ a.dependsOn, ∃ b ∈ done, b.iri = iri

/-! ## Places -/

theorem getElem?_of_place? (h : s.place? iri = some i) :
    ∃ a, s.artefacts[i]? = some a ∧ a.iri = iri := by
  obtain ⟨⟨a, k⟩, hfind, rfl⟩ := Option.map_eq_some_iff.mp h
  have hmem := List.mem_reverse.mp (List.mem_of_find?_eq_some hfind)
  exact ⟨a, List.mem_zipIdx_iff_getElem?.mp hmem, by simpa using List.find?_some hfind⟩

theorem place?_lt (h : s.place? iri = some i) : i < s.artefacts.length := by
  obtain ⟨a, ha, -⟩ := getElem?_of_place? h
  exact (List.getElem?_eq_some_iff.mp ha).1

/-- An artefact has a place. -/
theorem exists_place? (ha : a ∈ s.artefacts) : ∃ i, s.place? a.iri = some i := by
  obtain ⟨k, hk⟩ := List.getElem?_of_mem ha
  have hsome : (s.artefacts.zipIdx.reverse.find? fun e => e.1.iri = a.iri).isSome := by
    rw [List.find?_isSome]
    exact ⟨(a, k), List.mem_reverse.mpr (List.mem_zipIdx_iff_getElem?.mpr hk), by simp⟩
  obtain ⟨e, he⟩ := Option.isSome_iff_exists.mp hsome
  exact ⟨e.2, by rw [place?, he]; rfl⟩

/-- Artefacts of different identifiers have the places at which they are. -/
theorem place?_of_getElem? (hs : s.Distinct) (hi : s.artefacts[i]? = some a) :
    s.place? a.iri = some i := by
  obtain ⟨j, hj⟩ := exists_place? (List.mem_of_getElem? hi)
  obtain ⟨b, hb, heq⟩ := getElem?_of_place? hj
  have hij : (s.artefacts.map Artefact.iri)[i]? = (s.artefacts.map Artefact.iri)[j]? := by
    rw [List.getElem?_map, List.getElem?_map, hi, hb]
    exact congrArg some heq.symm
  have hlt : i < (s.artefacts.map Artefact.iri).length := by
    rw [List.length_map]
    exact (List.getElem?_eq_some_iff.mp hi).1
  rw [hj, (List.getElem?_inj hlt hs).mp hij]

/-! ## The graph of places -/

theorem mem_dependencyEdges :
    (i, j) ∈ s.dependencyEdges ↔ ∃ a ∈ s.artefacts, ∃ iri ∈ a.dependsOn,
      s.place? iri = some i ∧ s.place? a.iri = some j := by
  simp only [dependencyEdges, List.mem_flatMap, List.mem_filterMap, dependencyEdge?]
  refine exists_congr fun a => and_congr_right fun _ => exists_congr fun iri =>
    and_congr_right fun _ => ?_
  cases s.place? iri <;> cases s.place? a.iri <;> simp

theorem nodes_of_mem_dependencyEdges {e : Nat × Nat} (he : e ∈ s.dependencyEdges) :
    e.1 ∈ List.range s.artefacts.length ∧ e.2 ∈ List.range s.artefacts.length := by
  obtain ⟨a, -, iri, -, hi, hj⟩ := mem_dependencyEdges.mp he
  exact ⟨List.mem_range.mpr (place?_lt hi), List.mem_range.mpr (place?_lt hj)⟩

theorem mem_nodes_dependencies : i ∈ s.dependencies.nodes ↔ i < s.artefacts.length := by
  rw [dependencies, Digraph.mem_nodes_foldl_addEdge fun e he => nodes_of_mem_dependencyEdges he,
    List.mem_range]

theorem proper_dependencies (s : DataSpecification) : s.dependencies.Proper :=
  Digraph.Proper.foldl_addEdge s.dependencyEdges ⟨List.nodup_range, nofun, nofun⟩

/-- Edges lead to the place of an artefact from the places of those that it depends on. -/
theorem leads_dependencies :
    s.dependencies.Leads i j ↔ ∃ a ∈ s.artefacts, ∃ iri ∈ a.dependsOn,
      s.place? iri = some i ∧ s.place? a.iri = some j := by
  rw [Digraph.Leads, dependencies, Digraph.mem_edges_foldl_addEdge, mem_dependencyEdges]
  exact or_iff_right List.not_mem_nil

/-! ## Cycles -/

/-- If all dependencies are there, the graph of places has a cycle if and only if an artefact
depends on itself. -/
theorem acyclic_dependencies_iff (hs : s.Supplied) : s.dependencies.Acyclic ↔ s.Acyclic := by
  constructor
  · intro h iri hi
    have hleads : ∀ {x y}, s.DependsOn x y →
        s.dependencies.Leads ((s.place? y).getD 0) ((s.place? x).getD 0) := by
      rintro x y ⟨a, ha, rfl, hy⟩
      obtain ⟨b, hb, rfl⟩ := hs a ha y hy
      obtain ⟨i, hi⟩ := exists_place? ha
      obtain ⟨j, hj⟩ := exists_place? hb
      rw [hi, hj]
      exact leads_dependencies.mpr ⟨a, ha, b.iri, hy, hj, hi⟩
    refine h ((s.place? iri).getD 0) (Relation.transGen_swap.mp ?_)
    exact Relation.TransGen.lift (p := Function.swap s.dependencies.Leads)
      (fun x => (s.place? x).getD 0) (fun _ _ => hleads) iri iri hi
  · intro h i hi
    have hdepends : ∀ {i j}, s.dependencies.Leads i j →
        s.DependsOn ((s.artefacts[j]?.map Artefact.iri).getD "")
          ((s.artefacts[i]?.map Artefact.iri).getD "") := by
      intro i j hij
      obtain ⟨a, ha, iri, hiri, hi, hj⟩ := leads_dependencies.mp hij
      obtain ⟨b, hb, rfl⟩ := getElem?_of_place? hi
      obtain ⟨c, hc, heq⟩ := getElem?_of_place? hj
      rw [hb, hc]
      exact ⟨a, ha, heq.symm, hiri⟩
    refine h ((s.artefacts[i]?.map Artefact.iri).getD "") (Relation.transGen_swap.mp ?_)
    exact Relation.TransGen.lift (p := Function.swap s.DependsOn)
      (fun i => (s.artefacts[i]?.map Artefact.iri).getD "") (fun _ _ => hdepends) i i hi

/-! ## The order -/

theorem checkDependencies_eq_ok :
    s.checkDependencies a = .ok () ↔ ∀ iri ∈ a.dependsOn, ∃ b ∈ s.artefacts, b.iri = iri := by
  have hfind : s.checkDependencies a = .ok () ↔
      (a.dependsOn.find? fun iri => (s.artefact? iri).isNone) = none := by
    unfold checkDependencies
    split <;> simp_all
  rw [hfind, List.find?_eq_none]
  refine forall_congr' fun iri => imp_congr_right fun _ => ?_
  rw [Option.isNone_iff_eq_none, artefact?, List.find?_eq_none]
  simp

theorem order_eq_ok :
    s.order = .ok l ↔ s.Supplied ∧ ∃ places, s.dependencies.order = .ok places ∧
      l = places.filterMap fun i => s.artefacts[i]? := by
  have hsupplied : s.artefacts.forM s.checkDependencies = .ok () ↔ s.Supplied :=
    Except.forM_eq_ok.trans (forall₂_congr fun _ _ => checkDependencies_eq_ok)
  rw [← hsupplied]
  unfold order
  refine Except.bind_eq_ok.trans ⟨?_, ?_⟩
  · rintro ⟨_, hs, h⟩
    refine ⟨hs, ?_⟩
    split at h
    · rename_i places hplaces
      exact ⟨places, hplaces, (Except.ok.inj h).symm⟩
    · simp at h
  · rintro ⟨hs, places, hplaces, rfl⟩
    exact ⟨(), hs, by rw [hplaces]; rfl⟩

/-- There is an order if and only if all dependencies are there and no artefact depends on
itself. -/
theorem exists_order_iff : (∃ l, s.order = .ok l) ↔ s.Supplied ∧ s.Acyclic := by
  simp only [order_eq_ok]
  constructor
  · rintro ⟨l, hs, places, hplaces, -⟩
    exact ⟨hs, (acyclic_dependencies_iff hs).mp
      ((Digraph.exists_order_eq_ok_iff s.proper_dependencies).mp ⟨places, hplaces⟩)⟩
  · rintro ⟨hs, hc⟩
    obtain ⟨places, hplaces⟩ := (Digraph.exists_order_eq_ok_iff s.proper_dependencies).mpr
      ((acyclic_dependencies_iff hs).mpr hc)
    exact ⟨_, hs, places, hplaces, rfl⟩

theorem filterMap_getElem?_range (as : List Artefact) :
    (List.range as.length).filterMap (fun i => as[i]?) = as := by
  induction as with
  | nil => rfl
  | cons a as ih =>
    rw [List.length_cons, List.range_succ_eq_map, List.filterMap_cons, List.filterMap_map]
    exact congrArg (a :: ·) ih

/-- The order has every artefact once, each after all that it depends on. -/
theorem isOrder_of_order (hs : s.Distinct) (h : s.order = .ok l) : s.IsOrder l := by
  obtain ⟨hsupplied, places, hplaces, rfl⟩ := order_eq_ok.mp h
  refine ⟨?_, fun {done a rest} hsplit iri hiri => ?_⟩
  · have hperm : places.Perm (List.range s.artefacts.length) :=
      (List.perm_ext_iff_of_nodup (Digraph.nodup_of_order_eq_ok s.proper_dependencies hplaces)
        List.nodup_range).mpr fun i => by
          rw [Digraph.mem_of_order_eq_ok hplaces, mem_nodes_dependencies, List.mem_range]
    have hall := hperm.filterMap fun i => s.artefacts[i]?
    rwa [filterMap_getElem?_range] at hall
  · -- The artefact stands at a place of the order, and what stands before it there is `done`.
    obtain ⟨before, after, rfl, hbefore, hafter⟩ := List.filterMap_eq_append_iff.mp hsplit
    obtain ⟨skipped, i, after, rfl, hskipped, hi, -⟩ := List.filterMap_eq_cons_iff.mp hafter
    have ha : a ∈ s.artefacts := List.mem_of_getElem? hi
    obtain ⟨b, hb, rfl⟩ := hsupplied a ha iri hiri
    obtain ⟨j, hj⟩ := exists_place? hb
    have hlead : s.dependencies.Leads j i :=
      leads_dependencies.mpr ⟨a, ha, b.iri, hiri, hj, place?_of_getElem? hs hi⟩
    obtain ⟨c, hc, hciri⟩ := getElem?_of_place? hj
    have hfinished := Digraph.finished_of_order_eq_ok hplaces
    rw [← List.append_assoc] at hfinished
    have hmem := (hfinished.before (Digraph.mem_predecessors.mpr hlead)).resolve_left
      List.not_mem_nil
    refine ⟨c, hbefore ▸ List.mem_filterMap.mpr ⟨j, ?_, hc⟩, hciri⟩
    refine (List.mem_append.mp hmem).resolve_right fun hj' => ?_
    simp [hskipped j hj'] at hc

/-- Of two artefacts of which one depends on the other, that other is the first. -/
theorem order_pair {b : Artefact} (h : s.artefacts = [a, b]) (ha : a.dependsOn = [b.iri])
    (hb : b.dependsOn = []) (hne : a.iri ≠ b.iri) : s.order = .ok [b, a] := by
  have hplaceA : s.place? a.iri = some 0 := by simp [place?, h, hne.symm]
  have hplaceB : s.place? b.iri = some 1 := by simp [place?, h]
  have hedges : s.dependencyEdges = [(1, 0)] := by
    simp [dependencyEdges, dependencyEdge?, h, ha, hb, hplaceA, hplaceB]
  have hgraph : s.dependencies = ⟨[0, 1], [(1, 0)]⟩ := by
    rw [dependencies, hedges, h]
    rfl
  refine order_eq_ok.mpr ⟨fun c hc iri hiri => ?_, [1, 0], ?_, by simp [h]⟩
  · rw [h] at hc ⊢
    rcases List.mem_pair.mp hc with rfl | rfl
    · exact ⟨b, by simp, (List.mem_singleton.mp (ha ▸ hiri)).symm⟩
    · simp [hb] at hiri
  · rw [hgraph]
    simp [Digraph.order, Digraph.search, Digraph.walk, Digraph.entered, Digraph.left,
      Digraph.successors, Digraph.predecessors, Digraph.late?]

end DataSpec.DataSpecification
