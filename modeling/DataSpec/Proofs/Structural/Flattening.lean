import DataSpec.Proofs.Graph.Extension
import DataSpec.Proofs.Structural.Closed
import Mathlib.Data.List.Duplicate

/-!
# Inheritance

`inheritInto` empties the parents of one class (`inheritInto_cases`), keeps the model closed
and fails only on what a class would inherit twice. A model that has passed the check for
cycles is flattened class by class (`flatten_eq_foldlM`), so in the end no class extends
another one (`parents_of_inheritAll`). There is nothing more to flatten then
(`flatten_eq_self`).
-/

set_option autoImplicit false
set_option linter.unusedSectionVars false

namespace DataSpec.StructuralModel

variable {m m' : StructuralModel} {iri k : Iri} {c c' : StructuralClass}

/-! ## Properties that are met again -/

/-- If no property is met again, all have different identifiers. -/
theorem nodup_of_repeated?_eq_none : ∀ {ps : List StructuralProperty} {seen : List Iri},
    repeated? seen ps = none →
      (ps.map StructuralProperty.iri).Nodup ∧ ∀ q ∈ ps, q.iri ∉ seen
  | [], _, _ => ⟨List.nodup_nil, nofun⟩
  | q :: rest, seen, h => by
    rw [repeated?] at h
    split at h
    · simp at h
    · rename_i hseen
      obtain ⟨hrest, hnot⟩ := nodup_of_repeated?_eq_none h
      refine ⟨List.nodup_cons.mpr ⟨fun hq => ?_, hrest⟩, List.forall_mem_cons.mpr
        ⟨by simpa using hseen, fun q' hq' => fun hmem => hnot q' hq' (List.mem_cons_of_mem _ hmem)⟩⟩
      obtain ⟨q', hq', heq⟩ := List.mem_map.mp hq
      exact hnot q' hq' (heq ▸ List.mem_cons_self)

/-- What is met again has been seen before or is there twice. -/
theorem duplicate_of_repeated? {p : Iri} : ∀ {ps : List StructuralProperty} {seen : List Iri},
    repeated? seen ps = some p → p ∈ ps.map StructuralProperty.iri ∧ p ∈ seen ∨
      List.Duplicate p (ps.map StructuralProperty.iri)
  | [], _, h => by simp [repeated?] at h
  | q :: rest, seen, h => by
    rw [repeated?] at h
    split at h
    · rename_i hseen
      obtain rfl := Option.some.inj h
      exact Or.inl ⟨List.mem_cons_self, List.contains_iff_mem.mp hseen⟩
    · rcases duplicate_of_repeated? h with ⟨hmem, hp⟩ | hdup
      · rcases List.mem_cons.mp hp with rfl | hp
        · exact Or.inr (.cons_mem hmem)
        · exact Or.inl ⟨List.mem_cons_of_mem _ hmem, hp⟩
      · exact Or.inr hdup.cons_duplicate

/-! ## Inheritance into one class -/

/-- A class with what it inherits. -/
def heir (c : StructuralClass) (inherited : List StructuralProperty) : StructuralClass :=
  { c with
    properties := withInherited inherited c.properties
    parents := []
    inheritsFrom := c.parents }

/-- A model with another class at an identifier. -/
def withClass (m : StructuralModel) (iri : Iri) (c : StructuralClass) : StructuralModel :=
  { m with classes := m.classes.insert iri c }

theorem class?_withClass (m : StructuralModel) (iri k : Iri) (c : StructuralClass) :
    (m.withClass iri c).class? k = if k = iri then some c else m.class? k :=
  SortedMap.get?_insert m.classes iri c k

theorem sameShape_withClass (h : m.Has iri) (c : StructuralClass) :
    SameShape m (m.withClass iri c) := by
  refine ⟨rfl, fun k => ?_⟩
  rw [withClass, SortedMap.contains_insert]
  by_cases hk : k = iri
  · subst hk
    rw [decide_eq_true rfl, Bool.true_or]
    exact h.symm
  · rw [decide_eq_false hk, Bool.false_or]

/-- Inheritance into a class that has parents. -/
theorem inheritInto_of_parents (hc : m.class? iri = some c) (hp : c.parents.isEmpty = false) :
    m.inheritInto iri = (c.parents.mapM m.requireClass).bind fun parents =>
      match repeated? [] (parents.flatMap StructuralClass.properties) with
      | some p => .error (.inheritedTwice iri p)
      | none => .ok (m.withClass iri (heir c (parents.flatMap StructuralClass.properties))) := by
  rw [inheritInto, hc]
  simp only [hp, Bool.false_eq_true, if_false]
  rfl

/-- A class without parents, or one that is not there, inherits nothing. -/
theorem inheritInto_of_no_parents (h : ∀ c, m.class? iri = some c → c.parents = []) :
    m.inheritInto iri = .ok m := by
  unfold inheritInto
  split
  · rfl
  · rw [h _ ‹_›]
    rfl

/-- What inheritance into one class does, if it succeeds : nothing if the class has no parents,
and else the class becomes an heir to properties of classes of the model. -/
theorem inheritInto_cases (hok : m.inheritInto iri = .ok m') :
    (m' = m ∧ ∀ c, m.class? iri = some c → c.parents = []) ∨
      ∃ c inherited, m.class? iri = some c ∧ m' = m.withClass iri (heir c inherited) ∧
        ∀ p ∈ inherited, ∃ k d, m.class? k = some d ∧ p ∈ d.properties := by
  by_cases hp : ∀ c, m.class? iri = some c → c.parents = []
  · rw [inheritInto_of_no_parents hp] at hok
    exact Or.inl ⟨(Except.ok.inj hok).symm, hp⟩
  · push Not at hp
    obtain ⟨c, hc, hp⟩ := hp
    rw [inheritInto_of_parents hc (by simpa using hp)] at hok
    obtain ⟨parents, hparents, hok⟩ := Except.bind_eq_ok.mp hok
    split at hok
    · simp at hok
    refine Or.inr ⟨c, _, hc, (Except.ok.inj hok).symm, fun p hp => ?_⟩
    obtain ⟨d, hd, hp⟩ := List.mem_flatMap.mp hp
    obtain ⟨k, -, hk⟩ := Except.exists_of_mem_mapM hparents hd
    exact ⟨k, d, class?_of_requireClass hk, hp⟩

/-- Inheritance into one class fails only on what is inherited twice. -/
theorem fails_inheritInto (h : m.Closed) (iri : Iri) :
    (m.inheritInto iri).Fails Unsupported := by
  by_cases hp : ∀ c, m.class? iri = some c → c.parents = []
  · rw [inheritInto_of_no_parents hp]
    exact .ok m
  · push Not at hp
    obtain ⟨c, hc, hp⟩ := hp
    rw [inheritInto_of_parents hc (by simpa using hp)]
    refine .bind (.mapM fun t ht => ?_) fun parents _ => ?_
    · obtain ⟨p, hp, -⟩ := exists_requireClass ((h.classes hc).parents t ht)
      rw [hp]
      exact .ok p
    · split
      · exact .error rfl
      · exact .ok _

theorem sameShape_inheritInto (hok : m.inheritInto iri = .ok m') : SameShape m m' := by
  obtain ⟨rfl, -⟩ | ⟨c, inherited, hc, rfl, -⟩ := inheritInto_cases hok
  · exact .refl m'
  · exact sameShape_withClass (has_iff.mpr ⟨c, hc⟩) _

/-- Inheritance into one class empties its parents and leaves other classes alone. -/
theorem class?_of_inheritInto (hok : m.inheritInto iri = .ok m') (hk : m'.class? k = some c') :
    (k = iri → c'.parents = []) ∧ (k ≠ iri → m.class? k = some c') := by
  obtain ⟨rfl, hp⟩ | ⟨c, inherited, -, rfl, -⟩ := inheritInto_cases hok
  · exact ⟨fun heq => hp _ (heq ▸ hk), fun _ => hk⟩
  · rw [class?_withClass] at hk
    split at hk
    · obtain rfl := Option.some.inj hk
      exact ⟨fun _ => rfl, fun hne => absurd ‹_› hne⟩
    · exact ⟨fun heq => absurd heq ‹_›, fun _ => hk⟩

theorem Closed.inheritInto (h : m.Closed) (hok : m.inheritInto iri = .ok m') : m'.Closed := by
  refine h.of_sameShape (sameShape_inheritInto hok) fun {k c'} hk => ?_
  obtain ⟨rfl, -⟩ | ⟨c, inherited, hc, rfl, hmem⟩ := inheritInto_cases hok
  · exact h.classes hk
  · rw [class?_withClass] at hk
    split at hk
    · obtain rfl := Option.some.inj hk
      refine ⟨fun p hp t ht => ?_, nofun, (h.classes hc).parents⟩
      rcases List.mem_append.mp hp with hp | hp
      · obtain ⟨k, d, hd, hp⟩ := hmem p hp
        exact (h.classes hd).types p hp t ht
      · exact (h.classes hc).types p (List.mem_filter.mp hp).1 t ht
    · exact h.classes hk

/-! ## Inheritance into classes one after the other -/

section

variable {order : List Iri}

theorem fails_inheritAll (h : m.Closed) :
    (order.foldlM StructuralModel.inheritInto m).Fails Unsupported := by
  induction order generalizing m with
  | nil => exact .ok m
  | cons iri order ih =>
    rw [List.foldlM_cons]
    exact .bind (fails_inheritInto h iri) fun m' hm' => ih (h.inheritInto hm')

theorem Closed.inheritAll (h : m.Closed)
    (hok : order.foldlM StructuralModel.inheritInto m = .ok m') : m'.Closed :=
  Except.keeps_of_foldlM (fun h hm' => h.inheritInto hm') h hok

theorem sameShape_inheritAll (hok : order.foldlM StructuralModel.inheritInto m = .ok m') :
    SameShape m m' :=
  Except.keeps_of_foldlM (fun h hm' => h.trans (sameShape_inheritInto hm')) (.refl m) hok

/-- Every class that inheritance has come to is without parents. -/
theorem parents_of_inheritAll (hok : order.foldlM StructuralModel.inheritInto m = .ok m')
    (hk : m'.class? k = some c')
    (hor : k ∈ order ∨ ∃ c, m.class? k = some c ∧ c.parents = []) : c'.parents = [] := by
  induction order generalizing m with
  | nil =>
    obtain rfl := Except.ok.inj hok
    obtain ⟨c, hc, hp⟩ := hor.resolve_left List.not_mem_nil
    obtain rfl := Option.some.inj (hk.symm.trans hc)
    exact hp
  | cons iri order ih =>
    obtain ⟨m₁, hm₁, hok⟩ := Except.foldlM_cons_eq_ok.mp hok
    -- A class whose parents are gone after the first step keeps none.
    obtain ⟨c₁, hc₁⟩ : ∃ c₁, m₁.class? k = some c₁ :=
      has_iff.mp ((sameShape_inheritAll hok).has.mp (has_iff.mpr ⟨c', hk⟩))
    have hstep := class?_of_inheritInto hm₁ hc₁
    by_cases hki : k = iri
    · exact ih hok (Or.inr ⟨c₁, hc₁, hstep.1 hki⟩)
    · rcases hor with hor | ⟨c, hc, hp⟩
      · exact ih hok (Or.inl ((List.mem_cons.mp hor).resolve_left hki))
      · obtain rfl := Option.some.inj (hc.symm.trans (hstep.2 hki))
        exact ih hok (Or.inr ⟨c, hc₁, hp⟩)

end

/-! ## Flattening -/

/-- A class of the model is a node of its extension graph. -/
theorem mem_nodes_extension (h : m.Has iri) :
    iri ∈ (ExtensionGraph.ofParents m.extension).nodes := by
  obtain ⟨c, hc⟩ := has_iff.mp h
  exact ExtensionGraph.mem_nodes_ofParents.mpr
    ⟨(iri, c.parents), List.mem_map.mpr ⟨(iri, c), SortedMap.mem_toList_iff.mpr hc, rfl⟩,
      Or.inl rfl⟩

/-- Flattening goes through all classes, if it succeeds. -/
theorem exists_of_flatten_eq_ok (hok : m.flatten = .ok m') :
    ∃ order : List Iri, (∀ k, m.Has k → k ∈ order) ∧ order.foldlM inheritInto m = .ok m' := by
  unfold flatten at hok
  split at hok
  · simp at hok
  · obtain ⟨order, horder, hok⟩ := Except.bind_eq_ok.mp hok
    exact ⟨order, fun k hk => (ExtensionGraph.mem_of_parentsFirst horder).mpr
      (mem_nodes_extension hk), hok⟩

theorem missingParent?_eq_none
    (h : ∀ {k c}, m.class? k = some c → ∀ t ∈ c.parents, m.Has t) : m.missingParent? = none := by
  refine List.findSome?_eq_none_iff.mpr fun c hc => List.find?_eq_none.mpr fun p hp => ?_
  obtain ⟨k, hk⟩ := SortedMap.mem_values_iff.mp hc
  have hhas : m.classes.contains p = true := h hk p hp
  simp [hhas]

theorem flatten_of_parentsFirst {order : List Iri}
    (h : ∀ {k c}, m.class? k = some c → ∀ t ∈ c.parents, m.Has t)
    (horder : (ExtensionGraph.ofParents m.extension).parentsFirst = .ok order) :
    m.flatten = order.foldlM inheritInto m := by
  rw [flatten, missingParent?_eq_none h]
  simp only
  rw [← extension, horder]
  rfl

/-- Flattening a closed model without cycles goes through all of its classes. -/
theorem flatten_eq_foldlM (h : m.Closed)
    (ha : (ExtensionGraph.ofParents m.extension).checkAcyclic = .ok ()) :
    ∃ order : List Iri, (∀ k, m.Has k → k ∈ order) ∧
      m.flatten = order.foldlM inheritInto m := by
  obtain ⟨order, horder, hmem⟩ := ExtensionGraph.exists_parentsFirst_eq_ok ha
  exact ⟨order, fun k hk => (hmem k).mpr (mem_nodes_extension hk),
    flatten_of_parentsFirst (fun hk => (h.classes hk).parents) horder⟩

/-- Where no class extends another one, there is nothing to flatten. -/
theorem flatten_eq_self (h : ∀ {k c}, m.class? k = some c → c.parents = []) :
    m.flatten = .ok m := by
  have hno : ∀ e ∈ m.extension, e.2 = [] := by
    intro e he
    obtain ⟨⟨k, c⟩, hk, rfl⟩ := List.mem_map.mp he
    exact h (SortedMap.mem_toList_iff.mp hk)
  obtain ⟨order, horder⟩ := ExtensionGraph.exists_parentsFirst_of_no_parents hno
  rw [flatten_of_parentsFirst (fun hk t ht => by simp [h hk] at ht) horder]
  exact Except.foldlM_eq_self fun iri _ => inheritInto_of_no_parents fun c hc => h hc

end DataSpec.StructuralModel
