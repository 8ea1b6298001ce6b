import DataSpec.Proofs.Except
import DataSpec.Proofs.SortedMap
import DataSpec.Structural.Builder
import DataSpec.Structural.Nesting
import DataSpec.Structural.Pipeline

/-!
# Closed models

A model is `Closed` when its roots and all that its classes lead to are classes of it. Built
models are closed, because a class is visited together with all that it leads to
(`closed_of_build`). They have also passed the check for cycles, so `extension`, the part of
a model that the check reads, is followed through the changes as well.

Passes that change each class by itself keep a model closed if they keep what a class leads
to (`KeepsLinks`). `Flat` is what is known of a model after all passes.
-/

set_option autoImplicit false
set_option linter.unusedSectionVars false

namespace DataSpec

/-- A class that leads only to known classes. -/
structure StructuralClass.Within (known : Iri → Prop) (c : StructuralClass) : Prop where
  types : ∀ p ∈ c.properties, ∀ t ∈ p.classes, known t
  parents : ∀ t ∈ c.parents, known t
  inheritsFrom : ∀ t ∈ c.inheritsFrom, known t

namespace StructuralModel

variable {m m' : StructuralModel} {iri k : Iri} {c c' : StructuralClass}

/-- Whether an identifier names a class of the model. -/
def Has (m : StructuralModel) (iri : Iri) : Prop := m.classes.contains iri = true

/-- A key is there if a class is. -/
theorem has_iff : m.Has iri ↔ ∃ c, m.class? iri = some c := SortedMap.contains_iff

/-- A model whose roots and whose classes lead only to classes of it. -/
structure Closed (m : StructuralModel) : Prop where
  roots : ∀ t ∈ m.roots, m.Has t
  classes : ∀ {k c}, m.class? k = some c → c.Within m.Has

/-- Whether an identifier is that of a class of the model. -/
def Names (m : StructuralModel) (iri : Iri) : Prop :=
  ∃ c, m.class? iri = some c ∧ c.iri = iri

/-- A model whose roots and whose types of associations name classes of it. -/
structure Named (m : StructuralModel) : Prop where
  roots : ∀ t ∈ m.roots, m.Names t
  types : ∀ c ∈ m.classes.values, ∀ q ∈ c.properties, ∀ t ∈ q.classes, m.Names t

instance (m : StructuralModel) (iri : Iri) : Decidable (m.Names iri) :=
  decidable_of_iff ((m.class? iri).any (fun c => c.iri = iri) = true)
    (by simp [Names, Option.any_eq_true])

instance (m : StructuralModel) : Decidable m.Named :=
  decidable_of_iff ((∀ t ∈ m.roots, m.Names t) ∧
      ∀ c ∈ m.classes.values, ∀ q ∈ c.properties, ∀ t ∈ q.classes, m.Names t)
    ⟨fun h => ⟨h.1, h.2⟩, fun h => ⟨h.roots, h.types⟩⟩

/-- A closed model in which no class extends another one and no property is to be
replaced. -/
structure Flat (m : StructuralModel) : Prop where
  closed : m.Closed
  parents : ∀ {k c}, m.class? k = some c → c.parents = []
  replaced : ∀ {k c}, m.class? k = some c → ∀ p ∈ c.properties, p.dematerialize = false

/-- Two models of the same roots and with the same identifiers of classes. -/
structure SameShape (m m' : StructuralModel) : Prop where
  roots : m'.roots = m.roots
  contains : ∀ k, m'.classes.contains k = m.classes.contains k

theorem SameShape.refl (m : StructuralModel) : SameShape m m := ⟨rfl, fun _ => rfl⟩

/-- Passes that keep roots and keys keep them one after the other. -/
theorem SameShape.trans {m₁ m₂ m₃ : StructuralModel} (h : SameShape m₁ m₂)
    (h' : SameShape m₂ m₃) : SameShape m₁ m₃ :=
  ⟨h'.roots.trans h.roots, fun k => (h'.contains k).trans (h.contains k)⟩

/-- The same classes are there. -/
theorem SameShape.has (h : SameShape m m') : m'.Has iri ↔ m.Has iri := by
  rw [Has, Has, h.contains]

/-- The classes of a model with their parents. -/
def extension (m : StructuralModel) : List (Iri × List Iri) :=
  m.classes.toList.map fun e => (e.1, e.2.parents)

/-- A model with the same keys is closed if its classes lead to these only. -/
theorem Closed.of_sameShape (h : m.Closed) (hs : SameShape m m')
    (hc : ∀ {k c'}, m'.class? k = some c' → c'.Within m.Has) : m'.Closed where
  roots t ht := hs.has.mpr (h.roots t (hs.roots ▸ ht))
  classes hk := by
    have hw := hc hk
    exact ⟨fun p hp t ht => hs.has.mpr (hw.types p hp t ht),
      fun t ht => hs.has.mpr (hw.parents t ht), fun t ht => hs.has.mpr (hw.inheritsFrom t ht)⟩

/-! ## Passes that change each class by itself -/

/-- The class for a key is the changed one. -/
theorem class?_mapClasses (f : StructuralClass → StructuralClass) (k : Iri) :
    (m.mapClasses f).class? k = (m.class? k).map f :=
  SortedMap.get?_mapValues (fun _ c => f c) m.classes k

/-- A change of classes keeps roots and keys. -/
theorem sameShape_mapClasses (m : StructuralModel) (f : StructuralClass → StructuralClass) :
    SameShape m (m.mapClasses f) :=
  ⟨rfl, SortedMap.contains_mapValues _ m.classes⟩

/-- A change of classes that keeps what they lead to. -/
structure KeepsLinks (f : StructuralClass → StructuralClass) : Prop where
  parents : ∀ c, (f c).parents = c.parents
  inheritsFrom : ∀ c, (f c).inheritsFrom = c.inheritsFrom
  types : ∀ c, (f c).properties.map StructuralProperty.types =
    c.properties.map StructuralProperty.types

/-- The types of a property are those of one before. -/
theorem KeepsLinks.mem_types {f : StructuralClass → StructuralClass} (hf : KeepsLinks f)
    {p : StructuralProperty} (hp : p ∈ (f c).properties) :
    ∃ q ∈ c.properties, q.types = p.types := by
  have hmem : p.types ∈ c.properties.map StructuralProperty.types := by
    rw [← hf.types]
    exact List.mem_map_of_mem hp
  exact List.mem_map.mp hmem

theorem KeepsLinks.comp {f g : StructuralClass → StructuralClass} (hf : KeepsLinks f)
    (hg : KeepsLinks g) : KeepsLinks fun c => f (g c) :=
  ⟨fun c => (hf.parents _).trans (hg.parents c),
    fun c => (hf.inheritsFrom _).trans (hg.inheritsFrom c),
    fun c => (hf.types _).trans (hg.types c)⟩

/-- A change of properties keeps links if it keeps types. -/
theorem KeepsLinks.mapProperties {f : StructuralProperty → StructuralProperty}
    (hf : ∀ p, (f p).types = p.types) : KeepsLinks (StructuralClass.mapProperties f) :=
  ⟨fun _ => rfl, fun _ => rfl, fun c => by
    simp [StructuralClass.mapProperties, Function.comp_def, hf]⟩

/-- A change of classes that keeps links leaves a closed model closed. -/
theorem Closed.mapClasses {f : StructuralClass → StructuralClass} (h : m.Closed)
    (hf : KeepsLinks f) : (m.mapClasses f).Closed := by
  refine h.of_sameShape (sameShape_mapClasses m f) fun {k c'} hk => ?_
  rw [class?_mapClasses] at hk
  obtain ⟨c, hc, rfl⟩ := Option.map_eq_some_iff.mp hk
  have hw := h.classes hc
  refine ⟨fun p hp t ht => ?_, fun t ht => hw.parents t (hf.parents c ▸ ht),
    fun t ht => hw.inheritsFrom t (hf.inheritsFrom c ▸ ht)⟩
  obtain ⟨q, hq, htypes⟩ := hf.mem_types hp
  refine hw.types q hq t ?_
  rwa [StructuralProperty.classes, htypes]

/-- A change of classes that keeps links leaves the parents as they are. -/
theorem extension_mapClasses {f : StructuralClass → StructuralClass} (hf : KeepsLinks f) :
    (m.mapClasses f).extension = m.extension := by
  simp [extension, mapClasses, SortedMap.mapValues, SortedMap.toList, hf.parents]

/-- Marking codelists keeps links. -/
theorem keepsLinks_marked (conceptual : ConceptualModel) :
    KeepsLinks (StructuralClass.marked conceptual) :=
  ⟨fun _ => rfl, fun _ => rfl, fun _ => rfl⟩

/-- Taking bounds over keeps links. -/
theorem keepsLinks_withBounds (conceptual : ConceptualModel) :
    KeepsLinks (StructuralClass.mapProperties (StructuralProperty.withBounds conceptual)) :=
  .mapProperties fun p => by
    unfold StructuralProperty.withBounds
    split <;> rfl

/-- Taking labels over keeps links. -/
theorem keepsLinks_withLabels (conceptual : ConceptualModel) :
    KeepsLinks fun c => (c.withLabels conceptual).mapProperties
      (StructuralProperty.withLabels conceptual) := by
  refine .comp (.mapProperties fun p => ?_) ⟨fun c => ?_, fun c => ?_, fun c => ?_⟩
  · unfold StructuralProperty.withLabels
    split <;> rfl
  all_goals
    unfold StructuralClass.withLabels
    split <;> rfl

/-! ## Building -/

section Explore

variable {β : Type} {resources : ResourceMap} {make : Resource → Except ModelError β}
  {next : β → List Iri} {free queue : List Iri}

theorem explore_nil : explore resources make next free [] = .ok [] := by
  rw [explore]

/-- A resource that was not visited yet is visited, and then the rest and what it leads to. -/
theorem explore_cons_of_mem {b : β} {rest : List (Iri × β)} (hfree : iri ∈ free)
    (hb : (resources.require iri).bind make = .ok b)
    (hrest : explore resources make next (free.erase iri) (queue ++ next b) = .ok rest) :
    explore resources make next free (iri :: queue) = .ok ((iri, b) :: rest) := by
  obtain ⟨r, hr, hmake⟩ := Except.bind_eq_ok.mp hb
  rw [explore, hr]
  simp [hfree, hmake, hrest]

/-- A resource that was visited is passed over. -/
theorem explore_cons_of_not_mem {r : Resource} (hfree : iri ∉ free)
    (hr : resources.require iri = .ok r) :
    explore resources make next free (iri :: queue) = explore resources make next free queue := by
  rw [explore, hr]
  simp [hfree]

end Explore

/-- What `explore` makes of resources, and which resources it reaches. -/
theorem explore_eq_ok {β : Type} {resources : ResourceMap}
    {make : Resource → Except ModelError β} {next : β → List Iri} (free queue : List Iri)
    {l : List (Iri × β)} (h : explore resources make next free queue = .ok l) :
    (∀ i ∈ queue, i ∈ resources.keys ∧ (i ∈ free → i ∈ l.map Prod.fst)) ∧
      ∀ e ∈ l, (∃ r, make r = .ok e.2) ∧
        ∀ i ∈ next e.2, i ∈ resources.keys ∧ (i ∈ free → i ∈ l.map Prod.fst) := by
  induction free, queue using explore.induct resources make next generalizing l with
  | case1 free =>
    obtain rfl : [] = l := by simpa [explore] using h
    exact ⟨nofun, nofun⟩
  | case2 free iri queue e hr => simp [explore, hr] at h
  | case3 free iri queue r hr hfree e hmake => simp [explore, hr, hfree, hmake] at h
  | case4 free iri queue r hr hfree b hmake e hrest =>
    simp [explore, hr, hfree, hmake, hrest] at h
  | case5 free iri queue r hr hfree b hmake rest hrest ih =>
    obtain rfl : (iri, b) :: rest = l := by
      simpa [explore, hr, hfree, hmake, hrest] using h
    obtain ⟨hq, hl⟩ := ih hrest
    have hiri : iri ∈ resources.keys := by
      unfold ResourceMap.require at hr
      split at hr
      · exact SortedMap.mem_keys_of_get? ‹_›
      · simp at hr
    -- What is reached from the rest is the resource itself, or it is still free there.
    have reached : ∀ {i}, i ∈ resources.keys ∧ (i ∈ free.erase iri → i ∈ rest.map Prod.fst) →
        i ∈ resources.keys ∧ (i ∈ free → i ∈ ((iri, b) :: rest).map Prod.fst) := by
      intro i hi
      refine ⟨hi.1, fun hf => ?_⟩
      rw [List.map_cons, List.mem_cons]
      by_cases hii : i = iri
      · exact Or.inl hii
      · exact Or.inr (hi.2 ((List.mem_erase_of_ne hii).mpr hf))
    refine ⟨fun i hi => ?_, fun e he => ?_⟩
    · rcases List.mem_cons.mp hi with rfl | hi
      · exact ⟨hiri, fun _ => by simp⟩
      · exact reached (hq i (List.mem_append_left _ hi))
    · rcases List.mem_cons.mp he with rfl | he
      · exact ⟨⟨r, hmake⟩, fun i hi => reached (hq i (List.mem_append_right _ hi))⟩
      · exact ⟨(hl e he).1, fun i hi => reached ((hl e he).2 i hi)⟩
  | case6 free iri queue r hr hfree ih =>
    obtain ⟨hq, hl⟩ := ih (by simpa [explore, hr, hfree] using h)
    refine ⟨fun i hi => ?_, hl⟩
    rcases List.mem_cons.mp hi with rfl | hi
    · refine ⟨?_, fun hf => absurd hf hfree⟩
      unfold ResourceMap.require at hr
      split at hr
      · exact SortedMap.mem_keys_of_get? ‹_›
      · simp at hr
    · exact hq i hi

/-- A class that is built has not been flattened. -/
theorem inheritsFrom_of_classOf {resources : ResourceMap} {schema : Iri} {r : Resource}
    (h : classOf resources schema r = .ok c) : c.inheritsFrom = [] := by
  obtain ⟨parents, -, h⟩ := Except.bind_eq_ok.mp h
  obtain ⟨properties, -, h⟩ := Except.bind_eq_ok.mp h
  obtain rfl := Except.ok.inj h
  rfl

/-- A built model is closed, and no class in it extends itself. -/
theorem closed_of_build {resources : ResourceMap} {schema : Iri}
    (h : build resources schema = .ok m) :
    m.Closed ∧ (ExtensionGraph.ofParents m.extension).checkAcyclic = .ok () := by
  unfold build at h
  obtain ⟨r, -, h⟩ := Except.bind_eq_ok.mp h
  obtain ⟨-, -, h⟩ := Except.bind_eq_ok.mp h
  obtain ⟨roots, -, h⟩ := Except.bind_eq_ok.mp h
  obtain ⟨parts, -, h⟩ := Except.bind_eq_ok.mp h
  obtain ⟨visited, hvisited, h⟩ := Except.bind_eq_ok.mp h
  obtain ⟨⟨⟩, hacyclic, h⟩ := Except.bind_eq_ok.mp h
  obtain rfl := Except.ok.inj h
  obtain ⟨hqueue, hlinks⟩ := explore_eq_ok _ _ hvisited
  refine ⟨⟨fun t ht => ?_, fun {k c} hk => ?_⟩, hacyclic⟩
  · have ht := hqueue t (List.mem_append_left _ ht)
    exact SortedMap.contains_ofList_iff.mpr (ht.2 ht.1)
  · obtain ⟨⟨r, hr⟩, hnext⟩ := hlinks (k, c) (SortedMap.mem_of_get?_ofList hk)
    have known : ∀ t ∈ links c, (SortedMap.ofList visited).contains t = true := fun t ht =>
      SortedMap.contains_ofList_iff.mpr ((hnext t ht).2 (hnext t ht).1)
    refine ⟨fun p hp t ht => ?_, fun t ht => ?_, fun t ht => ?_⟩
    · exact known t (List.mem_append_right _ (List.mem_flatMap.mpr ⟨p, hp, ht⟩))
    · exact known t (List.mem_append_left _ ht)
    · rw [inheritsFrom_of_classOf hr] at ht
      simp at ht

/-! ## Looking classes up -/

/-- Failures on models that are not supported. -/
def Unsupported (e : ModelError) : Prop := e.category = .unsupportedModel

/-- A class that is there is found. -/
theorem exists_requireClass (h : m.Has iri) : ∃ c, m.requireClass iri = .ok c ∧
    m.class? iri = some c := by
  obtain ⟨c, hc⟩ := has_iff.mp h
  exact ⟨c, by rw [requireClass, hc], hc⟩

/-- What is found is the class for the key. -/
theorem class?_of_requireClass (h : m.requireClass k = .ok c) : m.class? k = some c := by
  unfold requireClass at h
  split at h
  · obtain rfl := Except.ok.inj h
    assumption
  · simp at h

/-- The same with the proof that it is one of the model. -/
theorem class?_of_member {c : m.Member} (h : m.member k = .ok c) : m.class? k = some c.val := by
  unfold member at h
  split at h
  · simp at h
  · obtain rfl := Except.ok.inj h
    assumption

theorem requireClass_of_class? (h : m.class? k = some c) : m.requireClass k = .ok c := by
  rw [requireClass, h]

/-- If all classes are found, none is left out. -/
theorem filterMap_class?_of_mapM {iris : List Iri} {cs : List StructuralClass}
    (h : iris.mapM m.requireClass = .ok cs) : iris.filterMap m.class? = cs := by
  induction iris generalizing cs with
  | nil => exact Except.ok.inj h
  | cons iri iris ih =>
    obtain ⟨c, cs', hc, hcs, rfl⟩ := Except.mapM_cons_eq_ok.mp h
    rw [List.filterMap_cons_some (class?_of_requireClass hc), ih hcs]

theorem member_of_class? {c : m.Member} (h : m.class? k = some c.val) : m.member k = .ok c := by
  unfold member
  split
  · simp_all
  · rename_i d hd
    obtain rfl := Option.some.inj (hd.symm.trans h)
    rfl

/-- If classes are kept by their identifiers, each of them is found by its own. -/
theorem class?_iri (hkeyed : ∀ {k c}, m.class? k = some c → c.iri = k) (c : m.Member) :
    m.class? c.val.iri = some c.val := by
  obtain ⟨k, hk⟩ := SortedMap.mem_values_iff.mp c.property
  rwa [hkeyed hk]

/-- If classes are kept under their identifiers, these are the keys. -/
theorem map_iri_values (hkeyed : ∀ {k c}, m.class? k = some c → c.iri = k) :
    m.classes.values.map StructuralClass.iri = m.classes.keys := by
  rw [SortedMap.values, SortedMap.keys, List.map_map]
  exact List.map_congr_left fun _ he => hkeyed (SortedMap.mem_toList_iff.mp he)

/-- If classes are kept under their identifiers, these tell them apart. -/
theorem eq_of_iri_eq (hkeyed : ∀ {k c}, m.class? k = some c → c.iri = k) (c d : m.Member)
    (h : c.val.iri = d.val.iri) : c = d := by
  have hc := class?_iri hkeyed c
  rw [h, class?_iri hkeyed d] at hc
  exact Subtype.ext (Option.some.inj hc).symm

/-- The classes to which a property leads are all of its classes. -/
theorem range_eq_classes {p : StructuralProperty} {iris : List Iri}
    (h : p.range = .ok (.classes iris)) : iris = p.classes := by
  unfold StructuralProperty.range at h
  split at h
  · simp at h
  · simp at h
  · rename_i hc
    exact (PropertyRange.classes.inj (Except.ok.inj h)).symm
  · simp at h

end StructuralModel

/-! ## A small model -/

/-- A class whose objects have further ones next to them. -/
def linkClass : StructuralClass where
  iri := "link"
  pim := none
  cim := none
  label := .empty
  description := .empty
  technicalLabel := none
  isCodelist := false
  parents := []
  inheritsFrom := []
  properties := [⟨"next", none, none, .empty, .empty, none, none, [.class_ "link"], false, []⟩]
  schema := "schema"
  specification := none
  isReferenced := false

/-- The model of chains. -/
def chainModel : StructuralModel where
  iri := "schema"
  label := .empty
  description := .empty
  technicalLabel := none
  roots := ["link"]
  classes := .ofList [("link", linkClass)]
  specification := none
  xmlNamespace := none
  xmlPrefix := none

end DataSpec
