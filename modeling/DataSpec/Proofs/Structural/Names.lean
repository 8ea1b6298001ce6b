import DataSpec.Proofs.Structural.Settled

/-!
# Names of properties

Documents know properties by their names, whereas the passes tell them apart by their
identifiers. So the properties of a class may have different names at first (`Distinct`) and
not any more when others were inherited, or came through an association that was replaced.

The passes copy properties, with their names and identifiers. If names tell identifiers
throughout the model (`NamesTell`), the check for properties that are inherited twice is also
one of names (`distinct_flatten`); through associations the same property may still come twice.
`Clear` lists the reasons why the names of a class are different in the end
(`distinct_of_run`).
-/

set_option autoImplicit false

namespace DataSpec

open StructuralModel

namespace StructuralClass

/-- The names of the properties. -/
def names (c : StructuralClass) : List String := c.properties.map StructuralProperty.name

/-- Whether all properties have different names. -/
def Distinct (c : StructuralClass) : Prop := c.names.Nodup

instance (c : StructuralClass) : Decidable c.Distinct := inferInstanceAs (Decidable (List.Nodup _))

/-- Whether no property came through an association. -/
def Plain (c : StructuralClass) : Prop := ∀ q ∈ c.properties, q.path = []

end StructuralClass

namespace StructuralModel

/-- Whether properties of the same name are the same, wherever they are. -/
def NamesTell (m : StructuralModel) : Prop :=
  ∀ q ∈ m.properties, ∀ q' ∈ m.properties, q.name = q'.name → q.iri = q'.iri

instance (m : StructuralModel) : Decidable m.NamesTell :=
  inferInstanceAs (Decidable (∀ _ ∈ _, ∀ _ ∈ _, _ → _))

variable {m m' : StructuralModel} {iri k : Iri} {c c' : StructuralClass}
  {ps qs : List StructuralProperty}

theorem mem_properties_iff {q : StructuralProperty} :
    q ∈ m.properties ↔ ∃ k c, m.class? k = some c ∧ q ∈ c.properties := by
  constructor
  · intro h
    obtain ⟨c, hc, hq⟩ := List.mem_flatMap.mp h
    obtain ⟨k, hk⟩ := SortedMap.mem_values_iff.mp hc
    exact ⟨k, c, hk, hq⟩
  · rintro ⟨k, c, hk, hq⟩
    exact List.mem_flatMap.mpr ⟨c, mem_values_of_class? hk, hq⟩

/-! ## Copies -/

/-- Whether a property has the name and the identifier of one of a model. -/
def Copies (m : StructuralModel) (q : StructuralProperty) : Prop :=
  ∃ q₀ ∈ m.properties, q₀.name = q.name ∧ q₀.iri = q.iri

/-- Names that tell identifiers do so also for copies. -/
theorem NamesTell.copies (h : m.NamesTell) {q q' : StructuralProperty} (hq : m.Copies q)
    (hq' : m.Copies q') (hname : q.name = q'.name) : q.iri = q'.iri := by
  obtain ⟨q₀, hq₀, hn, hi⟩ := hq
  obtain ⟨q₀', hq₀', hn', hi'⟩ := hq'
  rw [← hi, ← hi']
  exact h q₀ hq₀ q₀' hq₀' (hn.trans (hname.trans hn'.symm))

/-- So copies of different identifiers have different names. -/
theorem NamesTell.nodup_names (h : m.NamesTell) (hps : ∀ q ∈ ps, m.Copies q)
    (hiris : (ps.map StructuralProperty.iri).Nodup) :
    (ps.map StructuralProperty.name).Nodup := by
  refine List.pairwise_map.mpr ((List.pairwise_map.mp hiris).imp_of_mem ?_)
  exact fun hq hq' hne hname => hne (h.copies (hps _ hq) (hps _ hq') hname)

/-- A model all of whose properties are copies. -/
def CopiedFrom (m m' : StructuralModel) : Prop :=
  ∀ k c, m'.class? k = some c → ∀ q ∈ c.properties, m.Copies q

/-! ## Inheritance -/

/-- An heir to different properties has different properties. -/
theorem distinct_heir {inherited : List StructuralProperty} (hm : m.NamesTell)
    (hin : ∀ q ∈ inherited, m.Copies q) (hown : ∀ q ∈ c.properties, m.Copies q)
    (hiris : (inherited.map StructuralProperty.iri).Nodup) (hc : c.Distinct) :
    (heir c inherited).Distinct := by
  have hnames : (heir c inherited).names = inherited.map StructuralProperty.name ++
      (c.properties.filter fun p => !inherited.any fun q => q.iri = p.iri).map
        StructuralProperty.name := List.map_append
  unfold StructuralClass.Distinct
  rw [hnames]
  refine List.nodup_append.mpr ⟨hm.nodup_names hin hiris,
    (List.filter_sublist.map _).nodup hc, ?_⟩
  rintro name hname name' hname' rfl
  obtain ⟨q, hq, rfl⟩ := List.mem_map.mp hname
  obtain ⟨q', hq', heq⟩ := List.mem_map.mp hname'
  obtain ⟨hmem, hnot⟩ := List.mem_filter.mp hq'
  have hiri := hm.copies (hin q hq) (hown q' hmem) heq.symm
  simp only [Bool.not_eq_true', List.any_eq_false, decide_eq_true_eq] at hnot
  exact hnot q hq hiri

/-- What inherits from copies is copies. -/
theorem CopiedFrom.inheritInto {m₀ : StructuralModel} (h : m₀.CopiedFrom m)
    (hok : m.inheritInto iri = .ok m') : m₀.CopiedFrom m' := by
  obtain ⟨rfl, -⟩ | ⟨c, inherited, hc, rfl, hmem⟩ := inheritInto_cases hok
  · exact h
  · intro k c' hk q hq
    rw [class?_withClass] at hk
    split at hk
    · obtain rfl := Option.some.inj hk
      rcases List.mem_append.mp hq with hq | hq
      · obtain ⟨k, d, hd, hq⟩ := hmem q hq
        exact h _ _ hd q hq
      · exact h _ _ hc q (List.mem_filter.mp hq).1
    · exact h _ _ hk q hq

/-- A model of copies in which the properties of each class have different names. -/
structure Told (m₀ m : StructuralModel) : Prop where
  copied : m₀.CopiedFrom m
  distinct : ∀ {k c}, m.class? k = some c → c.Distinct

/-- If names tell identifiers, inheritance into one class keeps names different. -/
theorem Told.inheritInto {m₀ : StructuralModel} (h : Told m₀ m) (hm : m₀.NamesTell)
    (hok : m.inheritInto iri = .ok m') : Told m₀ m' := by
  refine ⟨h.copied.inheritInto hok, fun {k c'} hk => ?_⟩
  by_cases hp : ∀ c, m.class? iri = some c → c.parents = []
  · rw [inheritInto_of_no_parents hp] at hok
    obtain rfl := Except.ok.inj hok
    exact h.distinct hk
  · push Not at hp
    obtain ⟨c, hc, hp⟩ := hp
    rw [inheritInto_of_parents hc (by simpa using hp)] at hok
    obtain ⟨parents, hparents, hok⟩ := Except.bind_eq_ok.mp hok
    split at hok
    · simp at hok
    · rename_i hrepeated
      obtain rfl := Except.ok.inj hok
      rw [class?_withClass] at hk
      split at hk
      · obtain rfl := Option.some.inj hk
        refine distinct_heir hm (fun q hq => ?_) (h.copied _ _ hc)
          (nodup_of_repeated?_eq_none hrepeated).1 (h.distinct hc)
        obtain ⟨d, hd, hq⟩ := List.mem_flatMap.mp hq
        obtain ⟨k, -, hk⟩ := Except.exists_of_mem_mapM hparents hd
        exact h.copied _ _ (class?_of_requireClass hk) q hq
      · exact h.distinct hk

/-- If names tell identifiers, flattening keeps names different. -/
theorem Told.flatten {m₀ : StructuralModel} (h : Told m₀ m) (hm : m₀.NamesTell)
    (hok : m.flatten = .ok m') : Told m₀ m' := by
  obtain ⟨order, -, hok⟩ := exists_of_flatten_eq_ok hok
  exact Except.keeps_of_foldlM (fun h hm' => h.inheritInto hm hm') h hok

theorem CopiedFrom.flatten {m₀ : StructuralModel} (h : m₀.CopiedFrom m)
    (hok : m.flatten = .ok m') : m₀.CopiedFrom m' := by
  obtain ⟨order, -, hok⟩ := exists_of_flatten_eq_ok hok
  exact Except.keeps_of_foldlM (P := m₀.CopiedFrom) (fun h hm' => h.inheritInto hm') h hok

/-- A class without parents is not changed by flattening. -/
theorem class?_flatten_of_no_parents (hk : m.class? k = some c) (hp : c.parents = [])
    (hok : m.flatten = .ok m') : m'.class? k = some c := by
  obtain ⟨order, -, hok⟩ := exists_of_flatten_eq_ok hok
  refine Except.keeps_of_foldlM (P := fun m => m.class? k = some c) (fun {m₁ iri m₂} h₁ h₂ => ?_)
    hk hok
  by_cases hiri : k = iri
  · subst hiri
    rw [inheritInto_of_no_parents fun d hd => Option.some.inj (hd.symm.trans h₁) ▸ hp] at h₂
    exact Except.ok.inj h₂ ▸ h₁
  · obtain ⟨rfl, -⟩ | ⟨d, inherited, -, rfl, -⟩ := inheritInto_cases h₂
    · exact h₁
    · rwa [class?_withClass, if_neg hiri]

/-! ## Associations that are replaced -/

/-- What is left of properties where none came through an association. -/
theorem sublist_of_expand {classes : SortedMap Iri StructuralClass} :
    ∀ {ps qs : List StructuralProperty} {stack : List Iri}, expand classes stack ps = .ok qs →
      (∀ q ∈ qs, q.path = []) → qs.Sublist ps
  | [], qs, stack, h, _ => by
    rw [expand] at h
    exact Except.ok.inj h ▸ List.Sublist.refl []
  | p :: rest, qs, stack, h, hplain => by
    rw [expand_cons] at h
    obtain ⟨here, hhere, h⟩ := Except.bind_eq_ok.mp h
    obtain ⟨there, hthere, rfl⟩ := Except.map_eq_ok.mp h
    have hrest := sublist_of_expand hthere fun q hq => hplain q (List.mem_append_right _ hq)
    unfold replacement at hhere
    split at hhere
    · obtain ⟨e, -, hhere⟩ := Except.bind_eq_ok.mp hhere
      obtain ⟨inner, -, rfl⟩ := Except.map_eq_ok.mp hhere
      -- What comes through an association has a path, so nothing did.
      obtain rfl : inner = [] := by
        refine List.eq_nil_iff_forall_not_mem.mpr fun q hq => ?_
        have hpath := hplain _ (List.mem_append_left _ (List.mem_map_of_mem hq))
        simp [StructuralProperty.through] at hpath
      exact hrest.cons p
    · obtain rfl := Except.ok.inj hhere
      exact hrest.cons_cons p

/-- What comes through associations are copies, too. -/
theorem CopiedFrom.dematerialize {m₀ : StructuralModel} (h : m₀.CopiedFrom m)
    (hok : m.dematerialize = .ok m') : m₀.CopiedFrom m' := by
  intro k c' hk q hq
  obtain ⟨c, ps, hc, hps, rfl⟩ := class?_of_dematerialize hok hk
  have hcopies :=
    forall_expand (P := m₀.Copies) (fun _ _ h => h) (fun hk => h _ _ hk) (h _ _ hc) hps
  exact (hcopies q hq).1

end StructuralModel

/-! ## All passes -/

namespace StructuralProperty

theorem name_taken (conceptual : ConceptualModel) (q : StructuralProperty) :
    ((q.withBounds conceptual).withLabels conceptual).name = q.name ∧
      ((q.withBounds conceptual).withLabels conceptual).iri = q.iri := by
  unfold withLabels withBounds
  split <;> split <;> exact ⟨rfl, rfl⟩

end StructuralProperty

section

variable {m m' : StructuralModel} {conceptual : ConceptualModel} {k : Iri}
  {c c' : StructuralClass}

namespace StructuralClass

/-- A class has the same properties and parents after it has taken over what it can, but for
what the properties take over. -/
theorem properties_takenOver (conceptual : ConceptualModel) (c : StructuralClass) :
    (c.takenOver conceptual).properties =
        c.properties.map (fun q => (q.withBounds conceptual).withLabels conceptual) ∧
      (c.takenOver conceptual).parents = c.parents := by
  rw [takenOver_eq, mapProperties, withLabels]
  split <;> exact ⟨rfl, rfl⟩

theorem names_takenOver (conceptual : ConceptualModel) (c : StructuralClass) :
    (c.takenOver conceptual).names = c.names := by
  rw [names, (c.properties_takenOver conceptual).1, List.map_map]
  exact List.map_congr_left fun q _ => (q.name_taken conceptual).1

end StructuralClass

theorem StructuralModel.copiedFrom_takenOver (conceptual : ConceptualModel)
    (m : StructuralModel) : m.CopiedFrom (m.mapClasses (StructuralClass.takenOver conceptual)) := by
  intro k c' hk q hq
  rw [class?_mapClasses] at hk
  obtain ⟨c, hc, rfl⟩ := Option.map_eq_some_iff.mp hk
  rw [(c.properties_takenOver conceptual).1] at hq
  obtain ⟨q₀, hq₀, rfl⟩ := List.mem_map.mp hq
  exact ⟨q₀, mem_properties_iff.mpr ⟨k, c, hc, hq₀⟩, (q₀.name_taken conceptual).1.symm,
    (q₀.name_taken conceptual).2.symm⟩

/-- Why the properties of a class have different names when the class, which was known by an
identifier in a model, has gone through the passes. -/
inductive StructuralModel.Clear (m : StructuralModel) (k : Iri) (c' : StructuralClass) : Prop
  /-- Nothing was inherited, and nothing came through an association. -/
  | alone {c : StructuralClass} (hc : m.class? k = some c) (hp : c.parents = [])
    (hplain : c'.Plain)
  /-- What was inherited can be told by its name. -/
  | inherited (hm : m.NamesTell) (hplain : c'.Plain)
  /-- No property came twice, and all can be told by their names. -/
  | inlined (hm : m.NamesTell) (hiris : (c'.properties.map StructuralProperty.iri).Nodup)

/-- A class into which only what can be told by name was put has properties of different
names. -/
theorem distinct_of_run (hdistinct : ∀ c ∈ m.classes.values, c.Distinct)
    (hrun : Pass.run Pass.standard false conceptual m = .ok m') (hk : m'.class? k = some c')
    (hclear : m.Clear k c') : c'.Distinct := by
  rw [Pass.run_standard] at hrun
  obtain ⟨m₂, hflat, hmat⟩ := Except.bind_eq_ok.mp hrun
  have hcopied := m.copiedFrom_takenOver conceptual
  have htaken : ∀ {k c}, (m.mapClasses (StructuralClass.takenOver conceptual)).class? k = some c →
      c.Distinct := by
    intro k c hk
    rw [class?_mapClasses] at hk
    obtain ⟨c₀, hc₀, rfl⟩ := Option.map_eq_some_iff.mp hk
    unfold StructuralClass.Distinct
    rw [c₀.names_takenOver conceptual]
    exact hdistinct c₀ (mem_values_of_class? hc₀)
  obtain ⟨c₂, ps, hc₂, hps, rfl⟩ := class?_of_dematerialize hmat hk
  cases hclear with
  | @alone c hc hp hplain =>
    have hc₁ : (m.mapClasses (StructuralClass.takenOver conceptual)).class? k =
        some (c.takenOver conceptual) := by
      rw [class?_mapClasses, hc]
      rfl
    have hsame := class?_flatten_of_no_parents hc₁
      ((c.properties_takenOver conceptual).2.trans hp) hflat
    obtain rfl := Option.some.inj (hsame.symm.trans hc₂)
    exact ((sublist_of_expand hps hplain).map _).nodup (htaken hc₁)
  | inherited hm hplain =>
    have htold : m.Told m₂ := Told.flatten ⟨hcopied, htaken⟩ hm hflat
    exact ((sublist_of_expand hps hplain).map _).nodup (htold.distinct hc₂)
  | inlined hm hiris =>
    exact hm.nodup_names ((hcopied.flatten hflat).dematerialize hmat _ _ hk) hiris

end

end DataSpec
