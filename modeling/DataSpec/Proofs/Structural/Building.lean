import DataSpec.Proofs.Graph.Cycles
import DataSpec.Proofs.Structural.Pipeline

/-!
# Built models have what is reached

The class behind an identifier is the class itself, or the class that a class reference names
(`StandsFor`). `Reached` is the least set that has the classes behind the roots of a schema and
the classes among its parts, and with a class all that it leads to (`LeadsTo`) : the classes
behind its parents, and behind the types of the association ends among its parts.

Every resource that an exploration visits satisfies what passes from the queue along links
(`visited_of_explore`), and an exploration succeeds if something can be made of all such
resources (`exists_explore_eq_ok`). Building resolves identifiers while it explores. For resources
of one kind each, under their own identifiers, it therefore collects exactly the classes that
are reached, and it succeeds exactly if everything on the way resolves and no class that is reached
extends itself (`build_eq_ok_iff_resolvable`).
-/

set_option autoImplicit false
set_option linter.unusedSectionVars false

namespace DataSpec

/-- Resources of one kind each, under their own identifiers. -/
structure ResourceMap.Uniform (m : ResourceMap) : Prop where
  iri : ∀ {i r}, m.get? i = some r → r.iri = i
  kind : ∀ {i r}, m.get? i = some r → ∃ k, r.kinds = [k]

theorem ResourceMap.uniform_iff {m : ResourceMap} :
    m.Uniform ↔ ∀ e ∈ m.toList, e.2.iri = e.1 ∧ e.2.kinds.length = 1 := by
  simp only [List.length_eq_one_iff]
  exact ⟨fun h e he => ⟨h.iri (SortedMap.mem_toList_iff.mp he),
      h.kind (SortedMap.mem_toList_iff.mp he)⟩,
    fun h => ⟨fun hr => (h _ (SortedMap.mem_toList_iff.mpr hr)).1,
      fun hr => (h _ (SortedMap.mem_toList_iff.mpr hr)).2⟩⟩

theorem Resource.is_iff_of_kinds {r : Resource} {k k' : Kind} (h : r.kinds = [k]) :
    r.is k' = true ↔ k' = k := by
  simp [Resource.is, h]

theorem ResourceMap.require_eq_ok {m : ResourceMap} {iri : Iri} {r : Resource} :
    m.require iri = .ok r ↔ m.get? iri = some r := by
  unfold ResourceMap.require
  split <;> simp [*]

theorem Resource.expect_eq_ok {r : Resource} {k : Kind} :
    r.expect k = .ok () ↔ r.is k = true := by
  unfold Resource.expect
  split <;> simp [*]

namespace StructuralModel

variable {m : ResourceMap} {schema : Iri} {r e : Resource} {iri part t : Iri}
  {c : StructuralClass} {model : StructuralModel}

/-! ## What an exploration visits -/

section Explore

variable {β : Type} {make : Resource → Except ModelError β} {next : β → List Iri} {P : Iri → Prop}

/-- All resources that are visited have what passes from the queue along links. -/
theorem visited_of_explore (free queue : List Iri) {l : List (Iri × β)}
    (h : explore m make next free queue = .ok l) (hq : ∀ i ∈ queue, P i)
    (hstep : ∀ {i r b}, P i → m.get? i = some r → make r = .ok b → ∀ j ∈ next b, P j) :
    ∀ e ∈ l, P e.1 ∧ ∃ r, m.get? e.1 = some r ∧ make r = .ok e.2 := by
  induction free, queue using explore.induct m make next generalizing l with
  | case1 free =>
    obtain rfl : [] = l := by simpa [explore] using h
    simp
  | case2 free iri queue e hr => simp [explore, hr] at h
  | case3 free iri queue r hr hfree e hmake => simp [explore, hr, hfree, hmake] at h
  | case4 free iri queue r hr hfree b hmake e hrest =>
    simp [explore, hr, hfree, hmake, hrest] at h
  | case5 free iri queue r hr hfree b hmake rest hrest ih =>
    obtain rfl : (iri, b) :: rest = l := by
      simpa [explore, hr, hfree, hmake, hrest] using h
    have hiri : P iri := hq iri List.mem_cons_self
    have hget := ResourceMap.require_eq_ok.mp hr
    refine List.forall_mem_cons.mpr ⟨⟨hiri, r, hget, hmake⟩, ih hrest fun i hi => ?_⟩
    rcases List.mem_append.mp hi with hi | hi
    · exact hq i (List.mem_cons_of_mem _ hi)
    · exact hstep hiri hget hmake i hi
  | case6 free iri queue r hr hfree ih =>
    exact ih (by simpa [explore, hr, hfree] using h) fun i hi => hq i (List.mem_cons_of_mem _ hi)

/-- No resource is visited twice. -/
theorem nodup_of_explore (free queue : List Iri) (hfree : free.Nodup) {l : List (Iri × β)}
    (h : explore m make next free queue = .ok l) :
    (l.map Prod.fst).Nodup ∧ ∀ e ∈ l, e.1 ∈ free := by
  induction free, queue using explore.induct m make next generalizing l with
  | case1 free =>
    obtain rfl : [] = l := by simpa [explore] using h
    simp
  | case2 free iri queue e hr => simp [explore, hr] at h
  | case3 free iri queue r hr hmem e hmake => simp [explore, hr, hmem, hmake] at h
  | case4 free iri queue r hr hmem b hmake e hrest =>
    simp [explore, hr, hmem, hmake, hrest] at h
  | case5 free iri queue r hr hmem b hmake rest hrest ih =>
    obtain rfl : (iri, b) :: rest = l := by
      simpa [explore, hr, hmem, hmake, hrest] using h
    obtain ⟨hnodup, hsub⟩ := ih (hfree.erase iri) hrest
    -- What was visited is not free any more.
    have hnew : iri ∉ rest.map Prod.fst := fun hin => by
      obtain ⟨e, he, rfl⟩ := List.mem_map.mp hin
      exact hfree.not_mem_erase (hsub e he)
    exact ⟨List.nodup_cons.mpr ⟨hnew, hnodup⟩, List.forall_mem_cons.mpr ⟨hmem,
      fun e he => List.mem_of_mem_erase (hsub e he)⟩⟩
  | case6 free iri queue r hr hmem ih =>
    exact ih hfree (by simpa [explore, hr, hmem] using h)

/-- An exploration succeeds if something can be made of all that is met. -/
theorem exists_explore_eq_ok (free queue : List Iri) (hq : ∀ i ∈ queue, P i)
    (hmake : ∀ i, P i → ∃ r b, m.get? i = some r ∧ make r = .ok b ∧ ∀ j ∈ next b, P j) :
    ∃ l, explore m make next free queue = .ok l := by
  induction free, queue using explore.induct m make next with
  | case1 free => exact ⟨[], by simp [explore]⟩
  | case2 free iri queue e hr =>
    obtain ⟨r, b, hget, -⟩ := hmake iri (hq iri List.mem_cons_self)
    rw [ResourceMap.require_eq_ok.mpr hget] at hr
    cases hr
  | case3 free iri queue r hr hfree e he =>
    obtain ⟨r', b, hget, hb, -⟩ := hmake iri (hq iri List.mem_cons_self)
    obtain rfl := Except.ok.inj (hr.symm.trans (ResourceMap.require_eq_ok.mpr hget))
    cases hb.symm.trans he
  | case4 free iri queue r hr hfree b hb e hrest ih =>
    obtain ⟨r', b', hget, hb', hnext⟩ := hmake iri (hq iri List.mem_cons_self)
    obtain rfl := Except.ok.inj (hr.symm.trans (ResourceMap.require_eq_ok.mpr hget))
    obtain rfl := Except.ok.inj (hb.symm.trans hb')
    have hqueue : ∀ i ∈ queue ++ next b, P i := fun i hi =>
      (List.mem_append.mp hi).elim (fun hi => hq i (List.mem_cons_of_mem _ hi)) (hnext i)
    obtain ⟨l, hl⟩ := ih hqueue
    cases hl.symm.trans hrest
  | case5 free iri queue r hr hfree b hb rest hrest ih =>
    exact ⟨(iri, b) :: rest, by simp [explore, hr, hfree, hb, hrest]⟩
  | case6 free iri queue r hr hfree ih =>
    obtain ⟨l, hl⟩ := ih fun i hi => hq i (List.mem_cons_of_mem _ hi)
    exact ⟨l, by simp [explore, hr, hfree, hl]⟩

end Explore

/-! ## What identifiers stand for -/

/-- The class behind an identifier. -/
inductive StandsFor (m : ResourceMap) : Iri → Iri → Prop
  /-- A class stands for itself. -/
  | itself {iri : Iri} {r : Resource} :
    m.get? iri = some r → r.is .structuralClass = true → StandsFor m iri iri
  /-- A class reference stands for the class that it names. -/
  | reference {iri target : Iri} {r e : Resource} :
    m.get? iri = some r → r.is .structuralClassReference = true →
    r.iri? .referencedClass = some target → m.get? target = some e →
    e.is .structuralClass = true → StandsFor m iri target

/-- There is a class at what an identifier stands for. -/
theorem StandsFor.exists_class (h : StandsFor m iri t) :
    ∃ r, m.get? t = some r ∧ r.is .structuralClass = true := by
  cases h with
  | itself hr hc => exact ⟨_, hr, hc⟩
  | reference _ _ _ he hc => exact ⟨_, he, hc⟩

theorem resolve_eq_ok_iff (hm : m.Uniform) : resolve m iri = .ok t ↔ StandsFor m iri t := by
  unfold resolve
  refine Except.bind_eq_ok.trans ⟨?_, ?_⟩
  · rintro ⟨r, hr, h⟩
    rw [ResourceMap.require_eq_ok] at hr
    split at h
    · obtain rfl := Except.ok.inj h
      exact .itself hr ‹_›
    split at h
    · split at h
      · cases h
      · obtain ⟨e, he, h⟩ := Except.bind_eq_ok.mp h
        obtain ⟨⟨⟩, hc, h⟩ := Except.bind_eq_ok.mp h
        obtain rfl := Except.ok.inj h
        exact .reference hr ‹_› ‹_› (ResourceMap.require_eq_ok.mp he) (Resource.expect_eq_ok.mp hc)
    · cases h
  · intro h
    cases h with
    | itself hr hc => exact ⟨_, ResourceMap.require_eq_ok.mpr hr, by simp [hc]; rfl⟩
    | @reference _ r e hr hk ht he hc =>
      obtain ⟨k, hkinds⟩ := hm.kind hr
      -- A resource of one kind is not a class as well.
      have hnot : r.is .structuralClass = false := by
        obtain rfl := (Resource.is_iff_of_kinds hkinds).mp hk
        simp [Resource.is, hkinds]
      refine ⟨r, ResourceMap.require_eq_ok.mpr hr, ?_⟩
      simp only [hnot, hk, ht, if_true, Bool.false_eq_true, if_false]
      exact Except.bind_eq_ok.mpr ⟨e, ResourceMap.require_eq_ok.mpr he,
        Except.bind_eq_ok.mpr ⟨(), Resource.expect_eq_ok.mpr hc, rfl⟩⟩

/-- What several identifiers resolve to is what they stand for. -/
theorem mem_of_mapM_resolve (hm : m.Uniform) {l ts : List Iri}
    (h : l.mapM (resolve m) = .ok ts) : t ∈ ts ↔ ∃ x ∈ l, StandsFor m x t := by
  constructor
  · intro ht
    obtain ⟨x, hx, ht⟩ := Except.exists_of_mem_mapM h ht
    exact ⟨x, hx, (resolve_eq_ok_iff hm).mp ht⟩
  · rintro ⟨x, hx, hstands⟩
    obtain ⟨t', ht', hx⟩ := Except.exists_mem_of_mapM h hx
    rw [(resolve_eq_ok_iff hm).mpr hstands] at hx
    exact Except.ok.inj hx ▸ ht'

/-- The type that an entry of a range stands for. -/
inductive TypeFor (m : ResourceMap) : Iri → PropertyType → Prop
  | datatype {t : Iri} : isDatatypeIri t = true → TypeFor m t (.datatype (some t))
  | class_ {t c : Iri} : isDatatypeIri t = false → StandsFor m t c → TypeFor m t (.class_ c)

/-- The types of a property. -/
def TypesFor (m : ResourceMap) (e : Resource) (types : List PropertyType) : Prop :=
  e.is .structuralAttribute = true ∧ types = [.datatype (e.iri? .datatype)] ∨
    e.is .structuralAssociationEnd = true ∧ List.Forall₂ (TypeFor m) (e.iriList .range) types

/-- Whether a part of a class is an attribute or an association end. -/
def IsProperty (m : ResourceMap) (part : Iri) : Bool :=
  (m.get? part).any fun e => e.is .structuralAttribute || e.is .structuralAssociationEnd

/-- The property that a part of a class stands for. -/
structure PropertyFor (m : ResourceMap) (part : Iri) (p : StructuralProperty) : Prop where
  iri : p.iri = part
  types : ∃ e, m.get? part = some e ∧ TypesFor m e p.types

/-- The class that a resource stands for in the model of a schema : its properties are those
among its parts, in their order. -/
structure ClassFor (m : ResourceMap) (schema : Iri) (r : Resource) (c : StructuralClass) :
    Prop where
  iri : c.iri = r.iri
  parents : List.Forall₂ (StandsFor m) (r.iriList .parents) c.parents
  properties : List.Forall₂ (PropertyFor m) (r.parts.filter (IsProperty m)) c.properties
  isReferenced : c.isReferenced = true ↔ ∃ s, r.iri? .schema = some s ∧ s ≠ schema

/-- The classes that the resource of a class leads to. -/
inductive LeadsTo (m : ResourceMap) (r : Resource) : Iri → Prop
  | parent {t c : Iri} : t ∈ r.iriList .parents → StandsFor m t c → LeadsTo m r c
  | range {part t c : Iri} {e : Resource} : part ∈ r.parts → m.get? part = some e →
    e.is .structuralAssociationEnd = true → t ∈ e.iriList .range → isDatatypeIri t = false →
    StandsFor m t c → LeadsTo m r c

/-- The classes that are reached from a schema. -/
inductive Reached (m : ResourceMap) (schema : Resource) : Iri → Prop
  | root {t c : Iri} : t ∈ schema.iriList .roots → StandsFor m t c → Reached m schema c
  | part {c : Iri} {r : Resource} : c ∈ schema.parts → m.get? c = some r →
    r.is .structuralClass = true → Reached m schema c
  | next {k c : Iri} {r : Resource} : Reached m schema k → m.get? k = some r → LeadsTo m r c →
    Reached m schema c

/-- Whether the class behind a parent of a class is another one. -/
def ExtendsIn (m : ResourceMap) (c p : Iri) : Prop :=
  ∃ r, m.get? c = some r ∧ ∃ t ∈ r.iriList .parents, StandsFor m t p

/-- A class all parts of which exist, and all parents and types of which are classes. -/
structure Sound (m : ResourceMap) (r : Resource) : Prop where
  parts : ∀ part ∈ r.parts, ∃ e, m.get? part = some e
  parents : ∀ t ∈ r.iriList .parents, ∃ c, StandsFor m t c
  ranges : ∀ part ∈ r.parts, ∀ e, m.get? part = some e → e.is .structuralAssociationEnd = true →
    ∀ t ∈ e.iriList .range, isDatatypeIri t = false → ∃ c, StandsFor m t c

/-- A schema all parts of which exist, and all roots of which are classes, as is all that is
met from there. -/
structure Resolvable (m : ResourceMap) (schema : Resource) : Prop where
  parts : ∀ part ∈ schema.parts, ∃ e, m.get? part = some e
  roots : ∀ t ∈ schema.iriList .roots, ∃ c, StandsFor m t c
  classes : ∀ k r, Reached m schema k → m.get? k = some r → Sound m r

theorem Reached.exists_class (h : Reached m r iri) :
    ∃ e, m.get? iri = some e ∧ e.is .structuralClass = true := by
  cases h with
  | root _ h => exact h.exists_class
  | part _ hr hc => exact ⟨_, hr, hc⟩
  | next _ _ h =>
    cases h with
    | parent _ h => exact h.exists_class
    | range _ _ _ _ _ h => exact h.exists_class

theorem Reached.extends (h : Reached m r iri) (he : ExtendsIn m iri t) : Reached m r t := by
  obtain ⟨e, hget, p, hp, hstands⟩ := he
  exact .next h hget (.parent hp hstands)

/-! ## Properties -/

theorem endType_eq_ok_iff (hm : m.Uniform) {type : PropertyType} :
    endType m t = .ok type ↔ TypeFor m t type := by
  unfold endType
  split
  · rename_i ht
    exact ⟨fun h => Except.ok.inj h ▸ .datatype ht, fun h => by
      cases h with
      | datatype => rfl
      | class_ hnot => simp [ht] at hnot⟩
  · rename_i ht
    rw [Except.map_eq_ok]
    constructor
    · rintro ⟨c, hc, rfl⟩
      exact .class_ (Bool.eq_false_iff.mpr ht) ((resolve_eq_ok_iff hm).mp hc)
    · intro h
      cases h with
      | datatype h => exact absurd h ht
      | class_ _ h => exact ⟨_, (resolve_eq_ok_iff hm).mpr h, rfl⟩

theorem exists_typeFor_iff :
    (∃ type, TypeFor m t type) ↔ (isDatatypeIri t = false → ∃ c, StandsFor m t c) := by
  constructor
  · rintro ⟨type, h⟩ ht
    cases h with
    | datatype h => simp [ht] at h
    | class_ _ h => exact ⟨_, h⟩
  · intro h
    cases ht : isDatatypeIri t with
    | true => exact ⟨_, .datatype ht⟩
    | false =>
      obtain ⟨c, hc⟩ := h ht
      exact ⟨_, .class_ ht hc⟩

/-- A resource of one kind that is an attribute or an association end is not both. -/
theorem isProperty_cases (hm : m.Uniform) (he : m.get? part = some e)
    (hpart : IsProperty m part = true) :
    e.is .structuralAttribute = true ∧ e.is .structuralAssociationEnd = false ∨
      e.is .structuralAttribute = false ∧ e.is .structuralAssociationEnd = true := by
  obtain ⟨k, hk⟩ := hm.kind he
  have h : e.is .structuralAttribute = true ∨ e.is .structuralAssociationEnd = true := by
    simpa [IsProperty, he] using hpart
  rcases h with h | h <;>
    · obtain rfl := (Resource.is_iff_of_kinds hk).mp h
      simp [Resource.is, hk]

/-- The types of a property, and the classes among them. -/
theorem typesFor_of_typesOf (hm : m.Uniform) (he : m.get? part = some e)
    (hpart : IsProperty m part = true) {types : List PropertyType}
    (h : typesOf m e = .ok types) : TypesFor m e types ∧
      ∀ t, t ∈ types.filterMap PropertyType.class? ↔ e.is .structuralAssociationEnd = true ∧
        ∃ x ∈ e.iriList .range, isDatatypeIri x = false ∧ StandsFor m x t := by
  unfold typesOf at h
  rcases isProperty_cases hm he hpart with ⟨ha, hend⟩ | ⟨ha, hend⟩
  · rw [if_pos ha] at h
    obtain rfl := Except.ok.inj h
    exact ⟨Or.inl ⟨ha, rfl⟩, fun t => by simp [PropertyType.class?, hend]⟩
  · rw [if_neg (by simp [ha])] at h
    refine ⟨Or.inr ⟨hend, ?_⟩, fun t => ?_⟩
    · simpa only [endType_eq_ok_iff hm] using Except.mapM_eq_ok_iff.mp h
    · rw [List.mem_filterMap]
      constructor
      · rintro ⟨type, htype, hclass⟩
        obtain ⟨x, hx, htype⟩ := Except.exists_of_mem_mapM h htype
        cases (endType_eq_ok_iff hm).mp htype with
        | datatype => cases hclass
        | class_ hx' hc =>
          obtain rfl := Option.some.inj hclass
          exact ⟨hend, x, hx, hx', hc⟩
      · rintro ⟨-, x, hx, hx', hc⟩
        obtain ⟨type, htype, hx⟩ := Except.exists_mem_of_mapM h hx
        rw [(endType_eq_ok_iff hm).mpr (.class_ hx' hc)] at hx
        exact ⟨type, htype, Except.ok.inj hx ▸ rfl⟩

theorem exists_typesOf_iff (hm : m.Uniform) (he : m.get? part = some e)
    (hpart : IsProperty m part = true) : (∃ types, typesOf m e = .ok types) ↔
      (e.is .structuralAssociationEnd = true → ∀ t ∈ e.iriList .range, isDatatypeIri t = false →
        ∃ c, StandsFor m t c) := by
  unfold typesOf
  rcases isProperty_cases hm he hpart with ⟨ha, hend⟩ | ⟨ha, hend⟩
  · rw [if_pos ha]
    exact iff_of_true ⟨_, rfl⟩ fun h => by simp [hend] at h
  · rw [if_neg (by simp [ha]), Except.exists_mapM_eq_ok_iff]
    simp only [endType_eq_ok_iff hm, exists_typeFor_iff, hend, true_imp_iff]

theorem partOf_eq_ok_iff {o : Option StructuralProperty} :
    partOf m part = .ok o ↔ ∃ e, m.get? part = some e ∧
      (IsProperty m part = false ∧ o = none ∨ IsProperty m part = true ∧
        ∃ p, o = some p ∧ propertyOf m e = .ok p) := by
  unfold partOf
  refine Except.bind_eq_ok.trans ⟨?_, ?_⟩
  · rintro ⟨e, he, h⟩
    rw [ResourceMap.require_eq_ok] at he
    refine ⟨e, he, ?_⟩
    rw [IsProperty, he, Option.any_some]
    split at h
    · obtain ⟨p, hp, h⟩ := Except.bind_eq_ok.mp h
      exact Or.inr ⟨‹_›, p, (Except.ok.inj h).symm, hp⟩
    · exact Or.inl ⟨Bool.eq_false_iff.mpr ‹_›, (Except.ok.inj h).symm⟩
  · rintro ⟨e, he, h⟩
    refine ⟨e, ResourceMap.require_eq_ok.mpr he, ?_⟩
    rw [IsProperty, he, Option.any_some] at h
    rcases h with ⟨hnot, rfl⟩ | ⟨hp, p, rfl, h⟩
    · simp only [hnot, Bool.false_eq_true, if_false]
      rfl
    · simp only [hp, if_true]
      exact Except.bind_eq_ok.mpr ⟨p, h, rfl⟩

/-- The property that is made of a part is the one that the part stands for, and the classes
to which it leads are those behind the range of the part. -/
theorem propertyFor_of_propertyOf (hm : m.Uniform) {p : StructuralProperty}
    (he : m.get? part = some e) (hpart : IsProperty m part = true)
    (h : propertyOf m e = .ok p) : PropertyFor m part p ∧
      ∀ t, t ∈ p.classes ↔ e.is .structuralAssociationEnd = true ∧
        ∃ x ∈ e.iriList .range, isDatatypeIri x = false ∧ StandsFor m x t := by
  obtain ⟨types, htypes, h⟩ := Except.bind_eq_ok.mp h
  obtain rfl := Except.ok.inj h
  obtain ⟨hfor, hclasses⟩ := typesFor_of_typesOf hm he hpart htypes
  exact ⟨⟨hm.iri he, e, he, hfor⟩, hclasses⟩

/-- Something is made of a part that exists, if the classes of its range do. -/
theorem exists_partOf_iff (hm : m.Uniform) : (∃ o, partOf m part = .ok o) ↔
    (∃ e, m.get? part = some e) ∧ ∀ e, m.get? part = some e →
      e.is .structuralAssociationEnd = true → ∀ t ∈ e.iriList .range, isDatatypeIri t = false →
      ∃ c, StandsFor m t c := by
  simp only [partOf_eq_ok_iff]
  constructor
  · rintro ⟨o, e, he, h⟩
    refine ⟨⟨e, he⟩, fun e' he' hend => ?_⟩
    obtain rfl := Option.some.inj (he.symm.trans he')
    have hpart : IsProperty m part = true := by simp [IsProperty, he, hend]
    rcases h with ⟨hnot, -⟩ | ⟨-, p, -, hp⟩
    · exact absurd hpart (Bool.eq_false_iff.mp hnot)
    · obtain ⟨types, htypes, -⟩ := Except.bind_eq_ok.mp hp
      exact (exists_typesOf_iff hm he hpart).mp ⟨types, htypes⟩ hend
  · rintro ⟨⟨e, he⟩, h⟩
    cases hpart : IsProperty m part with
    | false => exact ⟨none, e, he, Or.inl ⟨rfl, rfl⟩⟩
    | true =>
      obtain ⟨types, htypes⟩ := (exists_typesOf_iff hm he hpart).mpr (h e he)
      exact ⟨_, e, he, Or.inr ⟨rfl, _, rfl, Except.bind_eq_ok.mpr ⟨types, htypes, rfl⟩⟩⟩

/-! ## Classes -/

/-- What a list of optional results keeps belongs to the elements that have one. -/
theorem forall₂_filterMap {α β : Type} {R : α → Option β → Prop} {S : α → β → Prop}
    {p : α → Bool} (hnone : ∀ {a}, R a none → p a = false)
    (hsome : ∀ {a b}, R a (some b) → p a = true ∧ S a b) {l : List α} {os : List (Option β)}
    (h : List.Forall₂ R l os) : List.Forall₂ S (l.filter p) (os.filterMap id) := by
  induction h with
  | nil => exact .nil
  | @cons a o l os ho _ ih =>
    cases o with
    | none => simpa [hnone ho] using ih
    | some b =>
      obtain ⟨hp, hb⟩ := hsome ho
      simpa [hp] using ⟨hb, ih⟩

/-- A class is made of a resource exactly if everything that it names resolves. -/
theorem exists_classOf_iff (hm : m.Uniform) (schema : Iri) :
    (∃ c, classOf m schema r = .ok c) ↔ Sound m r := by
  have hsteps : (∃ c, classOf m schema r = .ok c) ↔
      (∃ parents, (r.iriList .parents).mapM (resolve m) = .ok parents) ∧
        ∃ properties, r.parts.mapM (partOf m) = .ok properties := by
    constructor
    · rintro ⟨c, h⟩
      obtain ⟨parents, hparents, h⟩ := Except.bind_eq_ok.mp h
      obtain ⟨properties, hproperties, -⟩ := Except.bind_eq_ok.mp h
      exact ⟨⟨parents, hparents⟩, properties, hproperties⟩
    · rintro ⟨⟨parents, hparents⟩, properties, hproperties⟩
      exact ⟨_, Except.bind_eq_ok.mpr ⟨parents, hparents,
        Except.bind_eq_ok.mpr ⟨properties, hproperties, rfl⟩⟩⟩
  rw [hsteps, Except.exists_mapM_eq_ok_iff, Except.exists_mapM_eq_ok_iff]
  simp only [resolve_eq_ok_iff hm, exists_partOf_iff hm]
  exact ⟨fun ⟨hparents, hparts⟩ => ⟨fun part h => (hparts part h).1, hparents,
      fun part h => (hparts part h).2⟩,
    fun h => ⟨h.parents, fun part hp => ⟨h.parts part hp, h.ranges part hp⟩⟩⟩

/-- The class that is made of a resource is the one that the resource stands for. -/
theorem classFor_of_classOf (hm : m.Uniform) (h : classOf m schema r = .ok c) :
    ClassFor m schema r c := by
  obtain ⟨parents, hparents, h⟩ := Except.bind_eq_ok.mp h
  obtain ⟨properties, hproperties, h⟩ := Except.bind_eq_ok.mp h
  obtain rfl := Except.ok.inj h
  refine ⟨rfl, ?_, ?_, ?_⟩
  · simpa only [resolve_eq_ok_iff hm] using Except.mapM_eq_ok_iff.mp hparents
  · refine forall₂_filterMap (fun hnone => ?_) (fun hsome => ?_)
      (Except.mapM_eq_ok_iff.mp hproperties)
    · obtain ⟨e, -, ⟨hnot, -⟩ | ⟨-, p, hp, -⟩⟩ := partOf_eq_ok_iff.mp hnone
      · exact hnot
      · cases hp
    · obtain ⟨e, he, ⟨-, hp⟩ | ⟨hpart, p, hp, hmade⟩⟩ := partOf_eq_ok_iff.mp hsome
      · cases hp
      · obtain rfl := Option.some.inj hp
        exact ⟨hpart, (propertyFor_of_propertyOf hm he hpart hmade).1⟩
  · cases hs : r.iri? .schema <;> simp

/-- A class that is made of a resource leads where the resource leads. -/
theorem mem_links_of_classOf (hm : m.Uniform) (h : classOf m schema r = .ok c) :
    t ∈ links c ↔ LeadsTo m r t := by
  obtain ⟨parents, hparents, h⟩ := Except.bind_eq_ok.mp h
  obtain ⟨properties, hproperties, h⟩ := Except.bind_eq_ok.mp h
  obtain rfl := Except.ok.inj h
  simp only [links, List.mem_append, List.mem_flatMap, List.mem_filterMap, id_eq,
    exists_eq_right]
  constructor
  · rintro (ht | ⟨p, hp, ht⟩)
    · obtain ⟨x, hx, hstands⟩ := (mem_of_mapM_resolve hm hparents).mp ht
      exact .parent hx hstands
    · obtain ⟨part, hmem, hp⟩ := Except.exists_of_mem_mapM hproperties hp
      obtain ⟨e, he, ⟨-, hp⟩ | ⟨hpart, p, hp, hmade⟩⟩ := partOf_eq_ok_iff.mp hp
      · cases hp
      obtain rfl := Option.some.inj hp
      obtain ⟨hend, x, hx, hx', hstands⟩ :=
        ((propertyFor_of_propertyOf hm he hpart hmade).2 t).mp ht
      exact .range hmem he hend hx hx' hstands
  · intro ht
    cases ht with
    | parent hx hstands => exact Or.inl ((mem_of_mapM_resolve hm hparents).mpr ⟨_, hx, hstands⟩)
    | @range part x _ e hmem he hend hx hx' hstands =>
      obtain ⟨o, ho, hp⟩ := Except.exists_mem_of_mapM hproperties hmem
      have hpart : IsProperty m part = true := by simp [IsProperty, he, hend]
      obtain ⟨e', he', ⟨hnot, -⟩ | ⟨-, p, rfl, hmade⟩⟩ := partOf_eq_ok_iff.mp hp
      · exact absurd hpart (Bool.eq_false_iff.mp hnot)
      obtain rfl := Option.some.inj (he.symm.trans he')
      exact Or.inr ⟨p, ho,
        ((propertyFor_of_propertyOf hm he hpart hmade).2 t).mpr ⟨hend, x, hx, hx', hstands⟩⟩

/-! ## Models -/

/-- The model of a schema with the classes that have been visited. -/
def ofVisited (schema : Iri) (r : Resource) (roots : List Iri)
    (visited : List (Iri × StructuralClass)) : StructuralModel where
  iri := schema
  label := r.languageText .humanLabel
  description := r.languageText .humanDescription
  technicalLabel := r.text? .technicalLabel
  roots
  classes := .ofList visited
  specification := none
  xmlNamespace := r.text? .xmlNamespace
  xmlPrefix := r.text? .xmlPrefix

variable {roots parts : List Iri} {visited : List (Iri × StructuralClass)}

/-- The classes among the parts of a schema. -/
theorem mem_of_classParts {l parts : List Iri} (h : classParts m l = .ok parts) :
    iri ∈ parts ↔ iri ∈ l ∧ ∃ e, m.get? iri = some e ∧ e.is .structuralClass = true := by
  obtain ⟨resources, hresources, h⟩ := Except.bind_eq_ok.mp h
  obtain rfl := Except.ok.inj h
  have hmade : ∀ {i x}, ((m.require i).map fun e => (i, e)) = .ok x ↔
      ∃ e, m.get? i = some e ∧ x = (i, e) := by
    intro i x
    rw [Except.map_eq_ok]
    simp only [ResourceMap.require_eq_ok]
    exact exists_congr fun e => and_congr_right fun _ => eq_comm
  constructor
  · intro hmem
    obtain ⟨x, hx, rfl⟩ := List.mem_map.mp hmem
    obtain ⟨hx, hkind⟩ := List.mem_filter.mp hx
    obtain ⟨i, hi, hx⟩ := Except.exists_of_mem_mapM hresources hx
    obtain ⟨e, he, rfl⟩ := hmade.mp hx
    exact ⟨hi, e, he, hkind⟩
  · rintro ⟨hi, e, he, hkind⟩
    obtain ⟨x, hx, hmem⟩ := Except.exists_mem_of_mapM hresources hi
    rw [hmade.mpr ⟨e, he, rfl⟩] at hmem
    obtain rfl := Except.ok.inj hmem
    exact List.mem_map.mpr ⟨_, List.mem_filter.mpr ⟨hx, hkind⟩, rfl⟩

theorem exists_classParts_iff {l : List Iri} :
    (∃ parts, classParts m l = .ok parts) ↔ ∀ part ∈ l, ∃ e, m.get? part = some e := by
  have hstep : (∃ parts, classParts m l = .ok parts) ↔
      ∃ resources, l.mapM (fun i => (m.require i).map fun e => (i, e)) = .ok resources :=
    ⟨fun ⟨_, h⟩ => (Except.bind_eq_ok.mp h).imp fun _ h => h.1,
      fun ⟨resources, h⟩ => ⟨_, Except.bind_eq_ok.mpr ⟨resources, h, rfl⟩⟩⟩
  rw [hstep, Except.exists_mapM_eq_ok_iff]
  refine forall₂_congr fun part _ => ?_
  simp only [Except.map_eq_ok, ResourceMap.require_eq_ok]
  exact ⟨fun ⟨_, e, he, _⟩ => ⟨e, he⟩, fun ⟨e, he⟩ => ⟨_, e, he, rfl⟩⟩

/-- Whatever the exploration of a schema begins with is reached. -/
theorem reached_of_mem_queue (hm : m.Uniform)
    (hroots : (r.iriList .roots).mapM (resolve m) = .ok roots)
    (hparts : classParts m r.parts = .ok parts) (h : iri ∈ roots ++ parts) : Reached m r iri := by
  rcases List.mem_append.mp h with h | h
  · obtain ⟨t, ht, hstands⟩ := (mem_of_mapM_resolve hm hroots).mp h
    exact .root ht hstands
  · obtain ⟨h, e, he, hc⟩ := (mem_of_classParts hparts).mp h
    exact .part h he hc

/-- The roots and the classes that are collected for a schema. -/
structure Collected (m : ResourceMap) (schema : Iri) (r : Resource) (roots parts : List Iri)
    (visited : List (Iri × StructuralClass)) : Prop where
  found : m.get? schema = some r
  kind : r.is .structuralSchema = true
  resolved : (r.iriList .roots).mapM (resolve m) = .ok roots
  own : classParts m r.parts = .ok parts
  explored : m.explore (classOf m schema) links (roots ++ parts) = .ok visited

/-- What is collected becomes a model if no class extends itself. -/
theorem Collected.build_eq (h : Collected m schema r roots parts visited) :
    build m schema = (ExtensionGraph.checkAcyclic
      (.ofParents (ofVisited schema r roots visited).extension)).map fun _ =>
        ofVisited schema r roots visited := by
  have hsteps : build m schema = (ExtensionGraph.checkAcyclic
      (.ofParents (ofVisited schema r roots visited).extension)).bind fun _ =>
        .ok (ofVisited schema r roots visited) := by
    unfold build
    rw [ResourceMap.require_eq_ok.mpr h.found]
    simp only [Except.bind, bind, Resource.expect_eq_ok.mpr h.kind, h.resolved, h.own, h.explored]
    rfl
  rw [hsteps]
  cases ExtensionGraph.checkAcyclic (.ofParents (ofVisited schema r roots visited).extension) <;>
    rfl

/-- A model is built of what is collected. -/
theorem exists_collected_of_build (h : build m schema = .ok model) :
    ∃ r roots parts visited, Collected m schema r roots parts visited ∧
      model = ofVisited schema r roots visited := by
  unfold build at h
  obtain ⟨r, hr, h⟩ := Except.bind_eq_ok.mp h
  obtain ⟨⟨⟩, hkind, h⟩ := Except.bind_eq_ok.mp h
  obtain ⟨roots, hroots, h⟩ := Except.bind_eq_ok.mp h
  obtain ⟨parts, hparts, h⟩ := Except.bind_eq_ok.mp h
  obtain ⟨visited, hvisited, h⟩ := Except.bind_eq_ok.mp h
  obtain ⟨⟨⟩, -, h⟩ := Except.bind_eq_ok.mp h
  exact ⟨r, roots, parts, visited, ⟨ResourceMap.require_eq_ok.mp hr,
    Resource.expect_eq_ok.mp hkind, hroots, hparts, hvisited⟩, (Except.ok.inj h).symm⟩

/-- Every class that is visited is reached, and it is made of its resource. -/
theorem Collected.mem_visited (hm : m.Uniform) (h : Collected m schema r roots parts visited) :
    ∀ e ∈ visited, Reached m r e.1 ∧ ∃ s, m.get? e.1 = some s ∧ classOf m schema s = .ok e.2 :=
  visited_of_explore _ _ h.explored
    (fun _ hi => reached_of_mem_queue hm h.resolved h.own hi)
    fun hi hs hc _ hj => .next hi hs ((mem_links_of_classOf hm hc).mp hj)

/-- Every class that is reached is visited. -/
theorem Collected.visited_of_reached (hm : m.Uniform)
    (h : Collected m schema r roots parts visited) (hr : Reached m r iri) :
    iri ∈ visited.map Prod.fst := by
  obtain ⟨hqueue, hlinks⟩ := explore_eq_ok _ _ h.explored
  induction hr with
  | root ht hstands =>
    have hmem := (mem_of_mapM_resolve hm h.resolved).mpr ⟨_, ht, hstands⟩
    have hi := hqueue _ (List.mem_append_left _ hmem)
    exact hi.2 hi.1
  | part hmem he hc =>
    have hi := hqueue _ (List.mem_append_right _ ((mem_of_classParts h.own).mpr ⟨hmem, _, he, hc⟩))
    exact hi.2 hi.1
  | next _ hs hleads ih =>
    obtain ⟨⟨k, c⟩, he, rfl⟩ := List.mem_map.mp ih
    obtain ⟨-, s, hs', hc⟩ := h.mem_visited hm _ he
    obtain rfl := Option.some.inj (hs.symm.trans hs')
    have hi := (hlinks _ he).2 _ ((mem_links_of_classOf hm hc).mpr hleads)
    exact hi.2 hi.1

theorem Collected.has_iff (hm : m.Uniform) (h : Collected m schema r roots parts visited) :
    (ofVisited schema r roots visited).Has iri ↔ Reached m r iri := by
  refine SortedMap.contains_ofList_iff.trans ⟨fun hmem => ?_, h.visited_of_reached hm⟩
  obtain ⟨e, he, rfl⟩ := List.mem_map.mp hmem
  exact (h.mem_visited hm e he).1

theorem Collected.class? (hm : m.Uniform) (h : Collected m schema r roots parts visited)
    (hc : (ofVisited schema r roots visited).class? iri = some c) :
    Reached m r iri ∧ ∃ s, m.get? iri = some s ∧ classOf m schema s = .ok c :=
  h.mem_visited hm (iri, c) (SortedMap.mem_of_get?_ofList hc)

/-- Something is collected for a schema exactly if everything on the way resolves. -/
theorem exists_collected_iff (hm : m.Uniform) (hr : m.get? schema = some r)
    (hk : r.is .structuralSchema = true) :
    (∃ roots parts visited, Collected m schema r roots parts visited) ↔ Resolvable m r := by
  constructor
  · rintro ⟨roots, parts, visited, h⟩
    refine ⟨exists_classParts_iff.mp ⟨parts, h.own⟩, fun t ht => ?_, fun k s hreached hs => ?_⟩
    · obtain ⟨c, -, ht⟩ := Except.exists_mem_of_mapM h.resolved ht
      exact ⟨c, (resolve_eq_ok_iff hm).mp ht⟩
    · obtain ⟨⟨k, c⟩, he, rfl⟩ := List.mem_map.mp (h.visited_of_reached hm hreached)
      obtain ⟨-, s', hs', hc⟩ := h.mem_visited hm _ he
      obtain rfl := Option.some.inj (hs.symm.trans hs')
      exact (exists_classOf_iff hm schema).mp ⟨c, hc⟩
  · intro h
    obtain ⟨parts, hparts⟩ := exists_classParts_iff.mpr h.parts
    obtain ⟨roots, hroots⟩ := Except.exists_mapM_eq_ok_iff.mpr fun t ht =>
      (h.roots t ht).imp fun c hc => (resolve_eq_ok_iff hm).mpr hc
    have hmake : ∀ i, Reached m r i → ∃ s c, m.get? i = some s ∧ classOf m schema s = .ok c ∧
        ∀ j ∈ links c, Reached m r j := by
      intro i hi
      obtain ⟨s, hs, -⟩ := hi.exists_class
      obtain ⟨c, hc⟩ := (exists_classOf_iff hm schema).mpr (h.classes i s hi hs)
      exact ⟨s, c, hs, hc, fun j hj => .next hi hs ((mem_links_of_classOf hm hc).mp hj)⟩
    obtain ⟨visited, hvisited⟩ := exists_explore_eq_ok m.keys (roots ++ parts)
      (fun i hi => reached_of_mem_queue hm hroots hparts hi) hmake
    exact ⟨roots, parts, visited, hr, hk, hroots, hparts, hvisited⟩

theorem mem_parents_of_classOf (hm : m.Uniform) (h : classOf m schema r = .ok c) :
    t ∈ c.parents ↔ ∃ x ∈ r.iriList .parents, StandsFor m x t := by
  obtain ⟨parents, hparents, h⟩ := Except.bind_eq_ok.mp h
  obtain ⟨properties, -, h⟩ := Except.bind_eq_ok.mp h
  obtain rfl := Except.ok.inj h
  exact mem_of_mapM_resolve hm hparents

/-- The classes of a model extend each other as their resources say. -/
theorem Collected.extends_iff (hm : m.Uniform) (h : Collected m schema r roots parts visited)
    {p : Iri} : ExtensionGraph.Extends (ofVisited schema r roots visited).extension iri p ↔
      Reached m r iri ∧ ExtendsIn m iri p := by
  constructor
  · rintro ⟨e, he, rfl, hp⟩
    obtain ⟨⟨k, c⟩, hmem, rfl⟩ := List.mem_map.mp he
    obtain ⟨hreached, s, hs, hc⟩ := h.class? hm (SortedMap.mem_toList_iff.mp hmem)
    exact ⟨hreached, s, hs, (mem_parents_of_classOf hm hc).mp hp⟩
  · rintro ⟨hreached, s, hs, hp⟩
    obtain ⟨c, hclass⟩ := StructuralModel.has_iff.mp ((h.has_iff hm).mpr hreached)
    obtain ⟨-, s', hs', hc⟩ := h.class? hm hclass
    obtain rfl := Option.some.inj (hs.symm.trans hs')
    exact ⟨_, List.mem_map_of_mem (SortedMap.mem_toList_iff.mpr hclass), rfl,
      (mem_parents_of_classOf hm hc).mpr hp⟩

theorem Collected.transGen_extends_iff (hm : m.Uniform)
    (h : Collected m schema r roots parts visited) {p : Iri} :
    Relation.TransGen (ExtensionGraph.Extends (ofVisited schema r roots visited).extension) iri p ↔
      Reached m r iri ∧ Relation.TransGen (ExtendsIn m) iri p := by
  constructor
  · intro hpath
    induction hpath with
    | single he =>
      obtain ⟨hreached, he⟩ := (h.extends_iff hm).mp he
      exact ⟨hreached, .single he⟩
    | tail _ he ih => exact ⟨ih.1, ih.2.tail ((h.extends_iff hm).mp he).2⟩
  · rintro ⟨hreached, hpath⟩
    induction hpath using Relation.TransGen.head_induction_on with
    | single he => exact .single ((h.extends_iff hm).mpr ⟨hreached, he⟩)
    | head he _ ih => exact (ih (hreached.extends he)).head ((h.extends_iff hm).mpr ⟨hreached, he⟩)

/-- The classes of a built model are those that are reached from the schema, each as its
resource says. A model is built exactly if everything on the way from the schema resolves and
no class that is reached extends itself; if one does, such a class is named. -/
theorem build_eq_ok_iff_resolvable (hm : m.Uniform) (hr : m.get? schema = some r)
    (hk : r.is .structuralSchema = true) :
    (∀ model, build m schema = .ok model →
      (∀ iri, model.Has iri ↔ Reached m r iri) ∧
      List.Forall₂ (StandsFor m) (r.iriList .roots) model.roots ∧
      ∀ iri c, model.class? iri = some c →
        ∃ e, m.get? iri = some e ∧ ClassFor m schema e c) ∧
    ((∃ model, build m schema = .ok model) ↔
      Resolvable m r ∧ ∀ c, Reached m r c → ¬ Relation.TransGen (ExtendsIn m) c c) ∧
    (Resolvable m r → ∀ e, build m schema = .error e →
      ∃ c, e = .extensionCycle c ∧ Reached m r c ∧ Relation.TransGen (ExtendsIn m) c c) := by
  have hcollected : ∀ {model}, build m schema = .ok model → ∃ roots parts visited,
      Collected m schema r roots parts visited ∧ model = ofVisited schema r roots visited := by
    intro model h
    obtain ⟨r', roots, parts, visited, hc, rfl⟩ := exists_collected_of_build h
    obtain rfl := Option.some.inj (hr.symm.trans hc.found)
    exact ⟨roots, parts, visited, hc, rfl⟩
  refine ⟨fun model h => ?_, ⟨?_, ?_⟩, fun hresolvable e he => ?_⟩
  · obtain ⟨roots, parts, visited, hc, rfl⟩ := hcollected h
    refine ⟨fun iri => hc.has_iff hm, ?_, fun iri c hclass => ?_⟩
    · have hroots := Except.mapM_eq_ok_iff.mp hc.resolved
      simp only [resolve_eq_ok_iff hm] at hroots
      exact hroots
    · obtain ⟨-, s, hs, hmade⟩ := hc.class? hm hclass
      exact ⟨s, hs, classFor_of_classOf hm hmade⟩
  · rintro ⟨model, h⟩
    obtain ⟨roots, parts, visited, hc, rfl⟩ := hcollected h
    refine ⟨(exists_collected_iff hm hr hk).mp ⟨roots, parts, visited, hc⟩,
      fun c hreached hcycle => ?_⟩
    exact ExtensionGraph.checkAcyclic_ofParents_iff.mp (closed_of_build h).2 c
      ((hc.transGen_extends_iff hm).mpr ⟨hreached, hcycle⟩)
  · rintro ⟨hresolvable, hacyclic⟩
    obtain ⟨roots, parts, visited, hc⟩ := (exists_collected_iff hm hr hk).mpr hresolvable
    have hok := ExtensionGraph.checkAcyclic_ofParents_iff.mpr fun c hcycle => by
      obtain ⟨hreached, hcycle⟩ := (hc.transGen_extends_iff hm).mp hcycle
      exact hacyclic c hreached hcycle
    exact ⟨_, hc.build_eq.trans (Except.map_eq_ok.mpr ⟨(), hok, rfl⟩)⟩
  · obtain ⟨roots, parts, visited, hc⟩ := (exists_collected_iff hm hr hk).mpr hresolvable
    rw [hc.build_eq] at he
    obtain ⟨c, hc', rfl⟩ := ExtensionGraph.checkAcyclic_eq_error_iff.mp (Except.map_eq_error.mp he)
    obtain ⟨hreached, hcycle⟩ :=
      (hc.transGen_extends_iff hm).mp (ExtensionGraph.cycle_of_cycle?_eq_some hc')
    exact ⟨c, rfl, hreached, hcycle⟩

/-- Clerks are reached from their schema, and agents of another schema behind the reference to
them. Nothing else is, and both are collected. -/
theorem reached_clerkResources : clerkResources.Uniform ∧
    (∃ r, clerkResources.get? "orders" = some r ∧ r.is .structuralSchema = true ∧
      Resolvable clerkResources r ∧
      ∀ iri, Reached clerkResources r iri ↔ iri ∈ ["agent", "clerk"]) ∧
    build clerkResources "orders" = .ok builtClerks ∧
    ∃ e, clerkResources.get? "agent" = some e ∧
      ClassFor clerkResources "orders" e agentClass := by
  have hm : clerkResources.Uniform := ResourceMap.uniform_iff.mpr (by decide)
  obtain ⟨r, hschema, hkind⟩ : ∃ r, clerkResources.get? "orders" = some r ∧
      r.is .structuralSchema = true := ⟨_, rfl, rfl⟩
  obtain ⟨hmodel, hbuilt, -⟩ := build_eq_ok_iff_resolvable hm hschema hkind
  obtain ⟨hreached, -, hclasses⟩ := hmodel _ build_clerkResources
  have hkeys : builtClerks.classes.keys = ["agent", "clerk"] := by decide
  refine ⟨hm, ⟨r, hschema, hkind, (hbuilt.mp ⟨_, build_clerkResources⟩).1, fun iri => ?_⟩,
    build_clerkResources, hclasses "agent" agentClass rfl⟩
  rw [← hreached, Has, ← SortedMap.mem_keys_iff, hkeys]

end StructuralModel

end DataSpec
