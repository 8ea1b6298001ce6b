import DataSpec.Conceptual.Builder
import DataSpec.Proofs.Structural.Building

/-!
# Every property in its place

`Reached` is the least set that has the parts of a schema, and with a resource all that it
leads to (`LeadsTo`). For resources of one kind each, under their own identifiers, the visited
resources are those that are reached (`explored_of_explore`).

Classes only gain properties when they are built, and what each step adds to which class is
said once (`Gains`) : an attribute to its owner, in the order of the parts (`FollowsParts`), and an
association with its ends and the classes at them, a `Crossing`, the end at either class to the
other one. What all of this adds up to is `build_places_properties`.
-/

set_option autoImplicit false
set_option linter.unusedSectionVars false

namespace DataSpec.ConceptualModel

/-! ## What is reached -/

/-- What a resource leads to : a class to its parents, an attribute to its owner, an
association to its ends, and an end to the classes at it. -/
inductive LeadsTo (r : Resource) : Iri → Prop
  | parent {t} : r.is .conceptualClass = true → t ∈ r.iriList .parents → LeadsTo r t
  | owner {t} : r.is .conceptualAttribute = true → r.iri? .owner = some t → LeadsTo r t
  | end_ {t} : r.is .conceptualAssociation = true → t ∈ r.parts → LeadsTo r t
  | range {t} : r.is .conceptualAssociationEnd = true → t ∈ r.iriList .range → LeadsTo r t

/-- The resources that are reached from a schema. -/
inductive Reached (m : ResourceMap) (schema : Resource) : Iri → Prop
  | part {i} : i ∈ schema.parts → Reached m schema i
  | next {i j r} : Reached m schema i → m.get? i = some r → LeadsTo r j → Reached m schema j

/-- A resource of a kind that is reached. -/
structure Reaches (m : ResourceMap) (schema : Resource) (kind : Kind) (r : Resource) : Prop where
  reached : Reached m schema r.iri
  found : m.get? r.iri = some r
  kind : r.is kind = true

/-- The kind of resources of a role. -/
def kindOf : ConceptualRole → Option Kind
  | .class_ => some .conceptualClass
  | .attribute => some .conceptualAttribute
  | .association => some .conceptualAssociation
  | .associationEnd => some .conceptualAssociationEnd
  | .other => none

variable {m : ResourceMap} {schema r e a : Resource} {i k t : Iri} {kind : Kind}
  {role : ConceptualRole} {visited : List (Iri × Resource)}

/-- A resource of one kind has the role of that kind. -/
theorem conceptualRole_eq_iff (hr : ∃ k, r.kinds = [k]) (role : ConceptualRole)
    (h : kindOf role = some kind) :
    r.conceptualRole = role ↔ r.is kind = true := by
  obtain ⟨k, hk⟩ := hr
  cases role with
  | other => cases h
  | _ =>
    obtain rfl := Option.some.inj h
    cases k <;> simp [Resource.conceptualRole, Resource.is, hk]

theorem mem_conceptualLinks_iff (hr : ∃ k, r.kinds = [k]) :
    t ∈ r.conceptualLinks ↔ LeadsTo r t := by
  unfold Resource.conceptualLinks
  constructor
  · intro h
    split at h
    · exact .parent ((conceptualRole_eq_iff hr _ rfl).mp ‹_›) h
    · exact .owner ((conceptualRole_eq_iff hr _ rfl).mp ‹_›) (Option.mem_toList.mp h)
    · exact .end_ ((conceptualRole_eq_iff hr _ rfl).mp ‹_›) h
    · exact .range ((conceptualRole_eq_iff hr _ rfl).mp ‹_›) h
    · simp at h
  · intro h
    cases h with
    | parent hk ht => rwa [(conceptualRole_eq_iff hr .class_ rfl).mpr hk]
    | owner hk ht =>
      rw [(conceptualRole_eq_iff hr .attribute rfl).mpr hk]
      exact Option.mem_toList.mpr ht
    | end_ hk ht => rwa [(conceptualRole_eq_iff hr .association rfl).mpr hk]
    | range hk ht => rwa [(conceptualRole_eq_iff hr .associationEnd rfl).mpr hk]

/-- The resources that are reached, each once. -/
structure Explored (m : ResourceMap) (schema : Resource) (visited : List (Iri × Resource)) :
    Prop where
  nodup : (visited.map Prod.fst).Nodup
  mem : ∀ {i r}, (i, r) ∈ visited ↔ Reached m schema i ∧ m.get? i = some r

theorem explored_of_explore (hm : m.Uniform)
    (h : m.explore Except.ok Resource.conceptualLinks schema.parts = .ok visited) :
    Explored m schema visited := by
  have hnodup := StructuralModel.nodup_of_explore _ _ (SortedMap.nodup_keys m) h
  have hsound := StructuralModel.visited_of_explore _ _ h (P := Reached m schema)
    (fun i hi => .part hi) fun {i r b} hi hr hb j hj => by
      obtain rfl := Except.ok.inj hb
      exact .next hi hr ((mem_conceptualLinks_iff (hm.kind hr)).mp hj)
  have hvisited : ∀ {i r}, (i, r) ∈ visited → Reached m schema i ∧ m.get? i = some r := by
    intro i r hmem
    obtain ⟨hi, r', hr', hmade⟩ := hsound _ hmem
    obtain rfl := Except.ok.inj hmade
    exact ⟨hi, hr'⟩
  obtain ⟨hqueue, hlinks⟩ := StructuralModel.explore_eq_ok _ _ h
  have hreached : ∀ {i}, Reached m schema i → i ∈ visited.map Prod.fst := by
    intro i hi
    induction hi with
    | part hi => exact (hqueue _ hi).2 (hqueue _ hi).1
    | @next i j r _ hr hleads ih =>
      obtain ⟨⟨i, r'⟩, he, rfl⟩ := List.mem_map.mp ih
      obtain rfl := Option.some.inj (hr.symm.trans (hvisited he).2)
      have hj := (hlinks _ he).2 j ((mem_conceptualLinks_iff (hm.kind hr)).mpr hleads)
      exact hj.2 hj.1
  refine ⟨hnodup.1, fun {i r} => ⟨hvisited, fun ⟨hi, hr⟩ => ?_⟩⟩
  obtain ⟨⟨i, r'⟩, he, rfl⟩ := List.mem_map.mp (hreached hi)
  obtain rfl := Option.some.inj (hr.symm.trans (hvisited he).2)
  exact he

namespace Explored

/-- The resources of a role are those of its kind. -/
theorem mem_ofRole_iff (h : Explored m schema visited) (hm : m.Uniform)
    (hrole : kindOf role = some kind) :
    (i, r) ∈ ofRole role visited ↔ i = r.iri ∧ Reaches m schema kind r := by
  rw [ofRole, List.mem_filter, h.mem, decide_eq_true_eq]
  constructor
  · rintro ⟨⟨hi, hr⟩, hkind⟩
    obtain rfl := hm.iri hr
    exact ⟨rfl, hi, hr, (conceptualRole_eq_iff (hm.kind hr) role hrole).mp hkind⟩
  · rintro ⟨rfl, hr⟩
    exact ⟨⟨hr.reached, hr.found⟩,
      (conceptualRole_eq_iff (hm.kind hr.found) role hrole).mpr hr.kind⟩

theorem nodup_ofRole (h : Explored m schema visited) (role : ConceptualRole) :
    ((ofRole role visited).map Prod.fst).Nodup :=
  h.nodup.sublist ((List.filter_sublist).map _)

theorem get?_ofRole_iff (h : Explored m schema visited) (hm : m.Uniform)
    (hrole : kindOf role = some kind) :
    (SortedMap.ofList (ofRole role visited)).get? i = some r ↔
      i = r.iri ∧ Reaches m schema kind r := by
  rw [SortedMap.get?_ofList_iff (h.nodup_ofRole role), h.mem_ofRole_iff hm hrole]

theorem mem_resources_iff (h : Explored m schema visited) (hm : m.Uniform)
    (hrole : kindOf role = some kind) :
    r ∈ (ofRole role visited).map Prod.snd ↔ Reaches m schema kind r := by
  rw [List.mem_map]
  constructor
  · rintro ⟨⟨i, r⟩, he, rfl⟩
    exact ((h.mem_ofRole_iff hm hrole).mp he).2
  · exact fun hr => ⟨(r.iri, r), (h.mem_ofRole_iff hm hrole).mpr ⟨rfl, hr⟩, rfl⟩

theorem nodup_resources (h : Explored m schema visited) (hm : m.Uniform)
    (role : ConceptualRole) : (((ofRole role visited).map Prod.snd).map Resource.iri).Nodup := by
  have hiri : ((ofRole role visited).map Prod.snd).map Resource.iri =
      (ofRole role visited).map Prod.fst := by
    rw [List.map_map]
    refine List.map_congr_left fun e he => ?_
    exact hm.iri (h.mem.mp (List.mem_of_mem_filter he)).2
  rw [hiri]
  exact h.nodup_ofRole role

end Explored

/-! ## What classes gain -/

/-- The classes are those of before, each with more properties at the end. -/
def Gains (classes classes' : SortedMap Iri ConceptualClass)
    (added : Iri → List ConceptualProperty) : Prop :=
  ∀ k, classes'.get? k =
    (classes.get? k).map fun c => { c with properties := c.properties ++ added k }

section Gains

variable {classes classes' classes'' : SortedMap Iri ConceptualClass}
  {added added' : Iri → List ConceptualProperty}

theorem Gains.refl (classes : SortedMap Iri ConceptualClass) :
    Gains classes classes fun _ => [] := by
  intro k
  simp

theorem Gains.trans (h : Gains classes classes' added) (h' : Gains classes' classes'' added') :
    Gains classes classes'' fun k => added k ++ added' k := by
  intro k
  rw [h' k, h k, Option.map_map]
  simp [Function.comp_def]

theorem Gains.contains (h : Gains classes classes' added) (k : Iri) :
    classes'.contains k = classes.contains k := by
  rw [SortedMap.contains, SortedMap.contains, h k, Option.isSome_map]

theorem Gains.congr (h : Gains classes classes' added) (heq : ∀ k, added k = added' k) :
    Gains classes classes' added' := by
  intro k
  rw [h k, heq k]

/-- A property is added to a class that is there, and to no other one. -/
theorem gains_of_addProperty {p : ConceptualProperty} (h : addProperty i p classes = .ok classes') :
    classes.contains i = true ∧ Gains classes classes' fun k => if i = k then [p] else [] := by
  unfold addProperty at h
  split at h
  · rename_i c hc
    obtain rfl := Except.ok.inj h
    refine ⟨SortedMap.contains_iff.mpr ⟨c, hc⟩, fun k => ?_⟩
    rw [SortedMap.get?_insert]
    by_cases hk : i = k
    · subst hk
      simp [hc]
    · simp [hk, Ne.symm hk]
  · cases h

/-- Steps each of which adds something to classes add all of it, in the order of the steps. -/
theorem exists_gains_of_foldlM {α β : Type}
    {f : SortedMap Iri ConceptualClass → α → Except ModelError (SortedMap Iri ConceptualClass)}
    (source : β → α) {P : β → Prop} (add : β → Iri → List ConceptualProperty)
    {l : List α} (h : l.foldlM f classes = .ok classes')
    (step : ∀ {before after a}, a ∈ l → (∀ k, before.contains k = classes.contains k) →
      f before a = .ok after → ∃ b, source b = a ∧ P b ∧ Gains before after (add b)) :
    ∃ bs : List β, bs.map source = l ∧ (∀ b ∈ bs, P b) ∧
      Gains classes classes' fun k => bs.flatMap (add · k) := by
  induction l generalizing classes with
  | nil =>
    obtain rfl : classes = classes' := Except.ok.inj h
    exact ⟨[], rfl, by simp, .refl classes⟩
  | cons a l ih =>
    obtain ⟨next, ha, hl⟩ := Except.foldlM_cons_eq_ok.mp h
    obtain ⟨b, rfl, hb, hgains⟩ := step List.mem_cons_self (fun _ => rfl) ha
    obtain ⟨bs, rfl, hbs, hrest⟩ := ih hl fun hmem hbefore =>
      step (List.mem_cons_of_mem _ hmem) fun k => (hbefore k).trans (hgains.contains k)
    exact ⟨b :: bs, rfl, List.forall_mem_cons.mpr ⟨hb, hbs⟩, by simpa using hgains.trans hrest⟩

end Gains

/-! ## Attributes -/

/-- Resources in the order of a list of parts : those that are not listed come first, the others
as they are listed first. -/
def FollowsParts (parts : List Iri) (l : List Resource) : Prop :=
  l.Pairwise fun a b => a.iri ∈ parts → b.iri ∈ parts ∧ parts.idxOf a.iri < parts.idxOf b.iri

theorem idxOf_lt_of_filter {f : Iri → Bool} {p q : Iri} (hp : f p = true) (hq : f q = true) :
    ∀ {l : List Iri}, (l.filter f).idxOf p < (l.filter f).idxOf q → l.idxOf p < l.idxOf q
  | [], h => h
  | x :: l, h => by
    have ih := idxOf_lt_of_filter hp hq (l := l)
    rw [List.filter_cons] at h
    grind

/-- Without repetitions, parts are in the order in which they come first. -/
theorem pairwise_eraseDups (parts : List Iri) :
    parts.eraseDups.Pairwise fun p q => parts.idxOf p < parts.idxOf q := by
  induction h : parts.length using Nat.strong_induction_on generalizing parts with
  | _ n ih =>
    cases parts with
    | nil => simp
    | cons x l =>
      rw [List.eraseDups_cons]
      have hlen : (l.filter fun y => !y == x).length < n := by
        have hle := List.length_filter_le (fun y => !y == x) l
        rw [← h, List.length_cons]
        omega
      have hkeep : ∀ {y}, y ∈ (l.filter fun y => !y == x).eraseDups → (!y == x) = true :=
        fun hy => (List.mem_filter.mp (List.mem_eraseDups.mp hy)).2
      have hne : ∀ {y}, (!y == x) = true → x ≠ y := fun hy =>
        (beq_eq_false_iff_ne.mp ((Bool.not_eq_true' _).mp hy)).symm
      refine List.pairwise_cons.mpr ⟨fun y hy => ?_, ?_⟩
      · rw [List.idxOf_cons_self, List.idxOf_cons_ne l (hne (hkeep hy))]
        exact Nat.succ_pos _
      · refine (ih _ hlen _ rfl).imp_of_mem fun {p q} hp hq hpq => ?_
        rw [List.idxOf_cons_ne l (hne (hkeep hp)), List.idxOf_cons_ne l (hne (hkeep hq))]
        exact Nat.succ_lt_succ (idxOf_lt_of_filter (hkeep hp) (hkeep hq) hpq)

section Order

variable {parts : List Iri} {l : List Resource}

theorem mem_listed_iff :
    a ∈ (parts.eraseDups.flatMap fun part => l.filter fun a => a.iri = part) ↔
      a ∈ l ∧ a.iri ∈ parts := by
  simp [List.mem_flatMap, and_comm]

/-- Resources that are listed come in the order of the list. -/
theorem pairwise_listed (hl : (l.map Resource.iri).Nodup) :
    (parts.eraseDups.flatMap fun part => l.filter fun a => a.iri = part).Pairwise
      fun a b => parts.idxOf a.iri < parts.idxOf b.iri := by
  rw [List.pairwise_flatMap]
  constructor
  · -- There is one resource at most for each part.
    intro part _
    refine ((List.pairwise_map.mp hl).filter _).imp_of_mem fun {a b} ha hb hab => ?_
    have ha := of_decide_eq_true (List.mem_filter.mp ha).2
    have hb := of_decide_eq_true (List.mem_filter.mp hb).2
    exact absurd (ha.trans hb.symm) hab
  · refine (pairwise_eraseDups parts).imp fun {p q} hpq a ha b hb => ?_
    have ha := of_decide_eq_true (List.mem_filter.mp ha).2
    have hb := of_decide_eq_true (List.mem_filter.mp hb).2
    rwa [ha, hb]

theorem mem_inPartOrder_iff : a ∈ inPartOrder parts l ↔ a ∈ l := by
  rw [inPartOrder, List.mem_append, mem_listed_iff, List.mem_filter]
  by_cases ha : a.iri ∈ parts <;> simp [ha]

theorem followsParts_inPartOrder (hl : (l.map Resource.iri).Nodup) :
    FollowsParts parts (inPartOrder parts l) := by
  have hunlisted : ∀ {a}, a ∈ (l.filter fun a => !parts.contains a.iri) → a.iri ∉ parts :=
    fun ha => by simpa using (List.mem_filter.mp ha).2
  refine List.pairwise_append.mpr ⟨?_, ?_, fun a ha b _ h => absurd h (hunlisted ha)⟩
  · exact List.pairwise_of_forall_mem_list fun a ha b _ h => absurd h (hunlisted ha)
  · exact (pairwise_listed hl).imp_of_mem fun _ hb hab _ => ⟨(mem_listed_iff.mp hb).2, hab⟩

theorem nodup_inPartOrder (hl : (l.map Resource.iri).Nodup) :
    ((inPartOrder parts l).map Resource.iri).Nodup := by
  refine List.pairwise_map.mpr (List.pairwise_append.mpr ⟨?_, ?_, fun a ha b hb hab => ?_⟩)
  · exact (List.pairwise_map.mp hl).filter _
  · exact (pairwise_listed hl).imp fun {a b} hab h => by
      rw [h] at hab
      exact Nat.lt_irrefl _ hab
  · have ha : a.iri ∉ parts := by simpa using (List.mem_filter.mp ha).2
    exact ha (hab ▸ (mem_listed_iff.mp hb).2)

end Order

/-- The attributes that a class owns, each once and in the order of its parts. -/
structure OwnedBy (m : ResourceMap) (schema : Resource) (k : Iri) (parts : List Iri)
    (l : List Resource) : Prop where
  nodup : (l.map Resource.iri).Nodup
  mem : ∀ {a}, a ∈ l ↔ Reaches m schema .conceptualAttribute a ∧ a.iri? .owner = some k
  order : FollowsParts parts l

section Attributes

variable {resources : ResourceMap} {l : List Resource} {owned : List (Iri × Resource)}
  {classes classes' : SortedMap Iri ConceptualClass}

theorem forall₂_of_withOwners (h : withOwners l = .ok owned) :
    List.Forall₂ (fun a e => a.iri? .owner = some e.1 ∧ e.2 = a) l owned := by
  refine (Except.mapM_eq_ok_iff.mp h).imp fun a e he => ?_
  split at he
  · rename_i owner howner
    obtain rfl := Except.ok.inj he
    exact ⟨howner, rfl⟩
  · cases he

/-- Every attribute has an owner. -/
theorem exists_owner_of_withOwners (h : withOwners l = .ok owned) (ha : a ∈ l) :
    ∃ e ∈ owned, a.iri? .owner = some e.1 := by
  obtain ⟨e, he, hmade⟩ := Except.exists_mem_of_mapM h ha
  split at hmade
  · rename_i owner howner
    obtain rfl := Except.ok.inj hmade
    exact ⟨_, he, howner⟩
  · cases hmade

/-- The attributes listed with an owner are those that name it. -/
theorem filter_of_withOwners (h : withOwners l = .ok owned) (k : Iri) :
    (owned.filter fun e => e.1 = k).map Prod.snd =
      l.filter fun a => a.iri? .owner = some k := by
  have howned := forall₂_of_withOwners h
  clear h
  induction howned with
  | nil => rfl
  | @cons a e l owned he _ ih =>
    obtain ⟨howner, rfl⟩ := he
    by_cases hk : e.1 = k <;> simp [howner, hk, ih]

/-- The attributes of a class as they are added to it. -/
def attributesOf (resources : ResourceMap) (owned : List (Iri × Resource)) (k : Iri) :
    List Resource :=
  match resources.get? k with
  | some r => inPartOrder r.parts ((owned.filter fun e => e.1 = k).map Prod.snd)
  | none => []

/-- A class gains the attributes it owns. -/
theorem gains_of_addAttributes {owner : Iri}
    (h : addAttributes resources owned classes owner = .ok classes') :
    (∃ r, resources.get? owner = some r) ∧ Gains classes classes' fun k =>
      if owner = k then (attributesOf resources owned k).map attributeOf else [] := by
  unfold addAttributes at h
  split at h
  · cases h
  · rename_i r hr
    obtain ⟨as, has, -, hgains⟩ := exists_gains_of_foldlM id (P := fun _ => True)
      (fun a k => if owner = k then [attributeOf a] else []) h
      fun {_ _ a} _ _ ha => ⟨a, rfl, trivial, (gains_of_addProperty ha).2⟩
    rw [List.map_id] at has
    subst has
    refine ⟨⟨r, hr⟩, hgains.congr fun k => ?_⟩
    by_cases hk : owner = k
    · subst hk
      simp [attributesOf, hr, List.map_eq_flatMap]
    · simp [hk]

theorem flatMap_of_nodup {α : Type} {f : Iri → List α} :
    ∀ {ks : List Iri}, ks.Nodup → (k ∉ ks → f k = []) →
      (ks.flatMap fun j => if j = k then f j else []) = f k
  | [], _, h => (h List.not_mem_nil).symm
  | j :: ks, hks, h => by
    obtain ⟨hj, hks⟩ := List.nodup_cons.mp hks
    rw [List.flatMap_cons]
    by_cases hjk : j = k
    · subst hjk
      have hnone : (ks.flatMap fun i => if i = j then f i else []) = [] :=
        List.flatMap_eq_nil_iff.mpr fun i hi => if_neg fun hij : i = j => hj (hij ▸ hi)
      rw [if_pos rfl, hnone, List.append_nil]
    · rw [if_neg hjk, List.nil_append]
      exact flatMap_of_nodup hks fun hk => h fun hmem =>
        (List.mem_cons.mp hmem).elim (fun h => hjk h.symm) hk

/-- All classes gain the attributes that they own. -/
theorem gains_of_owners (h : (SortedSet.ofList (owned.map Prod.fst)).keys.foldlM
      (addAttributes resources owned) classes = .ok classes') :
    (∀ e ∈ owned, ∃ r, resources.get? e.1 = some r) ∧
      Gains classes classes' fun k => (attributesOf resources owned k).map attributeOf := by
  have hkeys : ∀ {k}, k ∈ (SortedSet.ofList (owned.map Prod.fst)).keys ↔ k ∈ owned.map Prod.fst :=
    SortedMap.mem_keys_iff.trans SortedSet.contains_ofList_iff
  obtain ⟨ks, hks, hfound, hgains⟩ := exists_gains_of_foldlM id
    (P := fun j => ∃ r, resources.get? j = some r)
    (fun j k => if j = k then (attributesOf resources owned j).map attributeOf else []) h
    fun {_ _ j} _ _ hj => by
      obtain ⟨hr, hgains⟩ := gains_of_addAttributes hj
      refine ⟨j, rfl, hr, hgains.congr fun k => ?_⟩
      by_cases hk : j = k <;> simp [hk]
  rw [List.map_id] at hks
  subst hks
  refine ⟨fun e he => hfound e.1 (hkeys.mpr (List.mem_map_of_mem he)), hgains.congr fun k => ?_⟩
  refine flatMap_of_nodup (f := fun j => (attributesOf resources owned j).map attributeOf)
    (SortedMap.nodup_keys _) fun hk => ?_
  have hnone : (owned.filter fun e => e.1 = k) = [] := List.filter_eq_nil_iff.mpr fun e he h =>
    hk (hkeys.mpr (of_decide_eq_true h ▸ List.mem_map_of_mem he))
  unfold attributesOf
  split
  · rw [hnone]
    simp [inPartOrder]
  · rfl

/-- The attributes that a class gains are those that it owns. -/
theorem ownedBy_attributesOf {attributes : List Resource}
    (hattributes : ∀ {a}, a ∈ attributes ↔ Reaches m schema .conceptualAttribute a)
    (hnodup : (attributes.map Resource.iri).Nodup) (howned : withOwners attributes = .ok owned)
    (hr : resources.get? k = some r) :
    OwnedBy m schema k r.parts (attributesOf resources owned k) := by
  have hof : attributesOf resources owned k =
      inPartOrder r.parts (attributes.filter fun a => a.iri? .owner = some k) := by
    rw [attributesOf, hr, ← filter_of_withOwners howned]
  have hfilter : ((attributes.filter fun a => a.iri? .owner = some k).map Resource.iri).Nodup :=
    hnodup.sublist (List.filter_sublist.map _)
  rw [hof]
  refine ⟨nodup_inPartOrder hfilter, fun {a} => ?_, followsParts_inPartOrder hfilter⟩
  rw [mem_inPartOrder_iff, List.mem_filter, hattributes, decide_eq_true_eq]

end Attributes

/-! ## Associations -/

/-- An association with its ends and the classes at them. -/
structure Crossing where
  association : Resource
  firstEnd : Resource
  firstClass : Iri
  secondEnd : Resource
  secondClass : Iri

/-- What a class gains from an association : of each end at it, the other end, which leads to
the class there. -/
def Crossing.added (x : Crossing) (k : Iri) : List ConceptualProperty :=
  (if x.firstClass = k then [endOf x.association x.secondEnd x.secondClass] else []) ++
    if x.secondClass = k then [endOf x.association x.firstEnd x.firstClass] else []

/-- What an association adds leads to the classes at its ends. -/
theorem range_of_mem_added {x : Crossing} {q : ConceptualProperty} (h : q ∈ x.added k) :
    q.range = .class_ x.firstClass ∨ q.range = .class_ x.secondClass := by
  rcases List.mem_append.mp h with h | h
  · right
    split at h
    · exact List.mem_singleton.mp h ▸ rfl
    · simp at h
  · left
    split at h
    · exact List.mem_singleton.mp h ▸ rfl
    · simp at h

/-- An association that is reached, with its two ends in order, and the first class in the
range of each. -/
structure Crosses (m : ResourceMap) (schema : Resource) (x : Crossing) : Prop where
  association : Reaches m schema .conceptualAssociation x.association
  parts : x.association.parts = [x.firstEnd.iri, x.secondEnd.iri]
  firstEnd : Reaches m schema .conceptualAssociationEnd x.firstEnd
  firstClass : (x.firstEnd.iriList .range).head? = some x.firstClass
  secondEnd : Reaches m schema .conceptualAssociationEnd x.secondEnd
  secondClass : (x.secondEnd.iriList .range).head? = some x.secondClass

section Associations

variable {ends : ResourceMap} {classes classes' : SortedMap Iri ConceptualClass}

theorem participant_eq_ok_iff : participant ends i = .ok (e, t) ↔
    ends.get? i = some e ∧ (e.iriList .range).head? = some t := by
  unfold participant
  split
  · simp [*]
  · rename_i r hr
    split
    · rename_i target _ hrange
      simp only [Except.ok.injEq, Prod.mk.injEq, hr, Option.some.injEq]
      refine and_congr_right fun h => ?_
      rw [← h, hrange, List.head?_cons, Option.some.injEq]
    · rename_i hrange
      simp only [hr, Option.some.injEq, reduceCtorEq, false_iff, not_and]
      rintro rfl
      simp [hrange]

/-- Each of the classes at the ends of an association gains the other end. -/
theorem exists_crosses_of_addAssociation
    (hends : ∀ {i e}, ends.get? i = some e → i = e.iri ∧
      Reaches m schema .conceptualAssociationEnd e)
    (ha : Reaches m schema .conceptualAssociation a)
    (h : addAssociation ends classes a = .ok classes') :
    ∃ x : Crossing, x.association = a ∧ (Crosses m schema x ∧
      classes.contains x.firstClass = true ∧ classes.contains x.secondClass = true) ∧
        Gains classes classes' x.added := by
  unfold addAssociation at h
  split at h
  · rename_i first second hparts
    obtain ⟨⟨e₁, c₁⟩, h₁, hrest⟩ := Except.bind_eq_ok.mp h
    obtain ⟨⟨e₂, c₂⟩, h₂, hrest⟩ := Except.bind_eq_ok.mp hrest
    obtain ⟨next, hnext, hlast⟩ := Except.bind_eq_ok.mp hrest
    obtain ⟨hget₁, hclass₁⟩ := participant_eq_ok_iff.mp h₁
    obtain ⟨hget₂, hclass₂⟩ := participant_eq_ok_iff.mp h₂
    obtain ⟨rfl, hend₁⟩ := hends hget₁
    obtain ⟨rfl, hend₂⟩ := hends hget₂
    obtain ⟨hhas₁, hgains₁⟩ := gains_of_addProperty hnext
    obtain ⟨hhas₂, hgains₂⟩ := gains_of_addProperty hlast
    exact ⟨⟨a, e₁, c₁, e₂, c₂⟩, rfl,
      ⟨⟨ha, hparts, hend₁, hclass₁, hend₂, hclass₂⟩, hhas₁, hgains₁.contains c₂ ▸ hhas₂⟩,
      hgains₁.trans hgains₂⟩
  · cases h

end Associations

/-! ## Models -/

/-- Whether a model has a class with an identifier. -/
def Has (model : ConceptualModel) (k : Iri) : Prop := ∃ c, model.class? k = some c

theorem strangeParent?_eq_none {classes : ResourceMap} (h : strangeParent? classes = none)
    (hr : classes.get? k = some r) (ht : t ∈ r.iriList .parents) : classes.contains t = true := by
  have hparents := List.findSome?_eq_none_iff.mp h r (SortedMap.mem_values_iff.mpr ⟨k, hr⟩)
  simpa using List.find?_eq_none.mp hparents t ht

/-- What the classes of a model are made of. -/
theorem classesOf_eq_ok {classes : SortedMap Iri ConceptualClass}
    (h : classesOf visited = .ok classes) :
    strangeParent? (.ofList (ofRole .class_ visited)) = none ∧
    ∃ owned owning, withOwners ((ofRole .attribute visited).map Prod.snd) = .ok owned ∧
      (SortedSet.ofList (owned.map Prod.fst)).keys.foldlM
        (addAttributes (.ofList (ofRole .class_ visited)) owned)
        ((SortedMap.ofList (ofRole .class_ visited)).mapValues fun _ r => classOf r) =
          .ok owning ∧
      ((ofRole .association visited).map Prod.snd).foldlM
        (addAssociation (.ofList (ofRole .associationEnd visited))) owning = .ok classes := by
  unfold classesOf at h
  obtain ⟨-, -, h⟩ := Except.bind_eq_ok.mp h
  split at h
  · cases h
  · rename_i hnone
    obtain ⟨-, -, h⟩ := Except.bind_eq_ok.mp h
    obtain ⟨owned, howned, h⟩ := Except.bind_eq_ok.mp h
    obtain ⟨owning, howning, h⟩ := Except.bind_eq_ok.mp h
    exact ⟨Option.eq_none_iff_forall_ne_some.mpr hnone, owned, owning, howned, howning, h⟩

section Visited

variable {owned : List (Iri × Resource)} {owning classes : SortedMap Iri ConceptualClass}

/-- Every attribute that is reached has an owner among the classes, and each class has the
attributes that it owns. -/
theorem Explored.owned_attributes (h : Explored m schema visited) (hm : m.Uniform)
    (howned : withOwners ((ofRole .attribute visited).map Prod.snd) = .ok owned)
    (howning : (SortedSet.ofList (owned.map Prod.fst)).keys.foldlM
      (addAttributes (.ofList (ofRole .class_ visited)) owned)
      ((SortedMap.ofList (ofRole .class_ visited)).mapValues fun _ r => classOf r) =
        .ok owning) :
    (∀ a, Reaches m schema .conceptualAttribute a → ∃ e, a.iri? .owner = some e.iri ∧
      Reaches m schema .conceptualClass e) ∧
    ∀ e, Reaches m schema .conceptualClass e → ∃ attributes,
      OwnedBy m schema e.iri e.parts attributes ∧ owning.get? e.iri =
        some { classOf e with properties := attributes.map attributeOf } := by
  obtain ⟨hfound, hgains⟩ := gains_of_owners howning
  refine ⟨fun a ha => ?_, fun e he => ?_⟩
  · obtain ⟨o, ho, howner⟩ :=
      exists_owner_of_withOwners howned ((h.mem_resources_iff hm rfl).mpr ha)
    obtain ⟨e, he⟩ := hfound o ho
    obtain ⟨heq, he⟩ := (h.get?_ofRole_iff hm rfl).mp he
    exact ⟨e, heq ▸ howner, he⟩
  · have hget : (SortedMap.ofList (ofRole .class_ visited)).get? e.iri = some e :=
      (h.get?_ofRole_iff hm rfl).mpr ⟨rfl, he⟩
    refine ⟨_, ownedBy_attributesOf (h.mem_resources_iff hm rfl) (h.nodup_resources hm _)
      howned hget, ?_⟩
    rw [hgains, SortedMap.get?_mapValues, hget]
    rfl

/-- Every association that is reached is added. -/
theorem Explored.exists_crossings (h : Explored m schema visited) (hm : m.Uniform)
    (hclasses : ((ofRole .association visited).map Prod.snd).foldlM
      (addAssociation (.ofList (ofRole .associationEnd visited))) owning = .ok classes) :
    ∃ crossings : List Crossing, (crossings.map fun x => x.association.iri).Nodup ∧
      (∀ a, Reaches m schema .conceptualAssociation a ↔ ∃ x ∈ crossings, x.association = a) ∧
      (∀ x ∈ crossings, Crosses m schema x ∧ owning.contains x.firstClass = true ∧
        owning.contains x.secondClass = true) ∧
      Gains owning classes fun k => crossings.flatMap (·.added k) := by
  obtain ⟨crossings, hsource, hcrosses, hgains⟩ := exists_gains_of_foldlM
    Crossing.association (P := fun x => Crosses m schema x ∧
      owning.contains x.firstClass = true ∧ owning.contains x.secondClass = true)
    Crossing.added hclasses fun {before after a} ha hbefore hadd => by
      have hends : ∀ {i e}, (SortedMap.ofList (ofRole .associationEnd visited)).get? i = some e →
          i = e.iri ∧ Reaches m schema .conceptualAssociationEnd e :=
        fun he => (h.get?_ofRole_iff hm rfl).mp he
      obtain ⟨x, hsource, hx, hgains⟩ := exists_crosses_of_addAssociation hends
        ((h.mem_resources_iff hm rfl).mp ha) hadd
      rw [hbefore, hbefore] at hx
      exact ⟨x, hsource, hx, hgains⟩
  refine ⟨crossings, ?_, fun a => ?_, hcrosses, hgains⟩
  · have hnodup := h.nodup_resources hm .association
    rwa [← hsource, List.map_map] at hnodup
  · have hmem : a ∈ (ofRole .association visited).map Prod.snd ↔
        Reaches m schema .conceptualAssociation a := h.mem_resources_iff hm rfl
    rw [← hmem, ← hsource, List.mem_map]

end Visited

/-- A model of what is reached from a schema, with every property in its place. -/
structure Placed (m : ResourceMap) (schema : Resource) (crossings : List Crossing)
    (model : ConceptualModel) : Prop where
  /-- The classes are those that are reached. -/
  classes : ∀ k, model.Has k ↔ ∃ e, e.iri = k ∧ Reaches m schema .conceptualClass e
  /-- They extend classes only, -/
  parents : ∀ {k c}, model.class? k = some c → ∀ p ∈ c.parents, model.Has p
  /-- and their properties lead to classes only. -/
  ranges : ∀ {k c}, model.class? k = some c →
    ∀ q ∈ c.properties, ∀ t, q.range = .class_ t → model.Has t
  /-- Every attribute that is reached is owned by a class. -/
  owners : ∀ a, Reaches m schema .conceptualAttribute a →
    ∃ k, a.iri? .owner = some k ∧ model.Has k
  /-- The crossings are those of the associations that are reached, each once, -/
  associations : ∀ a, Reaches m schema .conceptualAssociation a ↔
    ∃ x ∈ crossings, x.association = a
  once : (crossings.map fun x => x.association.iri).Nodup
  /-- and go from class to class. -/
  crosses : ∀ x ∈ crossings, Crosses m schema x ∧
    model.Has x.firstClass ∧ model.Has x.secondClass
  /-- A class has the attributes that it owns, in the order of its parts, then what the crossings
  add to it, and nothing else. -/
  properties : ∀ {k c}, model.class? k = some c → ∃ e attributes, m.get? k = some e ∧
    OwnedBy m schema k e.parts attributes ∧
    c = { classOf e with
      properties := attributes.map attributeOf ++ crossings.flatMap (·.added k) }

/-- The identifiers and the ranges of the properties that a crossing adds to a class : at either
class, the end at the other one leads to that other class. -/
def Crossing.leadsOn (x : Crossing) (k : Iri) : List (Iri × ConceptualRange) :=
  (if x.firstClass = k then [(x.secondEnd.iri, .class_ x.secondClass)] else []) ++
    if x.secondClass = k then [(x.firstEnd.iri, .class_ x.firstClass)] else []

theorem map_added (x : Crossing) (k : Iri) :
    (x.added k).map (fun q => (q.iri, q.range)) = x.leadsOn k := by
  rw [Crossing.added, Crossing.leadsOn, List.map_append]
  by_cases hfirst : x.firstClass = k <;> by_cases hsecond : x.secondClass = k <;>
    simp [hfirst, hsecond, endOf]

/-- Attributes keep their identifiers and lead to their datatypes, and ends of associations keep
theirs and lead to the class at the other end. -/
theorem Placed.iris_and_ranges {crossings : List Crossing} {model : ConceptualModel} {k : Iri}
    {c : ConceptualClass} (h : Placed m schema crossings model) (hc : model.class? k = some c) :
    ∃ e attributes, m.get? k = some e ∧ OwnedBy m schema k e.parts attributes ∧
      c.iri = e.iri ∧ c.properties.map (fun q => (q.iri, q.range)) =
        attributes.map (fun a => (a.iri, .datatype (a.iri? .datatype))) ++
          crossings.flatMap (·.leadsOn k) := by
  obtain ⟨e, attributes, he, howned, rfl⟩ := h.properties hc
  refine ⟨e, attributes, he, howned, rfl, ?_⟩
  rw [List.map_append, List.map_map, List.map_flatMap]
  simp only [map_added]
  rfl

/-- In a model that is built of a schema, all that is reached from the schema has its place. -/
theorem build_places_properties (hm : m.Uniform) {model : ConceptualModel}
    (h : build m i = .ok model) :
    ∃ schema crossings, m.get? i = some schema ∧ Placed m schema crossings model := by
  unfold build at h
  obtain ⟨schema, hschema, h⟩ := Except.bind_eq_ok.mp h
  obtain ⟨-, -, h⟩ := Except.bind_eq_ok.mp h
  obtain ⟨visited, hvisited, h⟩ := Except.bind_eq_ok.mp h
  obtain ⟨classes, hclasses, h⟩ := Except.bind_eq_ok.mp h
  obtain rfl := Except.ok.inj h
  have hv := explored_of_explore hm hvisited
  obtain ⟨hstrange, owned, owning, howned, howning, hadded⟩ := classesOf_eq_ok hclasses
  obtain ⟨howner, hattributes⟩ := hv.owned_attributes hm howned howning
  obtain ⟨crossings, hnodup, hassociations, hcrosses, hgains⟩ := hv.exists_crossings hm hadded
  -- The classes are there from the beginning; they only gain properties.
  have hresources : ∀ {k}, classes.contains k = true ↔
      ∃ e, e.iri = k ∧ Reaches m schema .conceptualClass e := by
    intro k
    rw [hgains.contains, (gains_of_owners howning).2.contains, SortedMap.contains_mapValues,
      SortedMap.contains_iff]
    exact exists_congr fun e => (hv.get?_ofRole_iff hm rfl).trans (and_congr_left' eq_comm)
  have hhas : ∀ {k}, (∃ c, classes.get? k = some c) ↔
      ∃ e, e.iri = k ∧ Reaches m schema .conceptualClass e :=
    SortedMap.contains_iff.symm.trans hresources
  have hclass : ∀ {k c}, classes.get? k = some c → ∃ e attributes, (e.iri = k ∧
      Reaches m schema .conceptualClass e) ∧ OwnedBy m schema k e.parts attributes ∧
        c = { classOf e with
          properties := attributes.map attributeOf ++ crossings.flatMap (·.added k) } := by
    intro k c hc
    obtain ⟨e, rfl, he⟩ := hhas.mp ⟨c, hc⟩
    obtain ⟨attributes, hof, hget⟩ := hattributes e he
    rw [hgains, hget] at hc
    exact ⟨e, attributes, ⟨rfl, he⟩, hof, (Option.some.inj hc).symm⟩
  have hends : ∀ x ∈ crossings, Crosses m schema x ∧
      (∃ c, classes.get? x.firstClass = some c) ∧ ∃ c, classes.get? x.secondClass = some c := by
    intro x hx
    obtain ⟨hcross, hfirst, hsecond⟩ := hcrosses x hx
    rw [← hgains.contains, SortedMap.contains_iff] at hfirst hsecond
    exact ⟨hcross, hfirst, hsecond⟩
  refine ⟨schema, crossings, ResourceMap.require_eq_ok.mp hschema, fun k => hhas, ?_, ?_, ?_,
    hassociations, hnodup, hends, ?_⟩
  · intro k c hc p hp
    obtain ⟨e, attributes, ⟨rfl, he⟩, -, rfl⟩ := hclass hc
    have hp := strangeParent?_eq_none hstrange ((hv.get?_ofRole_iff hm rfl).mpr ⟨rfl, he⟩) hp
    obtain ⟨r, hr⟩ := SortedMap.contains_iff.mp hp
    obtain ⟨hp, hr⟩ := (hv.get?_ofRole_iff hm rfl).mp hr
    exact hhas.mpr ⟨r, hp.symm, hr⟩
  · intro k c hc q hq t ht
    obtain ⟨e, attributes, -, -, rfl⟩ := hclass hc
    rcases List.mem_append.mp hq with hq | hq
    · obtain ⟨a, -, rfl⟩ := List.mem_map.mp hq
      cases ht
    · obtain ⟨x, hx, hq⟩ := List.mem_flatMap.mp hq
      obtain ⟨-, hfirst, hsecond⟩ := hends x hx
      rcases range_of_mem_added hq with hr | hr
      · obtain rfl := ConceptualRange.class_.inj (hr.symm.trans ht)
        exact hfirst
      · obtain rfl := ConceptualRange.class_.inj (hr.symm.trans ht)
        exact hsecond
  · intro a ha
    obtain ⟨e, howns, he⟩ := howner a ha
    exact ⟨e.iri, howns, hhas.mpr ⟨e, rfl, he⟩⟩
  · intro k c hc
    obtain ⟨e, attributes, ⟨rfl, he⟩, hof, rfl⟩ := hclass hc
    exact ⟨e, attributes, he.found, hof, rfl⟩

/-- Persons, who have a name and an age and live in places; the age is not among the parts of
a person, and places are met at the end of an association only. -/
def people : List Resource := [
  (Resource.new "person" .conceptualClass).set .parts (.iriList ["name"]),
  (Resource.new "name" .conceptualAttribute).set .owner (.iri "person"),
  (Resource.new "age" .conceptualAttribute).set .owner (.iri "person"),
  (Resource.new "lives" .conceptualAssociation).set .parts (.iriList ["resident", "residence"]),
  (Resource.new "resident" .conceptualAssociationEnd).set .range (.iriList ["person"]),
  (Resource.new "residence" .conceptualAssociationEnd).set .range (.iriList ["place"]),
  Resource.new "place" .conceptualClass]

/-- The schema of people. -/
def peopleResources : ResourceMap :=
  .ofResources ((Resource.new "schema" .conceptualSchema).set .parts
    (.iriList ["person", "name", "age", "lives"]) :: people)

/-- A property of which there is nothing to say but where it leads. -/
def bareProperty (iri : Iri) (range : ConceptualRange) : ConceptualProperty :=
  ⟨iri, none, .empty, .empty, none, range⟩

/-- A class of which there is nothing to say but its properties. -/
def bareClass (iri : Iri) (properties : List ConceptualProperty) : ConceptualClass :=
  ⟨iri, none, .empty, .empty, false, [], properties⟩

/-- Persons and places, each with the end of the association at the other one. -/
def peopleModel : ConceptualModel where
  iri := some "schema"
  label := .empty
  description := .empty
  classes := .ofList [
    ("person", bareClass "person" [bareProperty "age" (.datatype none),
      bareProperty "name" (.datatype none), bareProperty "residence" (.class_ "place")]),
    ("place", bareClass "place" [bareProperty "resident" (.class_ "person")])]

/-- People are visited in the order in which they are listed. -/
theorem explore_peopleResources : peopleResources.explore Except.ok Resource.conceptualLinks
    ["person", "name", "age", "lives"] = .ok (people.map fun r => (r.iri, r)) := by
  have hkeys : peopleResources.keys = ["age", "lives", "name", "person", "place", "residence",
      "resident", "schema"] := by decide
  rw [ResourceMap.explore, hkeys]
  -- The owner of the attributes was visited, and so was the class at the first end.
  iterate 4 refine StructuralModel.explore_cons_of_mem (by decide) rfl ?_
  iterate 2 refine (StructuralModel.explore_cons_of_not_mem (by decide) rfl).trans ?_
  iterate 2 refine StructuralModel.explore_cons_of_mem (by decide) rfl ?_
  refine (StructuralModel.explore_cons_of_not_mem (by decide) rfl).trans ?_
  exact StructuralModel.explore_cons_of_mem (by decide) rfl StructuralModel.explore_nil

theorem build_peopleResources : build peopleResources "schema" = .ok peopleModel := by
  have hacyclic : (ExtensionGraph.ofParents [("person", []), ("place", [])]).checkAcyclic =
      .ok () := ExtensionGraph.checkAcyclic_of_no_parents (by simp)
  have hclasses : classesOf (people.map fun r => (r.iri, r)) = .ok peopleModel.classes :=
    Except.bind_eq_ok.mpr ⟨(), hacyclic, rfl⟩
  unfold build
  exact Except.bind_eq_ok.mpr ⟨_, rfl, Except.bind_eq_ok.mpr ⟨(), rfl,
    Except.bind_eq_ok.mpr ⟨_, explore_peopleResources,
      Except.bind_eq_ok.mpr ⟨_, hclasses, rfl⟩⟩⟩⟩

/-- What is reached from people has its place at persons and at places : the attributes of a
person come first, and then the end of the association at the place, which leads there. -/
theorem placed_peopleResources : peopleResources.Uniform ∧
    build peopleResources "schema" = .ok peopleModel ∧
    ∃ schema crossings, peopleResources.get? "schema" = some schema ∧
      Placed peopleResources schema crossings peopleModel ∧
      ∃ (e : Resource) (attributes : List Resource),
        OwnedBy peopleResources schema "person" e.parts attributes ∧
        attributes.map (fun a => (a.iri, .datatype (a.iri? .datatype))) ++
            crossings.flatMap (·.leadsOn "person") =
          [("age", .datatype none), ("name", .datatype none), ("residence", .class_ "place")] := by
  have hm : peopleResources.Uniform := ResourceMap.uniform_iff.mpr (by decide)
  obtain ⟨schema, crossings, hschema, hplaced⟩ := build_places_properties hm build_peopleResources
  have hperson : peopleModel.class? "person" = some (bareClass "person"
    [bareProperty "age" (.datatype none), bareProperty "name" (.datatype none),
      bareProperty "residence" (.class_ "place")]) := rfl
  obtain ⟨e, attributes, -, howned, -, hproperties⟩ := hplaced.iris_and_ranges hperson
  exact ⟨hm, build_peopleResources, schema, crossings, hschema, hplaced, e, attributes, howned,
    hproperties.symm⟩

end DataSpec.ConceptualModel
