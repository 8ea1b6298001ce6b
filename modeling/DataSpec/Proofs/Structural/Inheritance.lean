import DataSpec.Proofs.Graph.Cycles
import DataSpec.Proofs.Structural.Settled

/-!
# All properties of a class

Where no class extends itself, inheritance has a recursive definition : all properties of a class
(`Hierarchical.properties`) are those of its parents, in the order of the parents, and behind them
its own, but for those that it inherits. `flatten` copies properties into the classes of the model
one by one instead. Along an order of visits, in which every class comes after its parents
(`Visits`), each copy makes a class complete (`Hierarchical.inheritInto_cases`), so the model
that was visited up to some class is known (`Hierarchical.fullAt`).

So flattening gives what the recursive definition says, unless a class inherits a property twice
(`flatten_eq_flattened`). This also shows what does not matter : in which order classes are visited,
and which identifiers they have (`rename`).
-/

set_option autoImplicit false
set_option linter.unusedSectionVars false

namespace DataSpec.StructuralModel

variable {m m' : StructuralModel} {k p : Iri} {c : StructuralClass} {done order : List Iri}

/-! ## Classes and their parents -/

/-- A model in which all that classes extend is there, and no class extends itself, directly or
through others. -/
structure Hierarchical (m : StructuralModel) : Prop where
  parents : ∀ {k c}, m.class? k = some c → ∀ p ∈ c.parents, m.Has p
  acyclic : ∀ k, ¬ Relation.TransGen (ExtensionGraph.Extends m.extension) k k

theorem extends_iff :
    ExtensionGraph.Extends m.extension k p ↔ ∃ c, m.class? k = some c ∧ p ∈ c.parents := by
  constructor
  · rintro ⟨e, he, rfl, hp⟩
    obtain ⟨⟨k, c⟩, hk, rfl⟩ := List.mem_map.mp he
    exact ⟨c, SortedMap.mem_toList_iff.mp hk, hp⟩
  · rintro ⟨c, hc, hp⟩
    exact ⟨_, List.mem_map_of_mem (SortedMap.mem_toList_iff.mpr hc), rfl, hp⟩

/-- An order of visits : every class once, after the classes that it extends. -/
structure Visits (m : StructuralModel) (order : List Iri) : Prop where
  nodup : order.Nodup
  all : ∀ k, m.Has k → k ∈ order
  before : ∀ done k rest, order = done ++ k :: rest →
    ∀ c, m.class? k = some c → ∀ p ∈ c.parents, p ∈ done

/-- Flattening visits the classes in such an order. -/
theorem visits_of_parentsFirst
    (h : (ExtensionGraph.ofParents m.extension).parentsFirst = .ok order) : m.Visits order where
  nodup := List.nodup_reverse.mp (Digraph.nodup_of_order_eq_ok
    (ExtensionGraph.proper_ofParents _) (ExtensionGraph.parentsFirst_eq_ok_iff.mp h))
  all k hk := (ExtensionGraph.mem_of_parentsFirst h).mpr (mem_nodes_extension hk)
  before := by
    rintro done k rest rfl c hc p hp
    exact ExtensionGraph.mem_before_of_parentsFirst h (extends_iff.mpr ⟨c, hc, hp⟩)

/-- A model is determined by its classes and by all that is not its classes. -/
theorem with_classes_congr {classes classes' : SortedMap Iri StructuralClass}
    (h : ∀ k, classes.get? k = classes'.get? k) :
    { m with classes := classes } = { m with classes := classes' } := by
  rw [SortedMap.ext_get? h]

namespace Hierarchical

/-! ## The recursive definition -/

/-- Less is reached from a parent than from the class. -/
theorem reach_lt (h : m.Hierarchical) (hk : m.class? k = some c) (hp : p ∈ c.parents) :
    (ExtensionGraph.ofParents m.extension).reach p <
      (ExtensionGraph.ofParents m.extension).reach k := by
  refine Digraph.reach_lt (ExtensionGraph.proper_ofParents _) (fun n hn => ?_) ?_
  · rw [ExtensionGraph.leads_ofParents] at hn
    exact h.acyclic n hn
  · rw [ExtensionGraph.leads_ofParents]
    exact extends_iff.mpr ⟨c, hk, hp⟩

/-- All properties of a class : those of its parents, in the order of the parents, and behind
them its own, but for those that it inherits. -/
def properties (h : m.Hierarchical) (k : Iri) : List StructuralProperty :=
  match _hk : m.class? k with
  | none => []
  | some c => withInherited (c.parents.attach.flatMap fun p => h.properties p.1) c.properties
termination_by (ExtensionGraph.ofParents m.extension).reach k
decreasing_by exact h.reach_lt _hk p.2

/-- The properties of the parents of a class. -/
def inherited (h : m.Hierarchical) (c : StructuralClass) : List StructuralProperty :=
  c.parents.flatMap h.properties

theorem properties_eq (h : m.Hierarchical) (hk : m.class? k = some c) :
    h.properties k = withInherited (h.inherited c) c.properties := by
  rw [properties]
  split
  · rename_i hn
    cases hk.symm.trans hn
  · rename_i c' hc
    obtain rfl := Option.some.inj (hk.symm.trans hc)
    rw [inherited, List.flatMap_subtype, List.unattach_attach]
    intro x hx
    rfl

/-- To prove something of the classes of a model, prove it of a class whose parents have it. -/
theorem induction (h : m.Hierarchical) {motive : Iri → Prop}
    (step : ∀ k c, m.class? k = some c → (∀ p ∈ c.parents, motive p) → motive k)
    {k : Iri} (hk : m.Has k) : motive k := by
  induction hn : (ExtensionGraph.ofParents m.extension).reach k using Nat.strong_induction_on
    generalizing k with
  | _ n ih =>
    obtain ⟨c, hc⟩ := has_iff.mp hk
    exact step k c hc fun p hp => ih _ (hn ▸ h.reach_lt hc hp) (h.parents hc p hp) rfl

/-- Whether the properties that a class inherits are different ones. -/
def Apart (h : m.Hierarchical) (c : StructuralClass) : Prop :=
  ((h.inherited c).map StructuralProperty.iri).Nodup

theorem apart_of_no_parents (h : m.Hierarchical) (hp : c.parents = []) : h.Apart c := by
  rw [Apart, inherited, hp]
  exact List.nodup_nil

/-! ## One copy after the other -/

/-- A class with all its properties, which extends none any more. -/
def full (h : m.Hierarchical) (k : Iri) (c : StructuralClass) : StructuralClass :=
  { c with
    properties := h.properties k
    parents := []
    inheritsFrom := if c.parents = [] then c.inheritsFrom else c.parents }

/-- The model in which some classes have all their properties. -/
def fullAt (h : m.Hierarchical) (done : List Iri) : StructuralModel :=
  { m with classes := m.classes.mapValues fun k c => if k ∈ done then h.full k c else c }

theorem class?_fullAt (h : m.Hierarchical) (done : List Iri) (k : Iri) :
    (h.fullAt done).class? k =
      (m.class? k).map fun c => if k ∈ done then h.full k c else c :=
  SortedMap.get?_mapValues ..

theorem fullAt_nil (h : m.Hierarchical) : h.fullAt [] = m := by
  have hsame : m.classes.mapValues (fun k c => if k ∈ ([] : List Iri) then h.full k c else c) =
      m.classes := SortedMap.mapValues_eq_self fun _ _ _ => if_neg List.not_mem_nil
  rw [fullAt, hsame]

/-- Of a class without parents nothing changes. -/
theorem full_of_no_parents (h : m.Hierarchical) (hk : m.class? k = some c) (hp : c.parents = []) :
    h.full k c = c := by
  have hproperties : h.properties k = c.properties := by
    rw [h.properties_eq hk, inherited, hp]
    simp [withInherited]
  rw [full, hproperties, if_pos hp, ← hp]

/-- What the parents of a class have, once inheritance has come to all of them. -/
theorem mapM_requireClass_fullAt (h : m.Hierarchical) (hk : m.class? k = some c)
    (hdone : ∀ p ∈ c.parents, p ∈ done) :
    ∃ parents, c.parents.mapM (h.fullAt done).requireClass = .ok parents ∧
      parents.flatMap StructuralClass.properties = h.inherited c := by
  have hall : ∀ {l : List Iri}, (∀ p ∈ l, p ∈ done ∧ m.Has p) →
      ∃ parents, l.mapM (h.fullAt done).requireClass = .ok parents ∧
        parents.flatMap StructuralClass.properties = l.flatMap h.properties := by
    intro l hl
    induction l with
    | nil => exact ⟨[], rfl, rfl⟩
    | cons p l ih =>
      obtain ⟨⟨hp, hhas⟩, hl⟩ := List.forall_mem_cons.mp hl
      obtain ⟨d, hd⟩ := has_iff.mp hhas
      obtain ⟨parents, hparents, heq⟩ := ih hl
      have hfull : (h.fullAt done).requireClass p = .ok (h.full p d) := by
        rw [requireClass, h.class?_fullAt, hd, Option.map_some, if_pos hp]
      refine ⟨h.full p d :: parents, Except.mapM_cons_eq_ok.mpr ⟨_, _, hfull, hparents, rfl⟩, ?_⟩
      rw [List.flatMap_cons, List.flatMap_cons, heq]
      rfl
  exact hall fun p hp => ⟨hdone p hp, h.parents hk p hp⟩

/-- One more class gets its properties. -/
theorem fullAt_append (h : m.Hierarchical) (hk : m.class? k = some c) :
    (h.fullAt done).withClass k (h.full k c) = h.fullAt (done ++ [k]) := by
  refine with_classes_congr fun i => ?_
  rw [SortedMap.get?_insert, SortedMap.get?_mapValues, fullAt, SortedMap.get?_mapValues]
  by_cases hi : i = k
  · subst hi
    have hk : m.classes.get? i = some c := hk
    simp [hk]
  · simp [hi]

/-- Inheritance into a class of which nothing changes is inheritance into none. -/
theorem fullAt_append_of_same (h : m.Hierarchical)
    (hsame : ∀ c, m.class? k = some c → h.full k c = c) :
    h.fullAt (done ++ [k]) = h.fullAt done := by
  refine with_classes_congr fun i => ?_
  rw [SortedMap.get?_mapValues, SortedMap.get?_mapValues]
  refine Option.map_congr fun c hc => ?_
  by_cases hi : i = k
  · subst hi
    simp [hsame c hc]
  · simp [hi]

/-- Inheritance into a class after its parents gives it all its properties, or fails on one
that it would have twice. -/
theorem inheritInto_cases (h : m.Hierarchical) (hnot : k ∉ done)
    (hdone : ∀ c, m.class? k = some c → ∀ p ∈ c.parents, p ∈ done) :
    (∀ c, m.class? k = some c → h.Apart c) ∧
        (h.fullAt done).inheritInto k = .ok (h.fullAt (done ++ [k])) ∨
      ∃ c p, m.class? k = some c ∧
        List.Duplicate p ((h.inherited c).map StructuralProperty.iri) ∧
        (h.fullAt done).inheritInto k = .error (.inheritedTwice k p) := by
  have hclass : (h.fullAt done).class? k = m.class? k := by
    rw [class?_fullAt]
    simp [hnot]
  by_cases hp : ∀ c, m.class? k = some c → c.parents = []
  · refine Or.inl ⟨fun c hc => h.apart_of_no_parents (hp c hc), ?_⟩
    rw [h.fullAt_append_of_same fun c hc => h.full_of_no_parents hc (hp c hc)]
    exact inheritInto_of_no_parents (by rwa [hclass])
  · push Not at hp
    obtain ⟨c, hc, hp⟩ := hp
    obtain ⟨parents, hparents, hinherited⟩ := h.mapM_requireClass_fullAt hc (hdone c hc)
    have hinto := inheritInto_of_parents (hclass.trans hc) (by simpa using hp)
    rw [hparents, Except.bind, hinherited] at hinto
    cases hrepeated : repeated? [] (h.inherited c) with
    | some p =>
      refine Or.inr ⟨c, p, hc, ?_, by rw [hinto, hrepeated]⟩
      exact (duplicate_of_repeated? hrepeated).resolve_left fun hseen => List.not_mem_nil hseen.2
    | none =>
      have hheir : heir c (h.inherited c) = h.full k c := by
        rw [heir, full, h.properties_eq hc, if_neg hp]
      refine Or.inl ⟨fun c' hc' => ?_, ?_⟩
      · obtain rfl := Option.some.inj (hc.symm.trans hc')
        exact (nodup_of_repeated?_eq_none hrepeated).1
      · rw [hinto, hrepeated, hheir, h.fullAt_append hc]

/-- Inheritance into classes one after the other, each after its parents. -/
theorem inheritAll_cases (h : m.Hierarchical) :
    ∀ (rest done : List Iri), m.Visits (done ++ rest) →
      (∀ k ∈ rest, ∀ c, m.class? k = some c → h.Apart c) ∧
          rest.foldlM StructuralModel.inheritInto (h.fullAt done) =
            .ok (h.fullAt (done ++ rest)) ∨
        ∃ k c p, m.class? k = some c ∧
          List.Duplicate p ((h.inherited c).map StructuralProperty.iri) ∧
          rest.foldlM StructuralModel.inheritInto (h.fullAt done) =
            .error (.inheritedTwice k p)
  | [], done, _ => Or.inl ⟨nofun, by rw [List.append_nil]; rfl⟩
  | k :: rest, done, hv => by
    have hnot : k ∉ done := fun hk =>
      List.disjoint_of_nodup_append hv.nodup hk List.mem_cons_self
    have hsplit : done ++ k :: rest = (done ++ [k]) ++ rest := by simp
    rw [List.foldlM_cons]
    rcases h.inheritInto_cases hnot (hv.before done k rest rfl) with
      ⟨hapart, hok⟩ | ⟨c, p, hc, hp, he⟩
    · rw [hok]
      rcases h.inheritAll_cases rest (done ++ [k]) (hsplit ▸ hv) with ⟨hrest, hok⟩ | herror
      · refine Or.inl ⟨List.forall_mem_cons.mpr ⟨hapart, hrest⟩, ?_⟩
        rw [hsplit]
        exact hok
      · exact Or.inr herror
    · rw [he]
      exact Or.inr ⟨k, c, p, hc, hp, rfl⟩

/-- The model in which all classes have all their properties. -/
def flattened (h : m.Hierarchical) : StructuralModel :=
  { m with classes := m.classes.mapValues h.full }

theorem fullAt_of_all (h : m.Hierarchical) (hall : ∀ k, m.Has k → k ∈ order) :
    h.fullAt order = h.flattened := by
  refine with_classes_congr fun k => ?_
  rw [SortedMap.get?_mapValues, SortedMap.get?_mapValues]
  exact Option.map_congr fun c hc => if_pos (hall k (has_iff.mpr ⟨c, hc⟩))

/-- What inheritance may come to : that all classes have all their properties, if none inherits
one twice, or else a failure on a class that does. -/
inductive Yields (h : m.Hierarchical) : Except ModelError StructuralModel → Prop
  | ok : (∀ k c, m.class? k = some c → h.Apart c) → Yields h (.ok h.flattened)
  | error {k p : Iri} {c : StructuralClass} : m.class? k = some c →
    List.Duplicate p ((h.inherited c).map StructuralProperty.iri) →
    Yields h (.error (.inheritedTwice k p))

/-- In whatever order inheritance comes to the classes, it comes to the same. -/
theorem yields_of_visits (h : m.Hierarchical) (hv : m.Visits order) :
    h.Yields (order.foldlM StructuralModel.inheritInto m) := by
  have hcases := h.inheritAll_cases order [] hv
  rw [h.fullAt_nil, List.nil_append, h.fullAt_of_all hv.all] at hcases
  rcases hcases with ⟨hapart, hok⟩ | ⟨k, c, p, hc, hp, he⟩
  · rw [hok]
    exact .ok fun k c hc => hapart k (hv.all k (has_iff.mpr ⟨c, hc⟩)) c hc
  · rw [he]
    exact .error hc hp

theorem yields_flatten (h : m.Hierarchical) : h.Yields m.flatten := by
  obtain ⟨order, horder, -⟩ := ExtensionGraph.exists_parentsFirst_eq_ok
    (ExtensionGraph.checkAcyclic_ofParents_iff.mpr h.acyclic)
  rw [flatten_of_parentsFirst (fun hk => h.parents hk) horder]
  exact h.yields_of_visits (visits_of_parentsFirst horder)

namespace Yields

variable {h : m.Hierarchical} {x y : Except ModelError StructuralModel}

/-- A class that has a property twice stands in the way. -/
theorem not_apart (hc : m.class? k = some c)
    (hp : List.Duplicate p ((h.inherited c).map StructuralProperty.iri)) :
    ¬ ∀ k c, m.class? k = some c → h.Apart c :=
  fun hapart => hp.not_nodup (hapart k c hc)

theorem exists_eq_ok_iff (hx : h.Yields x) :
    (∃ m', x = .ok m') ↔ ∀ k c, m.class? k = some c → h.Apart c := by
  cases hx with
  | ok hapart => exact iff_of_true ⟨_, rfl⟩ hapart
  | error hc hp => exact iff_of_false nofun (not_apart hc hp)

theorem toOption_eq (hx : h.Yields x) (hy : h.Yields y) : x.toOption = y.toOption := by
  cases hx with
  | ok hapart =>
    cases hy with
    | ok => rfl
    | error hc hp => exact absurd hapart (not_apart hc hp)
  | error hc hp =>
    cases hy with
    | ok hapart => exact absurd hapart (not_apart hc hp)
    | error => rfl

end Yields

end Hierarchical

/-! ## Other identifiers -/

end DataSpec.StructuralModel

namespace DataSpec

/-- A type that leads to a class under another identifier. -/
def PropertyType.rename (ρ : Iri → Iri) : PropertyType → PropertyType
  | .datatype iri => .datatype iri
  | .class_ iri => .class_ (ρ iri)

/-- A property that leads to classes under other identifiers. -/
def StructuralProperty.rename (ρ : Iri → Iri) (p : StructuralProperty) : StructuralProperty :=
  { p with types := p.types.map (PropertyType.rename ρ) }

/-- A class under another identifier, with other identifiers of all classes that it names. -/
def StructuralClass.rename (ρ : Iri → Iri) (c : StructuralClass) : StructuralClass :=
  { c with
    iri := ρ c.iri
    parents := c.parents.map ρ
    inheritsFrom := c.inheritsFrom.map ρ
    properties := c.properties.map (StructuralProperty.rename ρ) }

namespace StructuralModel

/-- A model with other identifiers of its classes. -/
def rename (ρ : Iri → Iri) (m : StructuralModel) : StructuralModel :=
  { m with
    roots := m.roots.map ρ
    classes := .ofList (m.classes.toList.map fun e => (ρ e.1, e.2.rename ρ)) }

variable {m m' : StructuralModel} {k p : Iri} {c : StructuralClass} {ρ : Iri → Iri}

theorem class?_rename (hρ : ρ.Injective) {k' : Iri} {c' : StructuralClass} :
    (m.rename ρ).class? k' = some c' ↔
      ∃ k c, m.class? k = some c ∧ ρ k = k' ∧ c.rename ρ = c' := by
  have hnodup : ((m.classes.toList.map fun e => (ρ e.1, e.2.rename ρ)).map Prod.fst).Nodup := by
    rw [List.map_map]
    have hkeys := m.classes.nodup_keys.map hρ
    rwa [SortedMap.keys, List.map_map] at hkeys
  rw [class?, rename, SortedMap.get?_ofList_iff hnodup, List.mem_map]
  constructor
  · rintro ⟨⟨k, c⟩, hk, heq⟩
    exact ⟨k, c, SortedMap.mem_toList_iff.mp hk, congrArg Prod.fst heq, congrArg Prod.snd heq⟩
  · rintro ⟨k, c, hk, rfl, rfl⟩
    exact ⟨(k, c), SortedMap.mem_toList_iff.mpr hk, rfl⟩

theorem class?_rename_apply (hρ : ρ.Injective) (hk : m.class? k = some c) :
    (m.rename ρ).class? (ρ k) = some (c.rename ρ) :=
  (class?_rename hρ).mpr ⟨k, c, hk, rfl, rfl⟩

/-- Classes extend each other under other identifiers as they did. -/
theorem transGen_extends_rename (hρ : ρ.Injective) {k' p' : Iri}
    (h : Relation.TransGen (ExtensionGraph.Extends (m.rename ρ).extension) k' p') :
    ∃ k p, ρ k = k' ∧ ρ p = p' ∧ Relation.TransGen (ExtensionGraph.Extends m.extension) k p := by
  have hstep : ∀ {k' p' : Iri}, ExtensionGraph.Extends (m.rename ρ).extension k' p' →
      ∃ k p, ρ k = k' ∧ ρ p = p' ∧ ExtensionGraph.Extends m.extension k p := by
    intro k' p' h
    obtain ⟨c', hc', hp'⟩ := extends_iff.mp h
    obtain ⟨k, c, hc, rfl, rfl⟩ := (class?_rename hρ).mp hc'
    obtain ⟨p, hp, rfl⟩ := List.mem_map.mp hp'
    exact ⟨k, p, rfl, rfl, extends_iff.mpr ⟨c, hc, hp⟩⟩
  induction h with
  | single he =>
    obtain ⟨k, p, hk, hp, he⟩ := hstep he
    exact ⟨k, p, hk, hp, .single he⟩
  | tail _ he ih =>
    obtain ⟨k, p, hk, hp, hpath⟩ := ih
    obtain ⟨p₁, q, hp₁, hq, he⟩ := hstep he
    obtain rfl := hρ (hp.trans hp₁.symm)
    exact ⟨k, q, hk, hq, hpath.tail he⟩

theorem Hierarchical.rename (h : m.Hierarchical) (hρ : ρ.Injective) :
    (m.rename ρ).Hierarchical where
  parents {k' c'} hk' p' hp' := by
    obtain ⟨k, c, hc, rfl, rfl⟩ := (class?_rename hρ).mp hk'
    obtain ⟨p, hp, rfl⟩ := List.mem_map.mp hp'
    obtain ⟨d, hd⟩ := has_iff.mp (h.parents hc p hp)
    exact has_iff.mpr ⟨_, class?_rename_apply hρ hd⟩
  acyclic k' hk' := by
    obtain ⟨k, p, rfl, hp, hpath⟩ := transGen_extends_rename hρ hk'
    obtain rfl := hρ hp
    exact h.acyclic p hpath

theorem withInherited_rename (inherited own : List StructuralProperty) :
    withInherited (inherited.map (StructuralProperty.rename ρ))
        (own.map (StructuralProperty.rename ρ)) =
      (withInherited inherited own).map (StructuralProperty.rename ρ) := by
  simp only [withInherited, List.map_append, List.filter_map, List.any_map]
  rfl

namespace Hierarchical

/-- A class inherits the same under another identifier, if its parents have the same. -/
theorem inherited_rename_of (h : m.Hierarchical) (hρ : ρ.Injective)
    (hp : ∀ p ∈ c.parents, (h.rename hρ).properties (ρ p) =
      (h.properties p).map (StructuralProperty.rename ρ)) :
    (h.rename hρ).inherited (c.rename ρ) =
      (h.inherited c).map (StructuralProperty.rename ρ) := by
  rw [inherited, inherited, StructuralClass.rename, List.flatMap_map, List.map_flatMap]
  exact List.flatMap_congr hp

theorem properties_rename (h : m.Hierarchical) (hρ : ρ.Injective) (hk : m.Has k) :
    (h.rename hρ).properties (ρ k) = (h.properties k).map (StructuralProperty.rename ρ) := by
  refine h.induction (motive := fun k => (h.rename hρ).properties (ρ k) =
    (h.properties k).map (StructuralProperty.rename ρ)) (fun k c hc ih => ?_) hk
  rw [properties_eq _ (class?_rename_apply hρ hc), h.properties_eq hc, ← withInherited_rename,
    h.inherited_rename_of hρ ih]
  rfl

theorem inherited_rename (h : m.Hierarchical) (hρ : ρ.Injective) (hk : m.class? k = some c) :
    (h.rename hρ).inherited (c.rename ρ) =
      (h.inherited c).map (StructuralProperty.rename ρ) :=
  h.inherited_rename_of hρ fun p hp => h.properties_rename hρ (h.parents hk p hp)

theorem apart_rename (h : m.Hierarchical) (hρ : ρ.Injective) (hk : m.class? k = some c) :
    (h.rename hρ).Apart (c.rename ρ) ↔ h.Apart c := by
  rw [Apart, Apart, h.inherited_rename hρ hk, List.map_map]
  rfl

theorem full_rename (h : m.Hierarchical) (hρ : ρ.Injective) (hk : m.class? k = some c) :
    (h.rename hρ).full (ρ k) (c.rename ρ) = (h.full k c).rename ρ := by
  rw [full, full, h.properties_rename hρ (has_iff.mpr ⟨c, hk⟩)]
  by_cases hp : c.parents = [] <;> simp [StructuralClass.rename, hp]

theorem flattened_rename (h : m.Hierarchical) (hρ : ρ.Injective) :
    (h.rename hρ).flattened = h.flattened.rename ρ := by
  refine with_classes_congr fun k' => Option.ext fun c' => ?_
  have hright : (h.flattened.rename ρ).class? k' = some c' ↔ _ := class?_rename hρ
  refine Iff.trans ?_ hright.symm
  rw [SortedMap.get?_mapValues, Option.map_eq_some_iff]
  constructor
  · rintro ⟨d', hd', rfl⟩
    obtain ⟨k, d, hd, rfl, rfl⟩ := (class?_rename hρ).mp hd'
    refine ⟨k, h.full k d, ?_, rfl, (h.full_rename hρ hd).symm⟩
    exact (SortedMap.get?_mapValues ..).trans (by rw [← class?, hd, Option.map_some])
  · rintro ⟨k, d', hd', rfl, rfl⟩
    obtain ⟨d, hd, rfl⟩ := Option.map_eq_some_iff.mp ((SortedMap.get?_mapValues ..).symm.trans hd')
    exact ⟨_, class?_rename_apply hρ hd, h.full_rename hρ hd⟩

/-- Under other identifiers, inheritance comes to the same under these identifiers. -/
theorem Yields.rename {h : m.Hierarchical} {x y : Except ModelError StructuralModel}
    (hρ : ρ.Injective) (hx : h.Yields x) (hy : (h.rename hρ).Yields y) :
    y.toOption = x.toOption.map (StructuralModel.rename ρ) := by
  have happly : ∀ {k c}, m.class? k = some c →
      (∀ k' c', (m.rename ρ).class? k' = some c' → (h.rename hρ).Apart c') → h.Apart c :=
    fun hc hapart => (h.apart_rename hρ hc).mp (hapart _ _ (class?_rename_apply hρ hc))
  cases hy with
  | ok hapart =>
    cases hx with
    | ok => exact congrArg some (h.flattened_rename hρ)
    | error hc hp => exact absurd (happly hc hapart) hp.not_nodup
  | error hc' hp =>
    obtain ⟨k, c, hc, rfl, rfl⟩ := (class?_rename hρ).mp hc'
    cases hx with
    | ok hapart => exact absurd ((h.apart_rename hρ hc).mpr (hapart k c hc)) hp.not_nodup
    | error => rfl

end Hierarchical

/-! ## Flattening -/

/-- Let no class extend itself, and let all that classes extend be there. All properties of a
class are those of its parents, in the order of the parents, and behind them its own, but for
those that it inherits. Flattening succeeds exactly if no class inherits a property twice, and
names such a class otherwise. What it then gives every class are all its properties; the class
extends none any more, and if it did, it inherits from these. The order in which the classes are
visited does not matter, nor which identifiers they have. -/
theorem flatten_eq_flattened (h : m.Hierarchical) :
    (∀ k c, m.class? k = some c → h.properties k = h.inherited c ++
      c.properties.filter fun q => q.iri ∉ (h.inherited c).map StructuralProperty.iri) ∧
    ((∃ m', m.flatten = .ok m') ↔ ∀ k c, m.class? k = some c → c.parents ≠ [] →
      ((h.inherited c).map StructuralProperty.iri).Nodup) ∧
    (∀ m', m.flatten = .ok m' → m' = { m with
      classes := m.classes.mapValues fun k c => { c with
        properties := h.properties k
        parents := []
        inheritsFrom := if c.parents = [] then c.inheritsFrom else c.parents } }) ∧
    (∀ e, m.flatten = .error e → e.category = .unsupportedModel ∧
      ∃ k c p, e = .inheritedTwice k p ∧ m.class? k = some c ∧
        List.Duplicate p ((h.inherited c).map StructuralProperty.iri)) ∧
    (∀ order, m.Visits order → (order.foldlM inheritInto m).toOption = m.flatten.toOption) ∧
    ∀ ρ : Iri → Iri, ρ.Injective →
      (m.rename ρ).flatten.toOption = m.flatten.toOption.map (rename ρ) := by
  refine ⟨fun k c hc => ?_, ?_, fun m' hm' => ?_, fun e he => ?_, fun order horder => ?_,
    fun ρ hρ => h.yields_flatten.rename hρ (h.rename hρ).yields_flatten⟩
  · rw [h.properties_eq hc, withInherited]
    congr 1
    refine List.filter_congr fun q _ => ?_
    rw [Bool.eq_iff_iff]
    simp
  · rw [h.yields_flatten.exists_eq_ok_iff]
    refine forall₃_congr fun k c hc => ⟨fun hn _ => hn, fun hn => ?_⟩
    by_cases hp : c.parents = []
    · exact h.apart_of_no_parents hp
    · exact hn hp
  · have hyields := h.yields_flatten
    rw [hm'] at hyields
    cases hyields
    rfl
  · have hyields := h.yields_flatten
    rw [he] at hyields
    cases hyields with
    | error hc hp => exact ⟨rfl, _, _, _, rfl, hc, hp⟩
  · exact (h.yields_of_visits horder).toOption_eq h.yields_flatten

/-! ## A small hierarchy -/

/-- A model that passes the two checks before inheritance. -/
theorem hierarchical_of_parentsFirst (hm : m.missingParent? = none) {order : List Iri}
    (h : (ExtensionGraph.ofParents m.extension).parentsFirst = .ok order) : m.Hierarchical where
  parents {k c} hk p hp := by
    have hnone := List.findSome?_eq_none_iff.mp hm c (mem_values_of_class? hk)
    have hfound := List.find?_eq_none.mp hnone p hp
    simpa [Has] using hfound
  acyclic := by
    rw [← ExtensionGraph.leads_ofParents]
    exact (Digraph.exists_order_eq_ok_iff (ExtensionGraph.proper_ofParents _)).mp
      ⟨_, ExtensionGraph.parentsFirst_eq_ok_iff.mp h⟩

end StructuralModel

open StructuralModel

/-- An attribute. -/
def plainProperty (iri : Iri) : StructuralProperty := { townProperty with iri }

/-- A class with attributes. -/
def plainClass (iri : Iri) (parents inheritsFrom : List Iri) (properties : List Iri) :
    StructuralClass :=
  { linkClass with iri, parents, inheritsFrom, properties := properties.map plainProperty }

/-- Agents, named things, persons, who are both, and children among them. -/
def personModel (child person : StructuralClass) : StructuralModel :=
  { chainModel with
    roots := ["child"]
    classes := .ofList [
      ("agent", plainClass "agent" [] [] ["id"]),
      ("child", child),
      ("named", plainClass "named" [] [] ["name"]),
      ("person", person)] }

/-- Persons and children with what they have of their own. -/
def ownPersonModel : StructuralModel :=
  personModel (plainClass "child" ["person"] [] ["age"])
    (plainClass "person" ["agent", "named"] [] ["id", "size"])

theorem parentsFirst_persons : (ExtensionGraph.ofParents ownPersonModel.extension).parentsFirst =
    .ok ["agent", "named", "person", "child"] := by
  have hgraph : ExtensionGraph.ofParents ownPersonModel.extension =
      ⟨["agent", "child", "person", "named"],
        [("child", "person"), ("person", "agent"), ("person", "named")]⟩ := rfl
  rw [hgraph]
  simp [ExtensionGraph.parentsFirst, Digraph.order, Digraph.search, Digraph.walk,
    Digraph.entered, Digraph.left, Digraph.successors, Digraph.predecessors, Digraph.late?]

/-- A child has what it inherits from persons, and they have what they inherit from both sides;
the identifier that they state anew comes once. -/
theorem flatten_ownPersonModel : ownPersonModel.Hierarchical ∧
    ownPersonModel.flatten = .ok (personModel
      (plainClass "child" [] ["person"] ["id", "name", "size", "age"])
      (plainClass "person" [] ["agent", "named"] ["id", "name", "size"])) := by
  have h : ownPersonModel.Hierarchical :=
    hierarchical_of_parentsFirst (by decide) parentsFirst_persons
  -- The parents come first, so their properties are known when they are inherited.
  have hagent : h.properties "agent" = ["id"].map plainProperty :=
    (h.properties_eq (c := plainClass "agent" [] [] ["id"]) rfl).trans rfl
  have hnamed : h.properties "named" = ["name"].map plainProperty :=
    (h.properties_eq (c := plainClass "named" [] [] ["name"]) rfl).trans rfl
  have hboth : h.inherited (plainClass "person" ["agent", "named"] [] ["id", "size"]) =
      ["id", "name"].map plainProperty := by
    simp [Hierarchical.inherited, plainClass, hagent, hnamed]
  have hperson : h.properties "person" = ["id", "name", "size"].map plainProperty :=
    (h.properties_eq rfl).trans (by rw [hboth]; decide)
  have hone : h.inherited (plainClass "child" ["person"] [] ["age"]) =
      ["id", "name", "size"].map plainProperty := by
    simp [Hierarchical.inherited, plainClass, hperson]
  have hchild : h.properties "child" = ["id", "name", "size", "age"].map plainProperty :=
    (h.properties_eq rfl).trans (by rw [hone]; decide)
  obtain ⟨-, hok, hresult, -⟩ := flatten_eq_flattened h
  have hlist : ownPersonModel.classes.toList = [
      ("agent", plainClass "agent" [] [] ["id"]),
      ("child", plainClass "child" ["person"] [] ["age"]),
      ("named", plainClass "named" [] [] ["name"]),
      ("person", plainClass "person" ["agent", "named"] [] ["id", "size"])] := rfl
  obtain ⟨m', hm'⟩ := hok.mpr fun k c hk hp => by
    have hmem := SortedMap.mem_toList_iff.mpr hk
    rw [hlist] at hmem
    simp only [List.mem_cons, List.not_mem_nil, or_false, Prod.mk.injEq] at hmem
    rcases hmem with ⟨-, rfl⟩ | ⟨-, rfl⟩ | ⟨-, rfl⟩ | ⟨-, rfl⟩
    · exact absurd rfl hp
    · rw [hone]
      decide
    · exact absurd rfl hp
    · rw [hboth]
      decide
  refine ⟨h, hm'.trans (congrArg _ ((hresult m' hm').trans ?_))⟩
  refine with_classes_congr fun k => congrFun (congrArg SortedMap.get? ?_) k
  refine SortedMap.ext_toList ?_
  have hmap := congrArg (List.map fun e => (e.1, { e.2 with
    properties := h.properties e.1
    parents := []
    inheritsFrom := if e.2.parents = [] then e.2.inheritsFrom else e.2.parents })) hlist
  refine hmap.trans ?_
  simp only [List.map_cons, List.map_nil, hagent, hnamed, hperson, hchild]
  rfl

end DataSpec
