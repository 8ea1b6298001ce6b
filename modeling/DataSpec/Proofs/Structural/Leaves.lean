import DataSpec.Proofs.Structural.Settled

/-!
# What dematerialization leaves

The properties of a class are the top of a tree, in which the properties of a class are below
each marked property that leads to it. `Chain` are the ways down that tree along marked
properties, and `Leaves` the properties that are not marked, each with the marked ones
above it.

A tree can be infinite, and a marked property may lead to no class or to several. Properties
are replaced exactly when every chain of marked ones consists of `Inlinable` ones
(`exists_expand_iff`), and then they are replaced by the leaves, each as it is seen from the
top (`exists_leaves_of_expand`). What this says of a model is `dematerialize_inlines`.
-/

set_option autoImplicit false
set_option linter.unusedSectionVars false

namespace DataSpec

/-- A property with the marked properties above it, the outermost first. -/
structure Leaf where
  chain : List StructuralProperty
  property : StructuralProperty

namespace Leaf

/-- The leaf below one more property. -/
def under (p : StructuralProperty) (l : Leaf) : Leaf := ⟨p :: l.chain, l.property⟩

/-- Whether one of the properties above the leaf may be absent. -/
def isOptional (l : Leaf) : Bool := l.chain.any fun p => p.bounds.min = 0

/-- The property as it is seen from the top : its path begins with the properties above it,
and if one of these may be absent, so may it. -/
def seen (l : Leaf) : StructuralProperty :=
  { l.property with
    path := l.chain.map StructuralProperty.iri ++ l.property.path
    cardinality :=
      if l.isOptional then some ⟨0, l.property.bounds.max⟩ else l.property.cardinality }

/-- From the top there are no more values of a property than there were. -/
theorem max_seen (l : Leaf) : l.seen.bounds.max = l.property.bounds.max := by
  unfold seen StructuralProperty.bounds
  cases l.isOptional <;> rfl

/-- One property further up, a leaf is seen through that property. -/
theorem seen_under (p : StructuralProperty) (l : Leaf) : (l.under p).seen = p.through l.seen := by
  unfold StructuralProperty.through
  rw [max_seen]
  by_cases hp : p.bounds.min = 0
  · simp [seen, under, isOptional, hp]
  · simp [seen, under, isOptional, hp]

end Leaf

namespace StructuralModel

/-- The property `q` ends a chain of marked properties that begins in `ps` and goes from each
to one of the class it leads to. The chain starts where the classes of `stack` are being
inlined, and ends where those of `through` are, the last one first. -/
inductive Chain (m : StructuralModel) :
    List Iri → List StructuralProperty → List Iri → StructuralProperty → Prop where
  | here {stack ps p} : p ∈ ps → p.dematerialize = true → Chain m stack ps stack p
  | further {stack ps p t c through q} : p ∈ ps → p.dematerialize = true → t ∈ p.classes →
      m.class? t = some c → Chain m (t :: stack) c.properties through q →
      Chain m stack ps through q

/-- What a property needs to be replaced while the classes of `stack` are being inlined : one
value at most, and one type, which is a class of the model that is not among these. -/
structure Inlinable (m : StructuralModel) (stack : List Iri) (p : StructuralProperty) : Prop where
  single : p.bounds.isMultiple = false
  target : ∃ t, p.types = [.class_ t] ∧ m.Has t ∧ t ∉ stack

/-- The leaves below properties, in order. -/
inductive Leaves (m : StructuralModel) : List StructuralProperty → List Leaf → Prop where
  | nil : Leaves m [] []
  | leaf {p ps ls} : p.dematerialize = false → Leaves m ps ls → Leaves m (p :: ps) (⟨[], p⟩ :: ls)
  | inner {p ps t c inner ls} : p.dematerialize = true → p.types = [.class_ t] →
      m.class? t = some c → Leaves m c.properties inner → Leaves m ps ls →
      Leaves m (p :: ps) (inner.map (Leaf.under p) ++ ls)

variable {m m' : StructuralModel} {k t : Iri} {c : StructuralClass}
  {stack through : List Iri} {p q : StructuralProperty} {ps qs : List StructuralProperty}

/-! ## Chains -/

/-- No chain begins where nothing is marked. -/
theorem not_chain_of_unmarked (h : ∀ p ∈ ps, p.dematerialize = false) :
    ¬ m.Chain stack ps through q := by
  rintro (⟨hp, hd⟩ | ⟨hp, hd, -⟩)
  all_goals exact absurd hd (Bool.eq_false_iff.mp (h _ hp))

/-- A chain begins with the first property or with one of the others. -/
theorem chain_cons_iff :
    m.Chain stack (p :: ps) through q ↔
      m.Chain stack [p] through q ∨ m.Chain stack ps through q := by
  constructor
  · rintro (⟨hp, hd⟩ | ⟨hp, hd, ht, hc, h⟩)
    · exact (List.mem_cons.mp hp).imp (fun hp => .here (List.mem_singleton.mpr hp) hd)
        fun hp => .here hp hd
    · exact (List.mem_cons.mp hp).imp (fun hp => .further (List.mem_singleton.mpr hp) hd ht hc h)
        fun hp => .further hp hd ht hc h
  · have hfirst : p ∈ p :: ps := List.mem_cons_self
    rintro ((⟨hp, hd⟩ | ⟨hp, hd, ht, hc, h⟩) | (⟨hp, hd⟩ | ⟨hp, hd, ht, hc, h⟩))
    · exact .here (List.mem_singleton.mp hp ▸ hfirst) hd
    · exact .further (List.mem_singleton.mp hp ▸ hfirst) hd ht hc h
    · exact .here (List.mem_cons_of_mem p hp) hd
    · exact .further (List.mem_cons_of_mem p hp) hd ht hc h

/-- Chains from a marked property that leads to one class end there or go on in the class. -/
theorem chain_singleton_iff (hd : p.dematerialize = true) (ht : p.types = [.class_ t])
    (hc : m.class? t = some c) :
    m.Chain stack [p] through q ↔
      (through = stack ∧ q = p) ∨ m.Chain (t :: stack) c.properties through q := by
  have hclasses : p.classes = [t] := by simp [StructuralProperty.classes, ht, PropertyType.class?]
  constructor
  · rintro (⟨hp, -⟩ | ⟨hp, -, ht', hc', h⟩)
    · exact .inl ⟨rfl, List.mem_singleton.mp hp⟩
    · obtain rfl := List.mem_singleton.mp hp
      obtain rfl := List.mem_singleton.mp (hclasses ▸ ht')
      obtain rfl := Option.some.inj (hc.symm.trans hc')
      exact .inr h
  · rintro (⟨rfl, rfl⟩ | h)
    · exact .here (List.mem_singleton.mpr rfl) hd
    · exact .further (List.mem_singleton.mpr rfl) hd (hclasses ▸ List.mem_singleton.mpr rfl) hc h

/-- A property can be replaced exactly when the chains that begin with it consist of properties
that can, provided this is so for the properties of the class it leads to. -/
theorem exists_replacement_iff
    (ih : ∀ t c, m.class? t = some c → t ∉ stack →
      ((∃ qs, expand m.classes (t :: stack) c.properties = .ok qs) ↔
        ∀ through q, m.Chain (t :: stack) c.properties through q → m.Inlinable through q)) :
    (∃ qs, replacement m.classes stack p = .ok qs) ↔
      ∀ through q, m.Chain stack [p] through q → m.Inlinable through q := by
  cases hd : p.dematerialize with
  | false =>
    have hp : ∀ q ∈ [p], q.dematerialize = false := List.forall_mem_singleton.mpr hd
    exact iff_of_true ⟨[p], by simp [replacement, hd]⟩ fun _ _ h =>
      absurd h (not_chain_of_unmarked hp)
  | true =>
    constructor
    · rintro ⟨qs, h⟩ through q hchain
      obtain ⟨hb, t, c, inner, ht, hs, hc, hinner, -⟩ := exists_of_replacement_eq_ok hd h
      rcases (chain_singleton_iff hd ht hc).mp hchain with ⟨rfl, rfl⟩ | hchain
      · exact ⟨hb, t, ht, has_iff.mpr ⟨c, hc⟩, hs⟩
      · exact (ih t c hc hs).mp ⟨inner, hinner⟩ through q hchain
    · intro h
      obtain ⟨hb, t, ht, hhas, hs⟩ := h stack p (.here (List.mem_singleton.mpr rfl) hd)
      obtain ⟨c, hc⟩ := has_iff.mp hhas
      obtain ⟨inner, hinner⟩ := (ih t c hc hs).mpr fun through q hchain =>
        h through q ((chain_singleton_iff hd ht hc).mpr (.inr hchain))
      exact ⟨_, replacement_eq_ok hd ht hb hs hc hinner⟩

/-- Properties are replaced exactly when every chain of marked ones consists of properties that
can be. -/
theorem exists_expand_iff (m : StructuralModel) (stack : List Iri) (ps : List StructuralProperty) :
    (∃ qs, expand m.classes stack ps = .ok qs) ↔
      ∀ through q, m.Chain stack ps through q → m.Inlinable through q := by
  induction stack, ps using expand_induction m.classes with
  | nil stack =>
    exact iff_of_true ⟨[], by rw [expand]⟩ fun _ _ h => absurd h (not_chain_of_unmarked (by simp))
  | cons stack p rest ihc ihr =>
    have hsplit : (∃ qs, expand m.classes stack (p :: rest) = .ok qs) ↔
        (∃ here, replacement m.classes stack p = .ok here) ∧
          ∃ there, expand m.classes stack rest = .ok there := by
      simp only [expand_cons, Except.bind_eq_ok, Except.map_eq_ok]
      constructor
      · rintro ⟨_, here, hhere, there, hthere, -⟩
        exact ⟨⟨here, hhere⟩, there, hthere⟩
      · rintro ⟨⟨here, hhere⟩, there, hthere⟩
        exact ⟨_, here, hhere, there, hthere, rfl⟩
    have hchain : ∀ through q, m.Chain stack (p :: rest) through q ↔
        m.Chain stack [p] through q ∨ m.Chain stack rest through q := fun _ _ => chain_cons_iff
    rw [hsplit, exists_replacement_iff ihc, ihr]
    simp only [hchain, or_imp, forall_and]

/-! ## Leaves -/

namespace Leaves

variable {ls ls' : List Leaf}

/-- Properties have the leaves of one tree. -/
theorem unique (h : m.Leaves ps ls) (h' : m.Leaves ps ls') : ls = ls' := by
  induction h generalizing ls' with
  | nil => cases h'; rfl
  | leaf hd _ ih =>
    cases h' with
    | leaf _ h' => rw [ih h']
    | inner hd' => simp [hd] at hd'
  | inner hd ht hc _ _ ihc ihr =>
    cases h' with
    | leaf hd' => simp [hd] at hd'
    | inner _ ht' hc' hinner h' =>
      obtain rfl : _ = _ := by simpa [ht] using ht'
      obtain rfl := Option.some.inj (hc.symm.trans hc')
      rw [ihc hinner, ihr h']

/-- Nothing is below a leaf. -/
theorem unmarked (h : m.Leaves ps ls) : ∀ l ∈ ls, l.property.dematerialize = false := by
  induction h with
  | nil => simp
  | leaf hd _ ih => exact List.forall_mem_cons.mpr ⟨hd, ih⟩
  | inner _ _ _ _ _ ihc ihr =>
    intro l hl
    rcases List.mem_append.mp hl with hl | hl
    · obtain ⟨l₀, hl₀, rfl⟩ := List.mem_map.mp hl
      exact ihc l₀ hl₀
    · exact ihr l hl

end Leaves

/-- Properties are replaced by the leaves below them, as they are seen from the top. -/
theorem exists_leaves_of_expand (h : expand m.classes stack ps = .ok qs) :
    ∃ ls, m.Leaves ps ls ∧ qs = ls.map Leaf.seen := by
  induction stack, ps using expand_induction m.classes generalizing qs with
  | nil stack =>
    rw [expand] at h
    obtain rfl := Except.ok.inj h
    exact ⟨[], .nil, rfl⟩
  | cons stack p rest ihc ihr =>
    rw [expand_cons] at h
    obtain ⟨here, hhere, h⟩ := Except.bind_eq_ok.mp h
    obtain ⟨there, hthere, rfl⟩ := Except.map_eq_ok.mp h
    obtain ⟨ls, hls, rfl⟩ := ihr hthere
    cases hd : p.dematerialize with
    | false =>
      have hself : [p] = here := by simpa [replacement, hd] using hhere
      refine ⟨⟨[], p⟩ :: ls, .leaf hd hls, ?_⟩
      rw [← hself]
      simp [Leaf.seen, Leaf.isOptional]
    | true =>
      obtain ⟨-, t, c, inner, ht, hs, hc, hinner, rfl⟩ := exists_of_replacement_eq_ok hd hhere
      obtain ⟨below, hbelow, rfl⟩ := ihc t c hc hs hinner
      refine ⟨below.map (Leaf.under p) ++ ls, .inner hd ht hc hbelow hls, ?_⟩
      simp [Leaf.seen_under]

/-! ## Models -/

/-- The model `m'` is `m` with the leaves of each class for its properties. -/
structure Inlines (m m' : StructuralModel) : Prop where
  rest : m' = { m with classes := m'.classes }
  keys : m'.classes.keys = m.classes.keys
  leaves : ∀ {k c}, m.class? k = some c →
    ∃ ls, m.Leaves c.properties ls ∧ m'.class? k = some { c with properties := ls.map Leaf.seen }
  replaced : ∀ {k c}, m'.class? k = some c → ∀ p ∈ c.properties, p.dematerialize = false
  untouched : ∀ {k c}, m.class? k = some c → (∀ p ∈ c.properties, p.dematerialize = false) →
    m'.class? k = some c

/-- A class of a dematerialized model is there with what its properties are replaced by. -/
theorem exists_expand_of_dematerialize (h : m.dematerialize = .ok m') (hc : m.class? k = some c) :
    ∃ qs, expand m.classes [c.iri] c.properties = .ok qs ∧
      m'.class? k = some { c with properties := qs } := by
  obtain ⟨c', hc'⟩ := has_iff.mp ((sameShape_dematerialize h).has.mpr (has_iff.mpr ⟨c, hc⟩))
  obtain ⟨d, qs, hd, hqs, rfl⟩ := class?_of_dematerialize h hc'
  obtain rfl := Option.some.inj (hc.symm.trans hd)
  exact ⟨qs, hqs, hc'⟩

/-- A model is dematerialized if the properties of each class are replaced. -/
theorem exists_dematerialize_iff (m : StructuralModel) : (∃ m', m.dematerialize = .ok m') ↔
    ∀ {k c}, m.class? k = some c → ∃ qs, expand m.classes [c.iri] c.properties = .ok qs := by
  constructor
  · rintro ⟨m', h⟩ k c hc
    obtain ⟨qs, hqs, -⟩ := exists_expand_of_dematerialize h hc
    exact ⟨qs, hqs⟩
  · intro h
    cases hm : m.dematerialize with
    | ok m' => exact ⟨m', rfl⟩
    | error e =>
      obtain ⟨k, c, hc, he⟩ := SortedMap.exists_of_mapValuesM_eq_error (Except.map_eq_error.mp hm)
      obtain ⟨qs, hqs⟩ := h hc
      rw [dematerializeClass_eq_ok hqs] at he
      simp at he

/-- A dematerialized model has the leaves of each class. -/
theorem inlines_of_dematerialize (h : m.dematerialize = .ok m') : m.Inlines m' where
  rest := by
    obtain ⟨classes, -, rfl⟩ := Except.map_eq_ok.mp h
    rfl
  keys := SortedMap.keys_eq_of_contains (sameShape_dematerialize h).contains
  leaves hc := by
    obtain ⟨qs, hqs, hc'⟩ := exists_expand_of_dematerialize h hc
    obtain ⟨ls, hls, rfl⟩ := exists_leaves_of_expand hqs
    exact ⟨ls, hls, hc'⟩
  replaced hc' := by
    obtain ⟨c, qs, -, hqs, rfl⟩ := class?_of_dematerialize h hc'
    obtain ⟨ls, hls, rfl⟩ := exists_leaves_of_expand hqs
    intro p hp
    obtain ⟨l, hl, rfl⟩ := List.mem_map.mp hp
    exact hls.unmarked l hl
  untouched hc hd := by
    obtain ⟨qs, hqs, hc'⟩ := exists_expand_of_dematerialize h hc
    rw [expand_eq_self hd] at hqs
    rw [hc', ← Except.ok.inj hqs]

/-- A model whose classes are listed under their identifiers is dematerialized exactly when,
from every class, each chain of marked properties consists of properties that can be
replaced; and then its classes have the leaves for properties. -/
theorem dematerialize_inlines (m : StructuralModel)
    (h : ∀ {k c}, m.class? k = some c → c.iri = k) :
    ((∃ m', m.dematerialize = .ok m') ↔ ∀ {k c through p}, m.class? k = some c →
      m.Chain [k] c.properties through p → m.Inlinable through p) ∧
    ∀ m', m.dematerialize = .ok m' → m.Inlines m' := by
  refine ⟨?_, fun m' => inlines_of_dematerialize⟩
  rw [exists_dematerialize_iff]
  constructor
  · intro hall k c through p hc
    have hc' := hall hc
    rw [exists_expand_iff, h hc] at hc'
    exact hc' through p
  · intro hall k c hc
    rw [exists_expand_iff, h hc]
    exact fun through p => hall hc

end StructuralModel

open StructuralModel

/-! ## A small model -/

/-- Who looks after a person : exactly one agent, of whom there is only to say where they
live. -/
def guardianProperty : StructuralProperty :=
  { homeProperty with
    iri := "guardian", cardinality := some ⟨1, some 1⟩, types := [.class_ "agent"] }

/-- Agents with a home, and persons with a home and with a guardian : two ways to a place. -/
def guardedModel : StructuralModel := homeModel [] [] [boundHome] [boundHome, guardianProperty]

/-- The town of the guardian of a person. -/
def guardianTown : StructuralProperty := { homeTown with path := ["guardian", "home"] }

/-- A person has the town of their home and that of their guardian, each as far as there is a
home. -/
theorem dematerialize_guardedModel :
    (∀ {k c}, guardedModel.class? k = some c → c.iri = k) ∧
    ∃ m', guardedModel.dematerialize = .ok m' ∧ m'.class? "person" =
      some { linkClass with iri := "person", properties := [homeTown, guardianTown] } := by
  have hclass : ∀ {k c}, guardedModel.class? k = some c →
      (k, c) ∈ [("agent", { linkClass with iri := "agent", properties := [boundHome] }),
        ("person", { linkClass with
          iri := "person", properties := [boundHome, guardianProperty] }),
        ("place", { linkClass with iri := "place", properties := [townProperty] })] :=
    fun hk => SortedMap.mem_of_get?_ofList hk
  have hkey : ∀ {k c}, guardedModel.class? k = some c → c.iri = k := by
    intro k c hk
    have hmem := hclass hk
    simp only [List.mem_cons, List.not_mem_nil, or_false, Prod.mk.injEq] at hmem
    rcases hmem with ⟨rfl, rfl⟩ | ⟨rfl, rfl⟩ | ⟨rfl, rfl⟩
    all_goals rfl
  obtain ⟨hok, hresult⟩ := dematerialize_inlines guardedModel hkey
  -- The home leads to a place wherever it is met, and there it ends.
  have hhome : ∀ {stack through q}, "place" ∉ stack →
      guardedModel.Chain stack [boundHome] through q → guardedModel.Inlinable through q := by
    intro stack through q hs hq
    rcases (chain_singleton_iff rfl rfl rfl).mp hq with ⟨rfl, rfl⟩ | hq
    · exact ⟨rfl, "place", rfl, rfl, hs⟩
    · exact absurd hq (not_chain_of_unmarked (by decide))
  obtain ⟨m', hm'⟩ := hok.mpr fun {k c through q} hk hq => by
    have hmem := hclass hk
    simp only [List.mem_cons, List.not_mem_nil, or_false, Prod.mk.injEq] at hmem
    rcases hmem with ⟨rfl, rfl⟩ | ⟨rfl, rfl⟩ | ⟨rfl, rfl⟩
    · exact hhome (by decide) hq
    · rcases chain_cons_iff.mp hq with hq | hq
      · exact hhome (by decide) hq
      rcases (chain_singleton_iff rfl rfl rfl).mp hq with ⟨rfl, rfl⟩ | hq
      · exact ⟨rfl, "agent", rfl, rfl, by decide⟩
      · exact hhome (by decide) hq
    · exact absurd hq (not_chain_of_unmarked (by decide))
  obtain ⟨ls, hls, hperson⟩ := (hresult m' hm').leaves (k := "person") rfl
  have hplace : guardedModel.Leaves [townProperty] [⟨[], townProperty⟩] := .leaf rfl .nil
  have hagent := Leaves.inner (m := guardedModel) (p := boundHome) rfl rfl rfl hplace .nil
  obtain rfl := hls.unique (.inner rfl rfl rfl hplace (.inner rfl rfl rfl hagent .nil))
  exact ⟨hkey, m', hm', hperson⟩

end DataSpec
