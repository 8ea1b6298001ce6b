import DataSpec.Proofs.Structural.Pipeline

/-!
# Models that have gone through the passes

A class is `Settled` when it and its properties have taken over all that they can from the
conceptual model. The first passes settle every class, whatever it was before
(`settled_takenOver`). Inheritance and dematerialization only copy properties, so they keep
classes settled, and they leave nothing to inherit or to replace : the model is `Finished`.

Each pass leaves a finished model as it is, so a model that has gone through the usual passes
comes out of them unchanged when it goes through them once more (`run_idempotent`).
-/

set_option autoImplicit false
set_option linter.unusedSectionVars false

namespace DataSpec

open StructuralModel

variable {conceptual : ConceptualModel} {m m' : StructuralModel} {k : Iri} {c c' : StructuralClass}
  {p : StructuralProperty}

/-! ## Properties -/

theorem LanguageText.orElse_orElse (t source : LanguageText) :
    LanguageText.orElse (LanguageText.orElse t source) source = LanguageText.orElse t source := by
  cases h : t.isEmpty <;> simp [LanguageText.orElse, h]

namespace StructuralProperty

/-- A property that has taken over what it can. -/
structure Settled (conceptual : ConceptualModel) (p : StructuralProperty) : Prop where
  bounds : p.withBounds conceptual = p
  labels : p.withLabels conceptual = p

/-- A property takes over nothing exactly when it has bounds, or there are none for it. -/
theorem withBounds_eq_self_iff : p.withBounds conceptual = p ↔ (p.cardinality = none →
    (conceptual.propertyOf? p).bind ConceptualProperty.cardinality = none) := by
  unfold withBounds
  split
  · simp [*]
  · rename_i hnone
    refine ⟨fun h _ => (congrArg cardinality h).trans hnone, fun h => ?_⟩
    rw [h hnone, ← hnone]

theorem withBounds_withBounds (conceptual : ConceptualModel) (p : StructuralProperty) :
    (p.withBounds conceptual).withBounds conceptual = p.withBounds conceptual := by
  refine withBounds_eq_self_iff.mpr ?_
  unfold withBounds
  split
  · simp [*]
  · exact id

theorem withLabels_withLabels (conceptual : ConceptualModel) (p : StructuralProperty) :
    (p.withLabels conceptual).withLabels conceptual = p.withLabels conceptual := by
  cases h : conceptual.propertyOf? p with
  | none => simp [withLabels, h]
  | some q =>
    have hw : p.withLabels conceptual = { p with
        label := LanguageText.orElse p.label q.label
        description := LanguageText.orElse p.description q.description
        cim := p.cim.or q.concept } := by rw [withLabels, h]
    have h' : conceptual.propertyOf? (p.withLabels conceptual) = some q := by
      rw [hw]
      exact h
    rw [withLabels, h', hw]
    simp [LanguageText.orElse_orElse, Option.or_assoc]

/-- Taking over labels is no matter of bounds. -/
theorem withBounds_withLabels (h : p.withBounds conceptual = p) :
    (p.withLabels conceptual).withBounds conceptual = p.withLabels conceptual := by
  have h := withBounds_eq_self_iff.mp h
  refine withBounds_eq_self_iff.mpr ?_
  unfold withLabels
  split <;> exact h

/-- Bounds and labels that were taken over are not taken over again. -/
theorem settled_withLabels_withBounds (conceptual : ConceptualModel) (p : StructuralProperty) :
    ((p.withBounds conceptual).withLabels conceptual).Settled conceptual :=
  ⟨withBounds_withLabels (withBounds_withBounds conceptual p), withLabels_withLabels conceptual _⟩

/-- Labels are taken over in the same way through an association. -/
theorem withLabels_through (outer p : StructuralProperty) :
    (outer.through p).withLabels conceptual = outer.through (p.withLabels conceptual) := by
  have hsame : conceptual.propertyOf? (outer.through p) = conceptual.propertyOf? p := rfl
  unfold withLabels
  rw [hsame]
  split <;> rfl

/-- A settled property is settled also when it is seen through an association. -/
theorem Settled.through (outer : StructuralProperty) (h : p.Settled conceptual) :
    (outer.through p).Settled conceptual := by
  refine ⟨withBounds_eq_self_iff.mpr fun hnone => ?_, ?_⟩
  · have hp : p.cardinality = none := by
      unfold StructuralProperty.through at hnone
      simp only at hnone
      split at hnone
      · simp at hnone
      · exact hnone
    have hnothing := withBounds_eq_self_iff.mp h.bounds hp
    exact hnothing
  · rw [withLabels_through, h.labels]

end StructuralProperty

/-! ## Classes -/

namespace StructuralClass

theorem marked_marked (conceptual : ConceptualModel) (c : StructuralClass) :
    (c.marked conceptual).marked conceptual = c.marked conceptual := by
  have hsame : conceptual.classOf? (c.marked conceptual) = conceptual.classOf? c := rfl
  rw [marked, hsame, marked, Bool.or_assoc, Bool.or_self]

theorem withLabels_withLabels (conceptual : ConceptualModel) (c : StructuralClass) :
    (c.withLabels conceptual).withLabels conceptual = c.withLabels conceptual := by
  cases h : conceptual.classOf? c with
  | none => simp [withLabels, h]
  | some d =>
    have hw : c.withLabels conceptual = { c with
        label := LanguageText.orElse c.label d.label
        description := LanguageText.orElse c.description d.description
        cim := c.cim.or d.concept } := by rw [withLabels, h]
    have h' : conceptual.classOf? (c.withLabels conceptual) = some d := by
      rw [hw]
      exact h
    rw [withLabels, h', hw]
    simp [LanguageText.orElse_orElse, Option.or_assoc]

/-- Whether a class is a codelist is no matter of its labels, -/
theorem marked_withLabels (conceptual : ConceptualModel) (c : StructuralClass) :
    (c.withLabels conceptual).marked conceptual = (c.marked conceptual).withLabels conceptual := by
  have hsame : conceptual.classOf? (c.marked conceptual) = conceptual.classOf? c := rfl
  cases h : conceptual.classOf? c with
  | none => simp only [withLabels, hsame, h]
  | some d =>
    simp only [withLabels, hsame, h]
    rfl

/-- and its labels are no matter of its properties. -/
theorem withLabels_mapProperties (conceptual : ConceptualModel)
    (f : StructuralProperty → StructuralProperty) (c : StructuralClass) :
    (c.mapProperties f).withLabels conceptual = (c.withLabels conceptual).mapProperties f := by
  have hsame : conceptual.classOf? (c.mapProperties f) = conceptual.classOf? c := rfl
  unfold withLabels
  rw [hsame]
  split <;> rfl

/-- A class that has taken over what it can, as have its properties. -/
structure Settled (conceptual : ConceptualModel) (c : StructuralClass) : Prop where
  codelist : c.marked conceptual = c
  labels : c.withLabels conceptual = c
  properties : ∀ p ∈ c.properties, p.Settled conceptual

/-- A class after the passes that take over what the conceptual model says. -/
def takenOver (conceptual : ConceptualModel) (c : StructuralClass) : StructuralClass :=
  ((((c.marked conceptual).mapProperties (StructuralProperty.withBounds conceptual)).marked
    conceptual).withLabels conceptual).mapProperties (StructuralProperty.withLabels conceptual)

/-- Codelists are the same after bounds are taken over. -/
theorem takenOver_eq (conceptual : ConceptualModel) (c : StructuralClass) :
    c.takenOver conceptual = ((c.marked conceptual).withLabels conceptual).mapProperties fun p =>
      (p.withBounds conceptual).withLabels conceptual := by
  have hmarked : ((c.marked conceptual).mapProperties
      (StructuralProperty.withBounds conceptual)).marked conceptual =
        (c.marked conceptual).mapProperties (StructuralProperty.withBounds conceptual) :=
    congrArg (mapProperties _) (marked_marked conceptual c)
  rw [takenOver, hmarked, withLabels_mapProperties]
  simp [mapProperties, Function.comp_def]

theorem settled_takenOver (conceptual : ConceptualModel) (c : StructuralClass) :
    (c.takenOver conceptual).Settled conceptual := by
  rw [takenOver_eq]
  refine ⟨?_, ?_, fun p hp => ?_⟩
  · have hmarked := marked_withLabels conceptual (c.marked conceptual)
    rw [marked_marked] at hmarked
    exact congrArg (mapProperties _) hmarked
  · rw [withLabels_mapProperties, withLabels_withLabels]
  · obtain ⟨q, -, rfl⟩ := List.mem_map.mp hp
    exact q.settled_withLabels_withBounds conceptual

theorem mapProperties_eq_self {f : StructuralProperty → StructuralProperty}
    (h : ∀ p ∈ c.properties, f p = p) : c.mapProperties f = c := by
  rw [mapProperties, List.map_congr_left h, List.map_id']

theorem Settled.takenOver_eq_self (h : c.Settled conceptual) : c.takenOver conceptual = c := by
  rw [takenOver_eq, h.codelist, h.labels]
  refine mapProperties_eq_self fun p hp => ?_
  rw [(h.properties p hp).bounds, (h.properties p hp).labels]

/-- A settled class is settled also with other settled properties, whatever it extends and
whoever publishes it. -/
theorem Settled.with_properties (h : c.Settled conceptual) {ps : List StructuralProperty}
    (hps : ∀ p ∈ ps, p.Settled conceptual) (parents inheritsFrom : List Iri)
    (specification : Option Iri) :
    ({ c with properties := ps, parents, inheritsFrom, specification } : StructuralClass).Settled
      conceptual := by
  have hlabels : ({ c with properties := ps, parents, inheritsFrom, specification } :
      StructuralClass).withLabels conceptual = { c.withLabels conceptual with
        properties := ps, parents, inheritsFrom, specification } := by
    have hsame : conceptual.classOf? { c with
      properties := ps, parents, inheritsFrom, specification } = conceptual.classOf? c := rfl
    unfold withLabels
    rw [hsame]
    split <;> rfl
  have hcodelist : (c.marked conceptual).isCodelist = c.isCodelist :=
    congrArg isCodelist h.codelist
  refine ⟨?_, ?_, hps⟩
  · exact congrArg (fun b : Bool => ({ c with
      properties := ps, parents, inheritsFrom, specification, isCodelist := b } :
        StructuralClass)) hcodelist
  · rw [hlabels, h.labels]

end StructuralClass

/-! ## Models -/

namespace StructuralModel

/-- A model all of whose classes are settled. -/
structure Settled (conceptual : ConceptualModel) (m : StructuralModel) : Prop where
  classes : ∀ {k c}, m.class? k = some c → c.Settled conceptual

/-- A model on which the usual passes have nothing left to do. -/
structure Finished (conceptual : ConceptualModel) (m : StructuralModel) : Prop
    extends m.Settled conceptual where
  parents : ∀ {k c}, m.class? k = some c → c.parents = []
  replaced : ∀ {k c}, m.class? k = some c → ∀ p ∈ c.properties, p.dematerialize = false

theorem mapClasses_mapClasses (m : StructuralModel) (f g : StructuralClass → StructuralClass) :
    (m.mapClasses f).mapClasses g = m.mapClasses fun c => g (f c) := by
  simp [mapClasses, SortedMap.mapValues]

theorem mapClasses_eq_self {f : StructuralClass → StructuralClass}
    (h : ∀ {k c}, m.class? k = some c → f c = c) : m.mapClasses f = m := by
  rw [mapClasses, SortedMap.mapValues_eq_self fun k c hk => h hk]

theorem settled_mapClasses_takenOver (conceptual : ConceptualModel) (m : StructuralModel) :
    (m.mapClasses (StructuralClass.takenOver conceptual)).Settled conceptual := by
  refine ⟨fun {k c'} hk => ?_⟩
  rw [class?_mapClasses] at hk
  obtain ⟨c, -, rfl⟩ := Option.map_eq_some_iff.mp hk
  exact c.settled_takenOver conceptual

/-- What a class inherits from settled ones is settled. -/
theorem Settled.inheritInto {iri : Iri} (h : m.Settled conceptual)
    (hok : m.inheritInto iri = .ok m') : m'.Settled conceptual := by
  obtain ⟨rfl, -⟩ | ⟨c, inherited, hc, rfl, hmem⟩ := inheritInto_cases hok
  · exact h
  · refine ⟨fun {k c'} hk => ?_⟩
    rw [class?_withClass] at hk
    split at hk
    · obtain rfl := Option.some.inj hk
      refine (h.classes hc).with_properties (fun p hp => ?_) [] c.parents c.specification
      rcases List.mem_append.mp hp with hp | hp
      · obtain ⟨k, d, hd, hp⟩ := hmem p hp
        exact (h.classes hd).properties p hp
      · exact (h.classes hc).properties p (List.mem_filter.mp hp).1
    · exact h.classes hk

/-- A flattened model is settled if the model was, and nothing in it extends another class. -/
theorem Settled.flatten (h : m.Settled conceptual) (hok : m.flatten = .ok m') :
    m'.Settled conceptual ∧ ∀ {k c}, m'.class? k = some c → c.parents = [] := by
  obtain ⟨order, hall, hok⟩ := exists_of_flatten_eq_ok hok
  refine ⟨Except.keeps_of_foldlM (fun h hm' => h.inheritInto hm') h hok, fun {k c} hk => ?_⟩
  have hhas : m.Has k := (sameShape_inheritAll hok).has.mp (has_iff.mpr ⟨c, hk⟩)
  exact parents_of_inheritAll hok hk (Or.inl (hall k hhas))

/-- Dematerialization finishes a model that is settled and flat. -/
theorem Settled.dematerialize (h : m.Settled conceptual)
    (hp : ∀ {k c}, m.class? k = some c → c.parents = []) (hok : m.dematerialize = .ok m') :
    m'.Finished conceptual := by
  have step : ∀ {k c'}, m'.class? k = some c' → c'.Settled conceptual ∧ c'.parents = [] ∧
      ∀ p ∈ c'.properties, p.dematerialize = false := by
    intro k c' hk
    obtain ⟨c, ps, hc, hps, rfl⟩ := class?_of_dematerialize hok hk
    have hforall := forall_expand (fun outer _ hq => hq.through outer)
      (fun hk => (h.classes hk).properties) (h.classes hc).properties hps
    have hpar := hp hc
    exact ⟨(h.classes hc).with_properties (fun p hp => (hforall p hp).1) _ _ _, hpar,
      fun p hp => (hforall p hp).2⟩
  exact ⟨⟨fun hk => (step hk).1⟩, fun hk => (step hk).2.1, fun hk => (step hk).2.2⟩

theorem class?_link (s : Specifications) (k : Iri) : (m.link s).class? k =
    (m.class? k).map fun c => { c with
      specification := (s.owner? c.schema).map DataSpecification.iri } :=
  SortedMap.get?_mapValues _ m.classes k

theorem Finished.link (h : m.Finished conceptual) (s : Specifications) :
    (m.link s).Finished conceptual := by
  have step : ∀ {k c'}, (m.link s).class? k = some c' → c'.Settled conceptual ∧ c'.parents = [] ∧
      ∀ p ∈ c'.properties, p.dematerialize = false := by
    intro k c' hk
    rw [class?_link] at hk
    obtain ⟨c, hc, rfl⟩ := Option.map_eq_some_iff.mp hk
    have hpar := h.parents hc
    have hreplaced := h.replaced hc
    exact ⟨(h.classes hc).with_properties (h.classes hc).properties _ _ _, hpar, hreplaced⟩
  exact ⟨⟨fun hk => (step hk).1⟩, fun hk => (step hk).2.1, fun hk => (step hk).2.2⟩

/-- Links say which specification publishes a schema, and they do not change that. -/
theorem link_link (m : StructuralModel) (s : Specifications) :
    (m.link s).link s = m.link s := by
  simp [link, SortedMap.mapValues]

end StructuralModel

/-! ## Passes -/

namespace Pass

/-- The usual passes take over what the conceptual model says, and then flatten and
dematerialize the model. -/
theorem run_standard (conceptual : ConceptualModel) (m : StructuralModel) :
    run standard false conceptual m =
      (m.mapClasses (StructuralClass.takenOver conceptual)).flatten.bind
        StructuralModel.dematerialize := by
  have htaken : m.mapClasses (StructuralClass.takenOver conceptual) =
      (((m.markCodelists conceptual).propagateBounds conceptual).markCodelists
        conceptual).propagateLabels conceptual := by
    simp only [StructuralModel.markCodelists, StructuralModel.propagateBounds,
      StructuralModel.propagateLabels, StructuralModel.mapClasses_mapClasses]
    rfl
  rw [htaken]
  have hlast : ∀ m, run [dematerialization] false conceptual m = m.dematerialize := fun _ =>
    run_singleton _
  rw [← funext hlast]
  rfl

theorem run_linked (conceptual : ConceptualModel) (s : Specifications) (m : StructuralModel) :
    run (linked s) false conceptual m =
      (run standard false conceptual m).map (StructuralModel.link s) := by
  rw [linked, run_append]
  cases run standard false conceptual m <;> rfl

/-- The usual passes finish a model. -/
theorem finished_of_run_standard (h : run standard false conceptual m = .ok m') :
    m'.Finished conceptual := by
  rw [run_standard] at h
  obtain ⟨m₁, h₁, h⟩ := Except.bind_eq_ok.mp h
  obtain ⟨hs, hp⟩ := (StructuralModel.settled_mapClasses_takenOver conceptual m).flatten h₁
  exact hs.dematerialize hp h

/-- They leave a finished model as it is. -/
theorem run_standard_of_finished (h : m.Finished conceptual) :
    run standard false conceptual m = .ok m := by
  rw [run_standard, StructuralModel.mapClasses_eq_self fun hk => (h.classes hk).takenOver_eq_self,
    StructuralModel.flatten_eq_self h.parents]
  exact StructuralModel.dematerialize_eq_self h.replaced

/-- What comes out of the usual passes goes through them unchanged. -/
theorem run_idempotent {passes : List Pass} (hp : Usual passes)
    (h : run passes false conceptual m = .ok m') : run passes false conceptual m' = .ok m' := by
  rcases hp with rfl | ⟨s, rfl⟩
  · exact run_standard_of_finished (finished_of_run_standard h)
  · rw [run_linked] at h ⊢
    obtain ⟨m₁, h₁, rfl⟩ := Except.map_eq_ok.mp h
    have hfinished := (finished_of_run_standard h₁).link s
    exact Except.map_eq_ok.mpr ⟨_, run_standard_of_finished hfinished, m₁.link_link s⟩

end Pass

/-! ## A small model -/

/-- Where agents live, as people think of it. -/
def homeConcepts : ConceptualModel where
  iri := none
  label := .empty
  description := .empty
  classes := .ofList [("Agent", ⟨"Agent", none, .empty, .empty, false, [],
    [⟨"lives", none, .empty, .empty, some ⟨0, some 1⟩, .class_ "Place"⟩]⟩)]

/-- The home of an agent, which is to be replaced by what there is to say of the place. -/
def homeProperty : StructuralProperty :=
  ⟨"home", some "lives", none, .empty, .empty, none, none, [.class_ "place"], true, []⟩

/-- The home after bounds are taken over. -/
def boundHome : StructuralProperty := { homeProperty with cardinality := some ⟨0, some 1⟩ }

/-- The town of a place. -/
def townProperty : StructuralProperty :=
  ⟨"town", none, none, .empty, .empty, none, none, [.datatype none], false, []⟩

/-- The town of an agent. -/
def homeTown : StructuralProperty :=
  { townProperty with cardinality := some ⟨0, none⟩, path := ["home"] }

/-- Agents, persons and places. -/
def homeModel (parents inheritsFrom : List Iri) (agent person : List StructuralProperty) :
    StructuralModel :=
  { chainModel with
    roots := ["person"]
    classes := .ofList [
      ("agent", { linkClass with iri := "agent", properties := agent }),
      ("person", { linkClass with iri := "person", parents, inheritsFrom, properties := person }),
      ("place", { linkClass with iri := "place", properties := [townProperty] })] }

/-- Agents come before the persons among them. -/
theorem parentsFirst_agents :
    (ExtensionGraph.ofParents [("agent", []), ("person", ["agent"]), ("place", [])]).parentsFirst =
      .ok ["agent", "person", "place"] := by
  have hgraph : ExtensionGraph.ofParents [("agent", []), ("person", ["agent"]), ("place", [])] =
      ⟨["agent", "person", "place"], [("person", "agent")]⟩ := rfl
  rw [hgraph]
  simp [ExtensionGraph.parentsFirst, Digraph.order, Digraph.search, Digraph.walk,
    Digraph.entered, Digraph.left, Digraph.successors, Digraph.predecessors, Digraph.late?]

theorem flatten_homeModel : (homeModel ["agent"] [] [boundHome] []).flatten =
    .ok (homeModel [] ["agent"] [boundHome] [boundHome]) := by
  have hextension : (homeModel ["agent"] [] [boundHome] []).extension =
      [("agent", []), ("person", ["agent"]), ("place", [])] := rfl
  have hmissing : (homeModel ["agent"] [] [boundHome] []).missingParent? = none := by decide
  rw [flatten, hmissing]
  simp only
  rw [← extension, hextension, parentsFirst_agents]
  rfl

theorem dematerialize_homeModel : (homeModel [] ["agent"] [boundHome] [boundHome]).dematerialize =
    .ok (homeModel [] ["agent"] [homeTown] [homeTown]) := by
  have htown : ∀ stack, expand (homeModel [] ["agent"] [boundHome] [boundHome]).classes stack
      [townProperty] = .ok [townProperty] := fun _ => expand_eq_self (by decide)
  have hhome : ∀ i, "place" ∉ [i] →
      expand (homeModel [] ["agent"] [boundHome] [boundHome]).classes [i] [boundHome] =
        .ok [homeTown] := by
    intro i hi
    rw [expand_cons, replacement_eq_ok rfl rfl rfl hi rfl (htown ["place", i]), expand]
    rfl
  refine Except.map_eq_ok.mpr ⟨(homeModel [] ["agent"] [homeTown] [homeTown]).classes, ?_, rfl⟩
  refine SortedMap.mapValuesM_of_madeBy (.cons ⟨rfl, ?agent⟩ (.cons ⟨rfl, ?person⟩
    (.cons ⟨rfl, ?place⟩ .nil)))
  case agent => exact dematerializeClass_eq_ok (hhome "agent" (by decide))
  case person => exact dematerializeClass_eq_ok (hhome "person" (by decide))
  case place => exact dematerializeClass_eq_ok (htown ["place"])

theorem run_homeModel :
    Pass.run Pass.standard false homeConcepts (homeModel ["agent"] [] [homeProperty] []) =
      .ok (homeModel [] ["agent"] [homeTown] [homeTown]) := by
  have htaken : (homeModel ["agent"] [] [homeProperty] []).mapClasses
      (StructuralClass.takenOver homeConcepts) = homeModel ["agent"] [] [boundHome] [] := by decide
  rw [Pass.run_standard, htaken, flatten_homeModel]
  exact dematerialize_homeModel

/-- A second run finds nothing to inherit and nothing to replace. -/
theorem run_idempotent_homeModel : Pass.Usual Pass.standard ∧
    Pass.run Pass.standard false homeConcepts (homeModel ["agent"] [] [homeProperty] []) =
      .ok (homeModel [] ["agent"] [homeTown] [homeTown]) ∧
    Pass.run Pass.standard false homeConcepts (homeModel [] ["agent"] [homeTown] [homeTown]) =
      .ok (homeModel [] ["agent"] [homeTown] [homeTown]) :=
  have hp : Pass.Usual Pass.standard := Or.inl rfl
  ⟨hp, run_homeModel, Pass.run_idempotent hp run_homeModel⟩

end DataSpec
