import DataSpec.Proofs.Structural.Documents
import DataSpec.Proofs.Structural.Flattening
import DataSpec.Proofs.Structural.Replacement

/-!
# From built to documented models

The passes are taken one after the other. `Takes P Q` says of passes that they take every
model that satisfies `P` to one of the same shape that satisfies `Q`, or fail on what is not
supported; passes that follow each other compose (`Takes.cons`).

A built model is `Ready` : it is closed, and no class in it extends itself. It stays so
until inheritance is flattened, and what comes out in the end is flat. No document format
misses a class there.
-/

set_option autoImplicit false
set_option linter.unusedSectionVars false

namespace DataSpec

open StructuralModel

variable {m m' : StructuralModel} {P Q R : StructuralModel → Prop} {conceptual : ConceptualModel}

/-! ## Links to specifications -/

namespace StructuralModel

/-- Links to specifications leave a model flat, with the same keys. -/
theorem Flat.link (h : m.Flat) (s : Specifications) :
    (m.link s).Flat ∧ SameShape m (m.link s) := by
  have hs : SameShape m (m.link s) := ⟨rfl, SortedMap.contains_mapValues _ m.classes⟩
  have step : ∀ {k c'}, (m.link s).class? k = some c' → ∃ c, m.class? k = some c ∧
      c' = { c with specification := (s.owner? c.schema).map DataSpecification.iri } := by
    intro k c' hk
    have hk : (m.classes.get? k).map _ = some c' :=
      (SortedMap.get?_mapValues _ m.classes k).symm.trans hk
    obtain ⟨c, hc, rfl⟩ := Option.map_eq_some_iff.mp hk
    exact ⟨c, hc, rfl⟩
  refine ⟨⟨h.closed.of_sameShape hs fun {k c'} hk => ?_, fun {k c'} hk => ?_,
    fun {k c'} hk => ?_⟩, hs⟩
  · obtain ⟨c, hc, rfl⟩ := step hk
    have hw := h.closed.classes hc
    exact ⟨hw.types, hw.parents, hw.inheritsFrom⟩
  · obtain ⟨c, hc, rfl⟩ := step hk
    have hp := h.parents hc
    exact hp
  · obtain ⟨c, hc, rfl⟩ := step hk
    have hd := h.replaced hc
    exact hd

/-- A closed model in which no class extends itself. -/
structure Ready (m : StructuralModel) : Prop where
  closed : m.Closed
  acyclic : (ExtensionGraph.ofParents m.extension).checkAcyclic = .ok ()

/-- A closed model in which no class extends another one. -/
structure Unrelated (m : StructuralModel) : Prop where
  closed : m.Closed
  parents : ∀ {k c}, m.class? k = some c → c.parents = []

/-- A change of classes that keeps links leaves a model ready for the passes. -/
theorem Ready.mapClasses {f : StructuralClass → StructuralClass} (h : m.Ready)
    (hf : KeepsLinks f) : (m.mapClasses f).Ready :=
  ⟨h.closed.mapClasses hf, (extension_mapClasses hf).symm ▸ h.acyclic⟩

end StructuralModel

/-! ## One pass after the other -/

namespace Pass

/-- Passes that take models with `P` to models with `Q` of the same shape, unless they fail
on what is not supported. -/
def Takes (conceptual : ConceptualModel) (P Q : StructuralModel → Prop) (passes : List Pass) :
    Prop :=
  ∀ m, P m → (run passes false conceptual m).Fails Unsupported ∧
    ∀ m', run passes false conceptual m = .ok m' → Q m' ∧ SameShape m m'

theorem run_singleton (p : Pass) : run [p] false conceptual m = p.apply conceptual m := by
  have h : run [p] false conceptual m = (p.apply conceptual m).bind .ok := rfl
  rw [h]
  cases p.apply conceptual m <;> rfl

/-- Passes are run one after the other. -/
theorem run_append (ps qs : List Pass) : run (ps ++ qs) false conceptual m =
    (run ps false conceptual m).bind (run qs false conceptual) :=
  List.foldlM_append ..

/-- So where the first ones take a model to, the others go on from. -/
theorem Takes.append {ps qs : List Pass} (hp : Takes conceptual P Q ps)
    (hq : Takes conceptual Q R qs) : Takes conceptual P R (ps ++ qs) := by
  intro m hm
  obtain ⟨hfails, hok⟩ := hp m hm
  rw [run_append]
  refine ⟨hfails.bind fun m₁ h₁ => (hq m₁ (hok m₁ h₁).1).1, fun m' hm' => ?_⟩
  obtain ⟨m₁, h₁, hm'⟩ := Except.bind_eq_ok.mp hm'
  obtain ⟨hq₁, hs₁⟩ := hok m₁ h₁
  obtain ⟨hr, hs'⟩ := (hq m₁ hq₁).2 m' hm'
  exact ⟨hr, hs₁.trans hs'⟩

/-- A pass that succeeds on every model. -/
theorem takes_of_apply_eq_ok {p : Pass} {f : StructuralModel → StructuralModel}
    (hp : ∀ m, p.apply conceptual m = .ok (f m)) (hf : ∀ m, P m → Q (f m) ∧ SameShape m (f m)) :
    Takes conceptual P Q [p] := by
  intro m hm
  rw [run_singleton, hp]
  refine ⟨.ok _, fun m' hm' => ?_⟩
  obtain rfl := Except.ok.inj hm'
  exact hf m hm

/-- A pass that changes each class by itself and keeps what it leads to. -/
theorem takes_mapClasses {p : Pass} {f : StructuralClass → StructuralClass}
    (hp : ∀ m, p.apply conceptual m = .ok (m.mapClasses f)) (hf : KeepsLinks f) :
    Takes conceptual Ready Ready [p] :=
  takes_of_apply_eq_ok hp fun m hm => ⟨hm.mapClasses hf, sameShape_mapClasses m f⟩

/-- The passes that fill in leave a model ready. -/
theorem takes_codelistMarking : Takes conceptual Ready Ready [codelistMarking] :=
  takes_mapClasses (fun _ => rfl) (keepsLinks_marked conceptual)

theorem takes_cardinalityPropagation : Takes conceptual Ready Ready [cardinalityPropagation] :=
  takes_mapClasses (fun _ => rfl) (keepsLinks_withBounds conceptual)

theorem takes_labelPropagation : Takes conceptual Ready Ready [labelPropagation] :=
  takes_mapClasses (fun _ => rfl) (keepsLinks_withLabels conceptual)

/-- After flattening no class extends another one. -/
theorem takes_inheritanceFlattening :
    Takes conceptual Ready Unrelated [inheritanceFlattening] := by
  intro m hm
  obtain ⟨order, hall, heq⟩ := flatten_eq_foldlM hm.closed hm.acyclic
  rw [run_singleton, apply, heq]
  refine ⟨fails_inheritAll hm.closed, fun m' hm' => ?_⟩
  have hs := sameShape_inheritAll hm'
  refine ⟨⟨hm.closed.inheritAll hm', fun {k c} hk => ?_⟩, hs⟩
  exact parents_of_inheritAll hm' hk (Or.inl (hall k (hs.has.mp (has_iff.mpr ⟨c, hk⟩))))

/-- After dematerialization no property is to be replaced. -/
theorem takes_dematerialization : Takes conceptual Unrelated Flat [dematerialization] := by
  intro m hm
  rw [run_singleton]
  exact ⟨fails_dematerialize hm.closed, fun m' => dematerialize_eq_ok hm.closed hm.parents⟩

/-- To link classes to specifications changes nothing in that. -/
theorem takes_specificationLinking (s : Specifications) :
    Takes conceptual Flat Flat [specificationLinking s] :=
  takes_of_apply_eq_ok (fun _ => rfl) fun _ hm => hm.link s

/-- The standard passes take a model that is ready to a flat one. -/
theorem takes_standard : Takes conceptual Ready Flat standard :=
  takes_codelistMarking |>.append takes_cardinalityPropagation
    |>.append takes_codelistMarking |>.append takes_labelPropagation
    |>.append takes_inheritanceFlattening |>.append takes_dematerialization

/-- The passes that also link to specifications take a model that is ready to a flat one. -/
theorem takes_linked (s : Specifications) : Takes conceptual Ready Flat (linked s) :=
  takes_standard.append (takes_specificationLinking s)

/-- The lists of passes that models go through. -/
def Usual (passes : List Pass) : Prop := passes = standard ∨ ∃ s, passes = linked s

/-- The usual passes take a model that is ready to a flat one. -/
theorem takes_of_usual (conceptual : ConceptualModel) {passes : List Pass} (h : Usual passes) :
    Takes conceptual Ready Flat passes := by
  rcases h with rfl | ⟨s, rfl⟩
  · exact takes_standard
  · exact takes_linked s

end Pass

/-! ## Built models -/

/-- A model that was built and went through the usual passes. -/
def Prepared (m' : StructuralModel) : Prop :=
  ∃ resources schema m passes conceptual, build resources schema = .ok m ∧
    Pass.Usual passes ∧ Pass.run passes false conceptual m = .ok m'

/-- A model that is built is ready : it is closed, and no class extends itself. -/
theorem ready_of_build {resources : ResourceMap} {schema : Iri}
    (h : build resources schema = .ok m) : m.Ready :=
  ⟨(closed_of_build h).1, (closed_of_build h).2⟩

/-- What has been prepared is closed. -/
theorem Prepared.closed (h : Prepared m) : m.Closed := by
  obtain ⟨resources, schema, m₀, passes, conceptual, hb, hp, hrun⟩ := h
  exact ((Pass.takes_of_usual conceptual hp m₀ (ready_of_build hb)).2 m hrun).1.closed

/-- The usual passes fail on a built model only if it is not supported. What they make of it
has the same roots and classes, is flat, and every document format finds its classes in
it. -/
theorem run_of_build (conceptual : ConceptualModel) {resources : ResourceMap} {schema : Iri}
    {passes : List Pass} (hb : build resources schema = .ok m) (hp : Pass.Usual passes) :
    match Pass.run passes false conceptual m with
    | .error e => e.category = .unsupportedModel
    | .ok m' => m'.classes.keys = m.classes.keys ∧ m'.roots = m.roots ∧ m'.Flat ∧
      (∀ p, (JsonSchema.ofModel p m').Fails NotMissing) ∧
      (∀ p imported, (XmlSchema.ofModel ⟨p, m', imported⟩).Fails NotMissing) ∧
      (∀ p, (CsvSchema.ofModel p m').Fails NotMissing) ∧
      ∀ d described, (∀ x ∈ described, Prepared x.model) →
        (Documentation.document d described).Fails NotMissing := by
  obtain ⟨hfails, hok⟩ := Pass.takes_of_usual conceptual hp m (ready_of_build hb)
  cases h : Pass.run passes false conceptual m with
  | error e => exact hfails e h
  | ok m' =>
    obtain ⟨hflat, hs⟩ := hok m' h
    have hc := hflat.closed
    refine ⟨SortedMap.keys_eq_of_contains hs.contains, hs.roots, hflat,
      JsonSchema.fails_ofModel hc, fun p imported => XmlSchema.fails_ofModel hc,
      CsvSchema.fails_ofModel hc, fun d described hd => ?_⟩
    exact Documentation.fails_document (fun x hx => (hd x hx).closed) d

/-! ## A small schema -/

/-- A schema of clerks, who are agents with a deputy. The agents are those of another schema, and
there is a reference to them in this one. -/
def clerkResources : ResourceMap :=
  .ofResources [
    (Resource.new "agent" .structuralClass).set .schema (.iri "agents")
      |>.set .parts (.iriList ["name"]),
    (Resource.new "agent-reference" .structuralClassReference).set .referencedClass (.iri "agent"),
    (Resource.new "clerk" .structuralClass).set .parents (.iriList ["agent-reference"])
      |>.set .parts (.iriList ["deputy"]),
    (Resource.new "deputy" .structuralAssociationEnd).set .range (.iriList ["clerk"]),
    Resource.new "name" .structuralAttribute,
    (Resource.new "orders" .structuralSchema).set .roots (.iriList ["clerk"])
      |>.set .parts (.iriList ["clerk"])]

/-- The name of an agent. -/
def nameProperty : StructuralProperty :=
  ⟨"name", none, none, .empty, .empty, none, none, [.datatype none], false, []⟩

/-- The deputy of a clerk. -/
def deputyProperty : StructuralProperty :=
  ⟨"deputy", none, none, .empty, .empty, none, none, [.class_ "clerk"], false, []⟩

/-- The class of agents. -/
def agentClass : StructuralClass :=
  { linkClass with
    iri := "agent", properties := [nameProperty], schema := "agents", isReferenced := true }

/-- The class of clerks. -/
def clerkClass (parents inheritsFrom : List Iri) (properties : List StructuralProperty) :
    StructuralClass :=
  { linkClass with iri := "clerk", parents, inheritsFrom, properties, schema := "orders" }

/-- Agents, and a class of clerks. -/
def clerkModel (clerk : StructuralClass) : StructuralModel :=
  { chainModel with
    iri := "orders"
    roots := ["clerk"]
    classes := .ofList [("agent", agentClass), ("clerk", clerk)] }

/-- Agents and clerks as they are built. -/
def builtClerks : StructuralModel := clerkModel (clerkClass ["agent"] [] [deputyProperty])

/-- Agents and clerks as they are documented. -/
def flatClerks : StructuralModel :=
  clerkModel (clerkClass [] ["agent"] [nameProperty, deputyProperty])

/-- The clerks are found as a root and as deputies, the agents as their parents. -/
theorem explore_clerkResources :
    clerkResources.explore (classOf clerkResources "orders") links ["clerk", "clerk"] =
      .ok [("clerk", clerkClass ["agent"] [] [deputyProperty]), ("agent", agentClass)] := by
  have hkeys : clerkResources.keys =
      ["agent", "agent-reference", "clerk", "deputy", "name", "orders"] := by decide
  rw [ResourceMap.explore, hkeys]
  refine explore_cons_of_mem (by decide) rfl ?_
  refine (explore_cons_of_not_mem (by decide) rfl).trans ?_
  -- The parent is met, behind its reference, and the class of the deputies was visited.
  refine explore_cons_of_mem (by decide) rfl ?_
  exact (explore_cons_of_not_mem (by decide) rfl).trans explore_nil

/-- Agents come before the clerks among them. -/
theorem parentsFirst_clerks :
    (ExtensionGraph.ofParents [("agent", []), ("clerk", ["agent"])]).checkAcyclic = .ok () ∧
    (ExtensionGraph.ofParents [("agent", []), ("clerk", ["agent"])]).parentsFirst =
      .ok ["agent", "clerk"] := by
  have hgraph : ExtensionGraph.ofParents [("agent", []), ("clerk", ["agent"])] =
      ⟨["agent", "clerk"], [("clerk", "agent")]⟩ := rfl
  rw [hgraph]
  constructor <;>
    simp [ExtensionGraph.checkAcyclic, ExtensionGraph.cycle?, Digraph.cyclicComponent?,
      Digraph.components, Digraph.componentsFrom, ExtensionGraph.parentsFirst, Digraph.order,
      Digraph.search, Digraph.walk, Digraph.entered, Digraph.left, Digraph.successors,
      Digraph.predecessors, Digraph.late?]

/-- The model that is built has agents and clerks, who extend them. -/
theorem build_clerkResources : build clerkResources "orders" = .ok builtClerks := by
  unfold build
  refine Except.bind_eq_ok.mpr ⟨_, rfl, Except.bind_eq_ok.mpr ⟨(), rfl, ?_⟩⟩
  refine Except.bind_eq_ok.mpr ⟨["clerk"], rfl, Except.bind_eq_ok.mpr ⟨["clerk"], rfl, ?_⟩⟩
  exact Except.bind_eq_ok.mpr ⟨_, explore_clerkResources,
    Except.bind_eq_ok.mpr ⟨(), parentsFirst_clerks.1, rfl⟩⟩

/-- Clerks take over what is said of agents. -/
theorem flatten_builtClerks : builtClerks.flatten = .ok flatClerks := by
  have hextension : builtClerks.extension = [("agent", []), ("clerk", ["agent"])] := rfl
  have hmissing : builtClerks.missingParent? = none := by decide
  rw [flatten, hmissing]
  simp only
  rw [← extension, hextension, parentsFirst_clerks.2]
  rfl

/-- The other passes find nothing to do. -/
theorem run_builtClerks :
    Pass.run Pass.standard false .empty builtClerks = .ok flatClerks := by
  -- There is nothing to take over.
  have htaken : (((builtClerks.markCodelists .empty).propagateBounds .empty).markCodelists
      .empty).propagateLabels .empty = builtClerks := by decide
  have hplain : ∀ c ∈ flatClerks.classes.values, ∀ p ∈ c.properties, p.dematerialize = false := by
    decide
  have hreplaced : flatClerks.dematerialize = .ok flatClerks :=
    dematerialize_eq_self fun {k c} hk => hplain c (SortedMap.mem_values_iff.mpr ⟨k, hk⟩)
  refine Except.bind_eq_ok.mpr ⟨_, (congrArg flatten htaken).trans flatten_builtClerks, ?_⟩
  exact Except.bind_eq_ok.mpr ⟨_, hreplaced, rfl⟩

/-- The clerks come out with the names of agents in front of their deputies, and no document
format misses a class. -/
theorem run_of_build_clerkResources :
    build clerkResources "orders" = .ok builtClerks ∧ Pass.Usual Pass.standard ∧
    Pass.run Pass.standard false .empty builtClerks = .ok flatClerks ∧ flatClerks.Flat ∧
    ∀ p, (JsonSchema.ofModel p flatClerks).Fails NotMissing := by
  have hp : Pass.Usual Pass.standard := Or.inl rfl
  have h := run_of_build .empty build_clerkResources hp
  rw [run_builtClerks] at h
  obtain ⟨-, -, hflat, hjson, -⟩ := h
  exact ⟨build_clerkResources, hp, run_builtClerks, hflat, hjson⟩

end DataSpec
