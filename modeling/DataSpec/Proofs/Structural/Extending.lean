import DataSpec.Proofs.Structural.Inheritance
import DataSpec.Proofs.Structural.Leaves
import DataSpec.Proofs.Structural.Names

/-!
# Base and extension

A class that inherits from one other can be described as an extension of that one by its own
properties. In a model that has gone through the passes its properties are those of its parent
and behind them what was added (`StructuralClass.Enlarges`): both classes have had the same
inherited properties replaced, and what a property is replaced by does not depend on the class
that has it.

Of what was added, the own properties of the class are those of which the parent has none with
the same identifier. Nothing else was declared anew, but when associations are replaced the same
property may come to parent and class through different ones. So base and extension are the whole
class exactly if this does not happen (`properties_eq_append_iff`).
-/

set_option autoImplicit false

namespace DataSpec

namespace StructuralModel

variable {m m' : StructuralModel} {k p : Iri} {c parent : StructuralClass}
  {ps qs added : List StructuralProperty}

/-! ## Leaves -/

namespace Leaves

variable {ls : List Leaf}

/-- The leaves below two lists are those below the first and then those below the second. -/
theorem of_append (h : m.Leaves (ps ++ qs) ls) :
    ∃ ls₁ ls₂, ls = ls₁ ++ ls₂ ∧ m.Leaves ps ls₁ ∧ m.Leaves qs ls₂ := by
  induction ps generalizing ls with
  | nil => exact ⟨[], ls, rfl, .nil, h⟩
  | cons p ps ih =>
    cases h with
    | leaf hd h =>
      obtain ⟨ls₁, ls₂, rfl, h₁, h₂⟩ := ih h
      exact ⟨_ :: ls₁, ls₂, rfl, .leaf hd h₁, h₂⟩
    | inner hd ht hc hinner h =>
      obtain ⟨ls₁, ls₂, rfl, h₁, h₂⟩ := ih h
      exact ⟨_ ++ ls₁, ls₂, (List.append_assoc ..).symm, .inner hd ht hc hinner h₁, h₂⟩

/-- A leaf with nothing above it is one of the properties. -/
theorem mem_of_chain_eq_nil (h : m.Leaves ps ls) :
    ∀ l ∈ ls, l.chain = [] → l.property ∈ ps := by
  induction h with
  | nil => nofun
  | leaf _ _ ih =>
    intro l hl hchain
    rcases List.mem_cons.mp hl with rfl | hl
    · exact List.mem_cons_self
    · exact List.mem_cons_of_mem _ (ih l hl hchain)
  | inner _ _ _ _ _ _ ih =>
    intro l hl hchain
    rcases List.mem_append.mp hl with hl | hl
    · obtain ⟨l₀, -, rfl⟩ := List.mem_map.mp hl
      cases hchain
    · exact List.mem_cons_of_mem _ (ih l hl hchain)

end Leaves

/-! ## Inheritance from one class -/

/-- A model that can be flattened has no cycles. -/
theorem hierarchical_of_flatten (h : m.flatten = .ok m') : m.Hierarchical := by
  unfold flatten at h
  split at h
  · cases h
  · rename_i hmissing
    obtain ⟨order, horder, -⟩ := Except.bind_eq_ok.mp h
    exact hierarchical_of_parentsFirst hmissing horder

/-- A class of a flattened model has all its properties. -/
theorem class?_of_flatten (h : m.Hierarchical) (hok : m.flatten = .ok m') (k : Iri) :
    m'.class? k = (m.class? k).map (h.full k) := by
  have hyields := h.yields_flatten
  rw [hok] at hyields
  cases hyields with
  | ok => exact SortedMap.get?_mapValues ..

end StructuralModel

/-- A class that has the properties of another one, and behind them others that were added. What
was added has an identifier in common with the other class only where one of the two properties
came through an association. -/
structure StructuralClass.Enlarges (c parent : StructuralClass) (added : List StructuralProperty) :
    Prop where
  properties : c.properties = parent.properties ++ added
  apart : ∀ q ∈ added, ∀ q' ∈ parent.properties, q'.iri = q.iri → q.path ≠ [] ∨ q'.path ≠ []

namespace StructuralModel

variable {m m' : StructuralModel} {conceptual : ConceptualModel} {k p : Iri}
  {c parent : StructuralClass} {ps own added : List StructuralProperty}

/-- Where a class has the properties of its parent in front, it still does when associations are
replaced, for the same properties have the same leaves. -/
theorem exists_enlarges_of_dematerialize (hok : m.dematerialize = .ok m')
    (hc : m.class? k = some c) (hparent : m.class? p = some parent)
    (hps : c.properties = parent.properties ++ own)
    (hown : ∀ q ∈ own, ∀ q' ∈ parent.properties, q'.iri ≠ q.iri) :
    ∃ parent' c' added, m'.class? p = some parent' ∧ m'.class? k = some c' ∧
      c'.inheritsFrom = c.inheritsFrom ∧ c'.Enlarges parent' added := by
  have hinlines := inlines_of_dematerialize hok
  obtain ⟨inherited, hinherited, hparent'⟩ := hinlines.leaves hparent
  obtain ⟨ls, hls, hc'⟩ := hinlines.leaves hc
  rw [hps] at hls
  obtain ⟨ls₁, ls₂, rfl, h₁, h₂⟩ := hls.of_append
  obtain rfl := h₁.unique hinherited
  refine ⟨_, _, ls₂.map Leaf.seen, hparent', hc', rfl, List.map_append, fun q hq q' hq' hiri => ?_⟩
  obtain ⟨l, hl, rfl⟩ := List.mem_map.mp hq
  obtain ⟨l', hl', rfl⟩ := List.mem_map.mp hq'
  -- What came through no association is there before, and there the identifiers differ.
  by_contra hnone
  rw [not_or, not_not, not_not] at hnone
  have hchain : ∀ {l : Leaf}, l.seen.path = [] → l.chain = [] := fun h =>
    List.map_eq_nil_iff.mp (List.append_eq_nil_iff.mp h).1
  exact hown _ (h₂.mem_of_chain_eq_nil l hl (hchain hnone.1)) _
    (h₁.mem_of_chain_eq_nil l' hl' (hchain hnone.2)) hiri

/-- In a flattened model a class with one parent has the properties of the parent in front. -/
theorem exists_own_of_flatten (hok : m.flatten = .ok m') {c₀ : StructuralClass}
    (hc₀ : m.class? k = some c₀) (hp : c₀.parents = [p]) :
    ∃ parent c own, m'.class? p = some parent ∧ m'.class? k = some c ∧
      c.inheritsFrom = [p] ∧ c.properties = parent.properties ++ own ∧
      ∀ q ∈ own, ∀ q' ∈ parent.properties, q'.iri ≠ q.iri := by
  have h := hierarchical_of_flatten hok
  obtain ⟨d, hd⟩ := has_iff.mp (h.parents hc₀ p (by simp [hp]))
  have hparent : m'.class? p = some (h.full p d) := by rw [class?_of_flatten h hok, hd]; rfl
  have hc : m'.class? k = some (h.full k c₀) := by rw [class?_of_flatten h hok, hc₀]; rfl
  have hinherited : h.inherited c₀ = h.properties p := by
    rw [Hierarchical.inherited, hp, List.flatMap_singleton]
  refine ⟨_, _, c₀.properties.filter fun q => !(h.properties p).any fun q' => q'.iri = q.iri,
    hparent, hc, ?_, ?_, fun q hq q' hq' => ?_⟩
  · rw [Hierarchical.full, hp, if_neg (List.cons_ne_nil p [])]
  · exact (h.properties_eq hc₀).trans (by rw [hinherited]; rfl)
  · have hnot := (List.mem_filter.mp hq).2
    simp only [Bool.not_eq_true', List.any_eq_false, decide_eq_true_eq] at hnot
    exact hnot q' hq'

theorem inheritsFrom_takenOver (conceptual : ConceptualModel) (c : StructuralClass) :
    (c.takenOver conceptual).inheritsFrom = c.inheritsFrom := by
  rw [StructuralClass.takenOver_eq, StructuralClass.mapProperties, StructuralClass.withLabels]
  split <;> rfl

/-- In a model that has gone through the passes a class that inherits from one other enlarges
it. -/
theorem exists_enlarges_of_run (hrun : Pass.run Pass.standard false conceptual m = .ok m')
    (hnew : ∀ c₀, m.class? k = some c₀ → c₀.inheritsFrom = []) (hk : m'.class? k = some c)
    (hp : c.inheritsFrom = [p]) :
    ∃ parent added, m'.class? p = some parent ∧ c.Enlarges parent added := by
  rw [Pass.run_standard] at hrun
  obtain ⟨m₂, hflat, hmat⟩ := Except.bind_eq_ok.mp hrun
  have h := hierarchical_of_flatten hflat
  obtain ⟨c₂, ps, hc₂, -, rfl⟩ := class?_of_dematerialize hmat hk
  rw [class?_of_flatten h hflat] at hc₂
  obtain ⟨c₁, hc₁, rfl⟩ := Option.map_eq_some_iff.mp hc₂
  -- The class inherits from what it extended, so it extended one class.
  have hparents : c₁.parents = [p] := by
    obtain ⟨c₀, hc₀, rfl⟩ := Option.map_eq_some_iff.mp ((class?_mapClasses ..).symm.trans hc₁)
    have hnone := (inheritsFrom_takenOver conceptual c₀).trans (hnew c₀ hc₀)
    have hfull : (h.full k (c₀.takenOver conceptual)).inheritsFrom = [p] := hp
    rw [Hierarchical.full] at hfull
    split at hfull
    · rw [hnone] at hfull
      cases hfull
    · exact hfull
  obtain ⟨parent, c', own, hparent, hc', -, hps, hown⟩ := exists_own_of_flatten hflat hc₁ hparents
  obtain ⟨parent', c'', added, hparent', hc'', -, henlarges⟩ :=
    exists_enlarges_of_dematerialize hmat hc' hparent hps hown
  obtain rfl := Option.some.inj (hk.symm.trans hc'')
  exact ⟨parent', added, hparent', henlarges⟩

/-! ## Own properties -/

/-- The own properties of a class that enlarges the one it inherits from are those that were added
and that the other class does not have, too. -/
theorem ownProperties_of_enlarges (hparent : m.class? p = some parent) (hp : c.inheritsFrom = [p])
    (h : c.Enlarges parent added) :
    m.ownProperties c =
      added.filter fun q => !parent.properties.any fun q' => q'.iri = q.iri := by
  have hinherited : ∀ q, m.isInherited c q = parent.properties.any fun q' => q'.iri = q.iri := by
    intro q
    simp [isInherited, hp, hparent]
  have hnone : (parent.properties.filter fun q => !m.isInherited c q) = [] := by
    refine List.filter_eq_nil_iff.mpr fun q hq => ?_
    rw [hinherited, Bool.not_eq_true', Bool.not_eq_false, List.any_eq_true]
    exact ⟨q, hq, decide_eq_true rfl⟩
  rw [ownProperties, h.properties, List.filter_append, hnone, List.nil_append]
  simp only [hinherited]

/-- A class that inherits from one other consists of the properties of that one and of its own,
except for what was added under an identifier that the other class has, too. That is so only where
one of the two properties came through an association. -/
theorem properties_eq_append_iff
    (hrun : Pass.run Pass.standard false conceptual m = .ok m')
    (hnew : ∀ c₀, m.class? k = some c₀ → c₀.inheritsFrom = []) (hk : m'.class? k = some c)
    (hp : c.inheritsFrom = [p]) :
    ∃ parent added, m'.class? p = some parent ∧ c.Enlarges parent added ∧
      m'.ownProperties c =
        added.filter (fun q => !parent.properties.any fun q' => q'.iri = q.iri) ∧
      (c.properties = parent.properties ++ m'.ownProperties c ↔
        ∀ q ∈ added, ∀ q' ∈ parent.properties, q'.iri ≠ q.iri) := by
  obtain ⟨parent, added, hparent, henlarges⟩ := exists_enlarges_of_run hrun hnew hk hp
  have hown := ownProperties_of_enlarges hparent hp henlarges
  refine ⟨parent, added, hparent, henlarges, hown, ?_⟩
  rw [henlarges.properties, hown, List.append_right_inj, eq_comm, List.filter_eq_self]
  simp only [Bool.not_eq_true', List.any_eq_false, decide_eq_true_eq]

end StructuralModel

open StructuralModel

/-! ## A small model -/

/-- The age of a person, of which nothing else is said. -/
def ageProperty : StructuralProperty := { townProperty with iri := "age" }

/-- The place of work, which is to be replaced by what there is to say of it. -/
def workProperty : StructuralProperty := { boundHome with iri := "work" }

/-- The town of work. -/
def workTown : StructuralProperty := { homeTown with path := ["work"] }

/-- Agents, persons and workers, and places. -/
def workersModel (parents inheritsFrom : List Iri) (agent person worker : List StructuralProperty) :
    StructuralModel :=
  { chainModel with
    roots := ["person"]
    classes := .ofList [
      ("agent", { linkClass with iri := "agent", properties := agent }),
      ("person", { linkClass with iri := "person", parents, inheritsFrom, properties := person }),
      ("place", { linkClass with iri := "place", properties := [townProperty] }),
      ("worker", { linkClass with iri := "worker", parents, inheritsFrom, properties := worker })] }

/-- Persons have an age and workers a place of work, and both have the home of agents. -/
def rawWorkers : StructuralModel :=
  workersModel ["agent"] [] [boundHome] [ageProperty] [workProperty]

/-- Workers after inheritance. -/
def flatWorkers : StructuralModel :=
  workersModel [] ["agent"] [boundHome] [boundHome, ageProperty] [boundHome, workProperty]

/-- Workers in the end, who have two towns. -/
def finishedWorkers : StructuralModel :=
  workersModel [] ["agent"] [homeTown] [homeTown, ageProperty] [homeTown, workTown]

theorem parentsFirst_workers :
    (ExtensionGraph.ofParents rawWorkers.extension).parentsFirst =
      .ok ["agent", "person", "place", "worker"] := by
  have hgraph : ExtensionGraph.ofParents rawWorkers.extension =
      ⟨["agent", "person", "place", "worker"], [("person", "agent"), ("worker", "agent")]⟩ := rfl
  rw [hgraph]
  simp [ExtensionGraph.parentsFirst, Digraph.order, Digraph.search, Digraph.walk,
    Digraph.entered, Digraph.left, Digraph.successors, Digraph.predecessors, Digraph.late?]

theorem flatten_rawWorkers : rawWorkers.flatten = .ok flatWorkers := by
  have hmissing : rawWorkers.missingParent? = none := by decide
  rw [flatten, hmissing]
  simp only
  rw [← extension, parentsFirst_workers]
  rfl

theorem dematerialize_flatWorkers : flatWorkers.dematerialize = .ok finishedWorkers := by
  have htown : ∀ stack, expand flatWorkers.classes stack [townProperty] = .ok [townProperty] :=
    fun _ => expand_eq_self (by decide)
  have hhome : ∀ i, "place" ∉ [i] →
      replacement flatWorkers.classes [i] boundHome = .ok [homeTown] := fun i hi =>
    (replacement_eq_ok rfl rfl rfl hi rfl (htown ["place", i])).trans rfl
  have hwork : replacement flatWorkers.classes ["worker"] workProperty = .ok [workTown] :=
    (replacement_eq_ok rfl rfl rfl (by decide) rfl (htown ["place", "worker"])).trans rfl
  have hagent : expand flatWorkers.classes ["agent"] [boundHome] = .ok [homeTown] := by
    rw [expand_cons, hhome "agent" (by decide), expand]
    rfl
  have hperson : expand flatWorkers.classes ["person"] [boundHome, ageProperty] =
      .ok [homeTown, ageProperty] := by
    have hage : expand flatWorkers.classes ["person"] [ageProperty] = .ok [ageProperty] :=
      expand_eq_self (by decide)
    rw [expand_cons, hhome "person" (by decide), hage]
    rfl
  have hworker : expand flatWorkers.classes ["worker"] [boundHome, workProperty] =
      .ok [homeTown, workTown] := by
    rw [expand_cons, hhome "worker" (by decide), expand_cons, hwork, expand]
    rfl
  refine Except.map_eq_ok.mpr ⟨finishedWorkers.classes, ?_, rfl⟩
  refine SortedMap.mapValuesM_of_madeBy (.cons ⟨rfl, ?agent⟩ (.cons ⟨rfl, ?person⟩
    (.cons ⟨rfl, ?place⟩ (.cons ⟨rfl, ?worker⟩ .nil))))
  case agent => exact dematerializeClass_eq_ok hagent
  case person => exact dematerializeClass_eq_ok hperson
  case place => exact dematerializeClass_eq_ok (htown ["place"])
  case worker => exact dematerializeClass_eq_ok hworker

theorem run_rawWorkers :
    Pass.run Pass.standard false homeConcepts rawWorkers = .ok finishedWorkers := by
  have htaken : rawWorkers.mapClasses (StructuralClass.takenOver homeConcepts) = rawWorkers := by
    decide
  rw [Pass.run_standard, htaken, flatten_rawWorkers]
  exact dematerialize_flatWorkers

/-- A person is an agent with an age, and that is all. -/
theorem properties_eq_append_person :
    ∃ person agent, finishedWorkers.class? "person" = some person ∧
      finishedWorkers.class? "agent" = some agent ∧ person.Enlarges agent [ageProperty] ∧
      person.properties = agent.properties ++ finishedWorkers.ownProperties person := by
  have hnew : ∀ c ∈ rawWorkers.classes.values, c.inheritsFrom = [] := by decide +kernel
  obtain ⟨person, hperson, hfrom, hproperties⟩ : ∃ person,
      finishedWorkers.class? "person" = some person ∧ person.inheritsFrom = ["agent"] ∧
        person.properties = [homeTown, ageProperty] := ⟨_, rfl, rfl, rfl⟩
  obtain ⟨agent, added, hagent, henlarges, -, hiff⟩ := properties_eq_append_iff run_rawWorkers
    (fun c hc => hnew c (mem_values_of_class? hc)) hperson hfrom
  have htown : agent.properties = [homeTown] :=
    congrArg StructuralClass.properties (Option.some.inj (hagent.symm.trans rfl))
  obtain rfl : added = [ageProperty] := by
    have heq := henlarges.properties
    rw [hproperties, htown] at heq
    exact (List.cons.inj heq).2.symm
  refine ⟨person, agent, hperson, hagent, henlarges, hiff.mpr ?_⟩
  rw [htown]
  decide

/-- A worker has the town of work besides that of the home, but neither is an own property. -/
theorem not_properties_eq_append :
    ¬ ∀ (conceptual : ConceptualModel) (m m' : StructuralModel),
      (∀ c ∈ m.classes.values, c.inheritsFrom = [] ∧
        (c.properties.map StructuralProperty.iri).Nodup) →
      Pass.run Pass.standard false conceptual m = .ok m' →
      ∀ k p c parent, m'.class? k = some c → c.inheritsFrom = [p] → m'.class? p = some parent →
        c.properties = parent.properties ++ m'.ownProperties c := by
  intro h
  have hworker := h homeConcepts rawWorkers finishedWorkers (by decide +kernel) run_rawWorkers
    "worker" "agent" _ _ rfl rfl rfl
  exact absurd hworker (by decide +kernel)

end DataSpec
