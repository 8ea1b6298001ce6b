import DataSpec.Proofs.Json.Decode
import DataSpec.Proofs.JsonSchema.Inlining
import DataSpec.Proofs.JsonSchema.Nesting
import DataSpec.Proofs.JsonSchema.Objects

/-!
# What documents say of objects

The document of a schema lists the properties of an object by name, so of several properties
of one name all but the last are lost, while the name is required as often as one of them is.
`Shows` is what can be said of a class in any case; all of its properties are there, and none
is required twice, exactly if they have different names (`complete_iff`).

A class of a model that has gone through the passes may have properties of the same name,
although no class of the model had them before (`not_complete_heirModel`). It does not if it is
`Clear`, and then the document is complete (`complete_of_run`).
-/

set_option autoImplicit false

namespace DataSpec.JsonSchema

variable {m m' : StructuralModel} {p : Publication} {conceptual : ConceptualModel}
  {c : StructuralClass} {v : Json}

/-- The names under which a document describes the properties of an object. -/
def writtenNames (v : Json) : List String :=
  match v.get? "properties" with
  | some (.obj members) => Json.memberNames members
  | _ => []

/-- The names of the properties that an object has to have according to a document. -/
def writtenRequired (v : Json) : List String :=
  ((v.get? "required").bind (Json.list? Json.str?)).getD []

/-- What the document of the objects of a class says, whatever its properties are called. -/
structure Shows (c : StructuralClass) (v : Json) : Prop where
  nodup : (writtenNames v).Nodup
  names : ∀ name, name ∈ writtenNames v ↔ name ∈ c.names
  required : writtenRequired v = requiredNames c.properties
  needed : ∀ name ∈ writtenRequired v, name ∈ writtenNames v
  complete : c.Distinct → writtenNames v = c.names

/-- Whether a document has one member for each property of a class, and requires none twice. -/
def Complete (c : StructuralClass) (v : Json) : Prop :=
  writtenNames v = c.names ∧ (writtenRequired v).Nodup

theorem requiredNames_sublist (ps : List StructuralProperty) :
    (requiredNames ps).Sublist (ps.map StructuralProperty.name) := List.filter_sublist.map _

theorem complete_iff (h : Shows c v) : Complete c v ↔ c.Distinct := by
  constructor
  · rintro ⟨hnames, -⟩
    rw [StructuralClass.Distinct, ← hnames]
    exact h.nodup
  · intro hc
    exact ⟨h.complete hc, h.required ▸ (requiredNames_sublist c.properties).nodup hc⟩

/-- What states a definition of objects shows a class. -/
theorem States.shows {d : Definition String} (h : States m v d)
    (hv : (v.get? "properties").isSome = true) : ∃ c ∈ m.classes.values, Shows c v := by
  have hproperties := h.get? "properties" (by decide)
  have hrequired := h.get? "required" (by decide)
  rw [member?_properties] at hproperties
  rw [member?_required] at hrequired
  cases hs : d.shape <;> simp only [hs] at hproperties hrequired
  case object properties required =>
    obtain ⟨c, hc, hnames, rfl⟩ := h.describes d (.refl d) _ _ hs
    have hmembers : Json.memberNames (propertyMembers properties) = c.names := by
      rw [← hnames, propertyMembers_eq_map, Json.memberNames, List.map_map]
      rfl
    have hwritten : writtenNames v =
        Json.memberNames (Json.mergeMembers (propertyMembers properties)) := by
      rw [writtenNames, hproperties]
    have hneeded : writtenRequired v = requiredNames c.properties := by
      rw [writtenRequired, hrequired]
      split
      · rename_i hnone
        exact (List.isEmpty_iff.mp hnone).symm
      · rw [Option.bind_some, Json.list?_strings]
        rfl
    obtain ⟨hnodup, hmem⟩ := Json.memberNames_mergeMembers (propertyMembers properties)
    refine ⟨c, hc, ⟨hwritten ▸ hnodup, fun name => ?_, hneeded, fun name hname => ?_,
      fun hdistinct => ?_⟩⟩
    · rw [hwritten, hmem, hmembers]
    · rw [hwritten, hmem, hmembers]
      rw [hneeded] at hname
      exact (requiredNames_sublist c.properties).subset hname
    · rw [hwritten, Json.mergeMembers_eq_self (hmembers ▸ hdistinct), hmembers]
  all_goals simp [hproperties] at hv

/-- In the document of a model, every object shows a class, completely if that has gone through
the passes and is clear. -/
theorem complete_of_run {schema : JsonSchema} (hdistinct : ∀ c ∈ m.classes.values, c.Distinct)
    (hrun : Pass.run Pass.standard false conceptual m = .ok m') (h : ofModel p m' = .ok schema) :
    ∀ v, Subschema schema.toJson v → (v.get? "properties").isSome = true →
      ∃ k c, m'.class? k = some c ∧ Shows c v ∧ (Complete c v ↔ c.Distinct) ∧
        (m.Clear k c → Complete c v) := by
  intro v hv hproperties
  obtain ⟨d, hd⟩ := exists_states_of_subschema hv (states_toJson h)
  obtain ⟨c, hc, hshows⟩ := hd.shows hproperties
  obtain ⟨k, hk⟩ := SortedMap.mem_values_iff.mp hc
  exact ⟨k, c, hk, hshows, complete_iff hshows, fun hclear =>
    (complete_iff hshows).mpr (distinct_of_run hdistinct hrun hk hclear)⟩

/-! ## Two small models -/

/-- An expansion that ends at a limit. -/
def ending (m : StructuralModel) (_ : List Iri) : Objects m := fun _ _ => .error (.noDatatype "")

/-- Agents and persons have the town of the place where they live. -/
theorem complete_of_run_homeModel :
    (∀ c ∈ (homeModel ["agent"] [] [homeProperty] []).classes.values, c.Distinct) ∧
    Pass.run Pass.standard false homeConcepts (homeModel ["agent"] [] [homeProperty] []) =
      .ok (homeModel [] ["agent"] [homeTown] [homeTown]) ∧
    ∃ schema, ofModel plainPublication (homeModel [] ["agent"] [homeTown] [homeTown]) =
        .ok schema ∧ (schema.toJson.get? "properties").isSome = true ∧
      ∀ v, Subschema schema.toJson v → (v.get? "properties").isSome = true →
        ∃ k c, (homeModel [] ["agent"] [homeTown] [homeTown]).class? k = some c ∧
          Complete c v := by
  have hdistinct : ∀ c ∈ (homeModel ["agent"] [] [homeProperty] []).classes.values, c.Distinct := by
    decide +kernel
  have hm : (homeModel ["agent"] [] [homeProperty] []).NamesTell := by decide +kernel
  have hiris : ∀ c ∈ (homeModel [] ["agent"] [homeTown] [homeTown]).classes.values,
      (c.properties.map StructuralProperty.iri).Nodup := by decide +kernel
  obtain ⟨schema, hschema, hproperties⟩ := exists_ofModel
    (P := fun schema => (schema.toJson.get? "properties").isSome) (p := plainPublication)
    (ending (homeModel [] ["agent"] [homeTown] [homeTown])) 3 (by decide +kernel)
    (by decide +kernel)
  refine ⟨hdistinct, run_homeModel, schema, hschema, hproperties, fun v hv hvp => ?_⟩
  obtain ⟨k, c, hk, -, -, hclear⟩ := complete_of_run hdistinct run_homeModel hschema v hv hvp
  exact ⟨k, c, hk, hclear (.inlined hm (hiris c (StructuralModel.mem_values_of_class? hk)))⟩

/-- What everybody has to have under a name. -/
def neededProperty (iri : Iri) (name : String) : StructuralProperty :=
  ⟨iri, none, none, .empty, .empty, some name, some ⟨1, some 1⟩, [.datatype none], false, []⟩

/-- Agents, of whom persons are some. The name of a person is not what the name of an agent
is. -/
def heirModel (parents inheritsFrom : List Iri) (inherited : List StructuralProperty) :
    StructuralModel :=
  homeModel parents inheritsFrom [neededProperty "name-of-agent" "name"]
    (inherited ++ [neededProperty "name-of-person" "name", neededProperty "age" "age"])

theorem run_heirModel :
    Pass.run Pass.standard false .empty (heirModel ["agent"] [] []) =
      .ok (heirModel [] ["agent"] [neededProperty "name-of-agent" "name"]) := by
  have htaken : (heirModel ["agent"] [] []).mapClasses (StructuralClass.takenOver .empty) =
      heirModel ["agent"] [] [] := by decide +kernel
  have hflat : (heirModel ["agent"] [] []).flatten =
      .ok (heirModel [] ["agent"] [neededProperty "name-of-agent" "name"]) := by
    have hextension : (heirModel ["agent"] [] []).extension =
        [("agent", []), ("person", ["agent"]), ("place", [])] := rfl
    have hmissing : (heirModel ["agent"] [] []).missingParent? = none := by decide +kernel
    rw [StructuralModel.flatten, hmissing]
    simp only
    rw [← StructuralModel.extension, hextension, parentsFirst_agents]
    rfl
  have hreplaced : ∀ c ∈ (heirModel [] ["agent"]
      [neededProperty "name-of-agent" "name"]).classes.values,
        ∀ q ∈ c.properties, q.dematerialize = false := by decide +kernel
  rw [Pass.run_standard, htaken, hflat]
  exact StructuralModel.dematerialize_eq_self fun hk =>
    hreplaced _ (StructuralModel.mem_values_of_class? hk)

/-- Properties of different names may have the same name in the end, and then all but one of
them are lost. -/
theorem not_complete_heirModel :
    ¬ ∀ (conceptual : ConceptualModel) (m m' : StructuralModel) (p : Publication)
      (schema : JsonSchema), (∀ c ∈ m.classes.values, c.Distinct) →
        Pass.run Pass.standard false conceptual m = .ok m' → ofModel p m' = .ok schema →
          ∀ v, Subschema schema.toJson v → (v.get? "properties").isSome = true →
            ∃ c ∈ m'.classes.values, Complete c v := by
  intro h
  have hdistinct : ∀ c ∈ (heirModel ["agent"] [] []).classes.values, c.Distinct := by
    decide +kernel
  have hnames : ∀ c ∈ (heirModel [] ["agent"]
      [neededProperty "name-of-agent" "name"]).classes.values, c.names ≠ ["name", "age"] := by
    decide +kernel
  obtain ⟨schema, hschema, hwritten⟩ := exists_ofModel
    (P := fun schema => (schema.toJson.get? "properties").isSome &&
      decide (writtenNames schema.toJson = ["name", "age"])) (p := plainPublication)
    (ending (heirModel [] ["agent"] [neededProperty "name-of-agent" "name"])) 3
    (by decide +kernel) (by decide +kernel)
  obtain ⟨hproperties, hwritten⟩ := Bool.and_eq_true_iff.mp hwritten
  obtain ⟨c, hc, hcomplete, -⟩ := h .empty _ _ plainPublication schema hdistinct run_heirModel
    hschema schema.toJson (.refl _) hproperties
  exact hnames c hc (hcomplete.symm.trans (of_decide_eq_true hwritten))

end DataSpec.JsonSchema
