import DataSpec.Generation.Document
import DataSpec.Proofs.JsonSchema.Members
import DataSpec.Proofs.JsonSchema.References

/-!
# References between generated documents

In a JSON schema that is generated for an artefact, a class of another schema is a reference
to the artefact that publishes that schema. The two documents are generated apart from each
other : the reference is chosen by the schema of the class, and what the other document says is
decided by the roots of its own model. So the reference means the class exactly if that model
has one root, which is the class or has the same tree (`reference_describes_iff`).
-/

set_option autoImplicit false

namespace DataSpec

open JsonSchema StructuralModel

theorem Workspace.publication_eq_ok {w : Workspace} {a : Artefact} {p : Publication}
    (h : w.publication a = .ok p) : p.specifications = w.specifications ∧ p.artefact = a := by
  unfold Workspace.publication at h
  split at h
  · obtain rfl := Except.ok.inj h
    exact ⟨rfl, rfl⟩
  · simp at h

/-- A built model on which the passes have nothing to do is described as it is, with the
specifications that publish its classes. -/
theorem Workspace.structuralModel_of_finished {w : Workspace} {psm : Iri} {m : StructuralModel}
    (hbuild : build w.resources psm = .ok m) (h : m.Finished (w.conceptualFor psm)) :
    w.structuralModel psm = .ok (m.link w.specifications) := by
  refine Except.bind_eq_ok.mpr ⟨m, hbuild, ?_⟩
  rw [Pass.run_linked, Pass.run_standard_of_finished h]
  rfl

/-- Nothing is to be taken over where there is no conceptual model. -/
theorem Workspace.conceptualFor_of_empty (w : Workspace) (h : w.conceptual = .empty) (psm : Iri) :
    w.conceptualFor psm = .empty := by
  unfold Workspace.conceptualFor
  rw [h]
  cases w.specifications.owner? psm <;> rfl

/-- What publishes a class is an artefact of its schema in the format. -/
theorem published?_eq_some {s : Specifications} {f : Format} {c : StructuralClass} {b : Artefact}
    (h : s.published? f c = some b) : b.generator = f.name ∧ b.psm = some c.schema := by
  obtain ⟨d, -, hd⟩ := Option.bind_eq_some_iff.mp h
  have hfound := List.find?_some hd
  simpa only [Bool.and_eq_true, decide_eq_true_eq] using hfound

/-- A class that is described elsewhere has an artefact that publishes its schema. -/
theorem published?_of_elsewhere {p : Publication} {m : StructuralModel} {c : StructuralClass}
    {way : String} (h : elsewhere? p m c = some way) :
    ∃ b, p.specifications.published? .jsonSchema c = some b ∧
      b.generator = Format.name .jsonSchema ∧ b.psm = some c.schema ∧
      way = Text.relativePath p.artefact.publicUrl b.publicUrl := by
  obtain ⟨-, b, hb, hway⟩ := elsewhere?_eq_some_iff.mp h
  obtain ⟨hgenerator, hpsm⟩ := published?_eq_some hb
  exact ⟨b, hb, hgenerator, hpsm, hway⟩

/-! ## A directory -/

/-- Orders go to addresses, which are described in a directory whose root are persons. -/
def directoryResources : ResourceMap :=
  .ofResources [
    (Resource.new "orders" .structuralSchema).set .roots (.iriList ["order"]),
    (Resource.new "order" .structuralClass).set .parts (.iriList ["to"]),
    (Resource.new "to" .structuralAssociationEnd).set .range (.iriList ["address"]),
    ((Resource.new "directory" .structuralSchema).set .roots (.iriList ["person"])).set .parts
      (.iriList ["address"]),
    ((Resource.new "address" .structuralClass).set .schema (.iri "directory")).set .parts
      (.iriList ["street"]),
    Resource.new "street" .structuralAttribute,
    (Resource.new "person" .structuralClass).set .schema (.iri "directory")]

/-- A property without words about it. -/
def bareProperty (iri : Iri) (type : PropertyType) : StructuralProperty :=
  ⟨iri, none, none, .empty, .empty, none, none, [type], false, []⟩

/-- A class without words about it, in the model of a schema. -/
def bareClass (model iri schema : Iri) (properties : List StructuralProperty) :
    StructuralClass :=
  ⟨iri, none, none, .empty, .empty, none, false, [], [], properties, schema, none,
    decide (schema ≠ model)⟩

/-- Orders. -/
def orderClass : StructuralClass :=
  bareClass "orders" "order" "orders" [bareProperty "to" (.class_ "address")]

/-- Addresses, in the model of a schema. -/
def addressClass (model : Iri) : StructuralClass :=
  bareClass model "address" "directory" [bareProperty "street" (.datatype none)]

/-- Persons. -/
def personClass : StructuralClass := bareClass "directory" "person" "directory" []

/-- A model without words about it. -/
def bareModel (iri root : Iri) (classes : List StructuralClass) : StructuralModel where
  iri
  label := .empty
  description := .empty
  technicalLabel := none
  roots := [root]
  classes := .ofList (classes.map fun c => (c.iri, c))
  specification := none
  xmlNamespace := none
  xmlPrefix := none

/-- The model of orders. -/
def ordersModel : StructuralModel :=
  bareModel "orders" "order" [orderClass, addressClass "orders"]

/-- The model of the directory. -/
def directoryModel : StructuralModel :=
  bareModel "directory" "person" [personClass, addressClass "directory"]

/-- The passes have nothing to do in a model in which nothing is to be taken over, inherited or
replaced. -/
theorem finished_bareModel {iri root : Iri} {classes : List StructuralClass}
    (h : ∀ c ∈ classes, c.takenOver .empty = c ∧ c.parents = [] ∧
      ∀ p ∈ c.properties, p.dematerialize = false) :
    (bareModel iri root classes).Finished .empty := by
  have hmem : ∀ {k c}, (bareModel iri root classes).class? k = some c → c ∈ classes := by
    intro k c hk
    obtain ⟨c', hc', heq⟩ := List.mem_map.mp (SortedMap.mem_of_get?_ofList hk)
    obtain rfl := (Prod.mk.inj heq).2
    exact hc'
  exact ⟨⟨fun {k c} hk => (h c (hmem hk)).1 ▸ c.settled_takenOver .empty⟩,
    fun hk => (h _ (hmem hk)).2.1, fun hk => (h _ (hmem hk)).2.2⟩

theorem finished_ordersModel : ordersModel.Finished .empty := by
  refine finished_bareModel fun c hc => ?_
  rcases List.mem_pair.mp hc with rfl | rfl <;> exact ⟨rfl, rfl, by decide⟩

theorem finished_directoryModel : directoryModel.Finished .empty := by
  refine finished_bareModel fun c hc => ?_
  rcases List.mem_pair.mp hc with rfl | rfl <;> exact ⟨rfl, rfl, by decide⟩

theorem keys_directoryResources : directoryResources.keys =
    ["address", "directory", "order", "orders", "person", "street", "to"] := by decide

theorem build_orders : build directoryResources "orders" = .ok ordersModel := by
  have hvisited : directoryResources.explore (classOf directoryResources "orders") links
      ["order"] = .ok [("order", orderClass), ("address", addressClass "orders")] := by
    rw [ResourceMap.explore, keys_directoryResources]
    refine explore_cons_of_mem (by decide) (by decide) ?_
    exact explore_cons_of_mem (by decide) (by decide) explore_nil
  unfold build
  refine Except.bind_eq_ok.mpr ⟨_, rfl, Except.bind_eq_ok.mpr ⟨(), rfl, ?_⟩⟩
  refine Except.bind_eq_ok.mpr ⟨["order"], rfl, Except.bind_eq_ok.mpr ⟨[], rfl, ?_⟩⟩
  exact Except.bind_eq_ok.mpr ⟨_, hvisited,
    Except.bind_eq_ok.mpr ⟨(), ExtensionGraph.checkAcyclic_of_no_parents (by decide), rfl⟩⟩

theorem build_directory : build directoryResources "directory" = .ok directoryModel := by
  have hvisited : directoryResources.explore (classOf directoryResources "directory") links
      ["person", "address"] =
        .ok [("person", personClass), ("address", addressClass "directory")] := by
    rw [ResourceMap.explore, keys_directoryResources]
    refine explore_cons_of_mem (by decide) (by decide) ?_
    exact explore_cons_of_mem (by decide) (by decide) explore_nil
  unfold build
  refine Except.bind_eq_ok.mpr ⟨_, rfl, Except.bind_eq_ok.mpr ⟨(), rfl, ?_⟩⟩
  refine Except.bind_eq_ok.mpr ⟨["person"], rfl, Except.bind_eq_ok.mpr ⟨["address"], rfl, ?_⟩⟩
  exact Except.bind_eq_ok.mpr ⟨_, hvisited,
    Except.bind_eq_ok.mpr ⟨(), ExtensionGraph.checkAcyclic_of_no_parents (by decide), rfl⟩⟩

/-- The artefact of a schema. -/
def schemaArtefact (schema path : Iri) : Artefact :=
  ⟨path, "json-schema", path, path, some schema, [], .null⟩

/-- A specification that publishes one schema. -/
def publisher (iri schema path : Iri) : DataSpecification :=
  ⟨iri, .empty, none, [schema], [], [schemaArtefact schema path]⟩

/-- A shop that publishes orders, and a city that publishes the directory. -/
def cityWorkspace : Workspace where
  resources := directoryResources
  specifications := .ofList [publisher "shop" "orders" "orders.json",
    publisher "city" "directory" "directory.json"]
  conceptual := .empty
  config := .default
  format := .pretty

/-- What an artefact of this workspace is written for. -/
def cityPublication (schema path : Iri) : Publication :=
  ⟨cityWorkspace.specifications, schemaArtefact schema path, .default⟩

/-- The model of orders, with the specifications that publish its classes. -/
def shopModel : StructuralModel := ordersModel.link cityWorkspace.specifications

/-- The model of the directory, with the specifications that publish its classes. -/
def cityModel : StructuralModel := directoryModel.link cityWorkspace.specifications

theorem describedModel_orders :
    cityWorkspace.describedModel (schemaArtefact "orders" "orders.json") = .ok shopModel :=
  Workspace.structuralModel_of_finished build_orders
    (cityWorkspace.conceptualFor_of_empty rfl _ ▸ finished_ordersModel)

theorem describedModel_directory :
    cityWorkspace.describedModel (schemaArtefact "directory" "directory.json") = .ok cityModel :=
  Workspace.structuralModel_of_finished build_directory
    (cityWorkspace.conceptualFor_of_empty rfl _ ▸ finished_directoryModel)

/-- Addresses are described elsewhere than orders. -/
theorem elsewhere?_address : ∃ c, shopModel.class? "address" = some c ∧ c.isCodelist = false ∧
    elsewhere? (cityPublication "orders" "orders.json") shopModel c = some "directory.json" ∧
    cityWorkspace.specifications.published? .jsonSchema c =
      some (schemaArtefact "directory" "directory.json") :=
  ⟨{ addressClass "orders" with specification := some "city" }, by decide,
    by decide, by decide, rfl⟩

theorem treeOf_person (n : Nat) :
    treeOf (cityPublication "directory" "directory.json") cityModel ["person"] n =
      .ok (unfold .empty n (.plain (.object [] []))) := by
  have hperson : defineClass (cityPublication "directory" "directory.json") cityModel [] .empty
      "person" = .ok (.plain (.object [] []), .empty) := by
    rw [defineClass_eq]
    rfl
  exact treeOf_of_defineClass hperson n

theorem treeOf_address (n : Nat) :
    treeOf (cityPublication "directory" "directory.json") cityModel ["address"] n =
      .ok (unfold .empty n
        (.plain (.object [("street", .plain (.array (.plain .any) none none))] []))) := by
  have haddress : defineClass (cityPublication "directory" "directory.json") cityModel [] .empty
      "address" = .ok
        (.plain (.object [("street", .plain (.array (.plain .any) none none))] []), .empty) := by
    rw [defineClass_eq]
    rfl
  exact treeOf_of_defineClass haddress n

/-- An address has a street, and a person has nothing. -/
theorem treeOf_address_ne :
    treeOf (cityPublication "directory" "directory.json") cityModel ["address"] 1 ≠
      treeOf (cityPublication "directory" "directory.json") cityModel ["person"] 1 := by
  rw [treeOf_address, treeOf_person]
  simp [unfold, unfoldObject, Definition.expand, Shape.expand, Definition.plain]

/-- Both documents can be written. -/
theorem exists_draft_city : (∃ schema, ofModel (cityPublication "orders" "orders.json") shopModel =
      .ok schema) ∧
    ∃ schema s, draft (cityPublication "directory" "directory.json") cityModel =
      .ok (schema, s) := by
  obtain ⟨orders, horders, -⟩ := exists_ofModel (P := fun _ => true)
    (p := cityPublication "orders" "orders.json") (ending shopModel) 3 (by decide +kernel)
    (by decide +kernel)
  obtain ⟨directory, hdirectory, -⟩ := exists_ofModel (P := fun _ => true)
    (p := cityPublication "directory" "directory.json") (ending cityModel) 3 (by decide +kernel)
    (by decide +kernel)
  obtain ⟨⟨schema, s⟩, hdraft, -⟩ := Except.map_eq_ok.mp hdirectory
  exact ⟨⟨orders, horders⟩, schema, s, hdraft⟩

/-! ## What references mean -/

/-- Wherever a class that is described elsewhere is met in a document, it is a reference to the
artefact of its schema. What that artefact says is what is said there of the class itself if
this is the only root of the model, and in general it is, as a tree, if and only if the model
has one root whose tree is that of the class. -/
theorem reference_describes_iff {w : Workspace} {a : Artefact} {p : Publication}
    {m : StructuralModel} {key : Iri} {c : StructuralClass} {way : String}
    (hp : w.publication a = .ok p) (hc : m.class? key = some c) (hl : c.isCodelist = false)
    (he : elsewhere? p m c = some way) :
    (∀ stack s, defineClass p m stack s key = .ok (ofClass p c (.ref (.document way)), s)) ∧
    ∃ b, w.specifications.published? .jsonSchema c = some b ∧
      b.generator = Format.name .jsonSchema ∧ b.psm = some c.schema ∧
      way = Text.relativePath a.publicUrl b.publicUrl ∧
      ∀ m' p' schema s, w.describedModel b = .ok m' → w.publication b = .ok p' →
        draft p' m' = .ok (schema, s) →
        (m'.roots = [key] → defineClass p' m' [] .empty key = .ok (schema.root, s) ∧
          s.defs = schema.defs) ∧
        ((∀ n, treeOf p' m' [key] n = .ok (unfold schema.defs n schema.root)) ↔
          ∃ r, m'.roots = [r] ∧ ∀ n, treeOf p' m' [key] n = treeOf p' m' [r] n) := by
  obtain ⟨hspecifications, rfl⟩ := Workspace.publication_eq_ok hp
  obtain ⟨b, hb, hgenerator, hpsm, hway⟩ := published?_of_elsewhere he
  refine ⟨fun stack s => defineClass_of_elsewhere hc hl he, b, hspecifications ▸ hb, hgenerator,
    hpsm, hway, fun m' p' schema s _ _ hdraft => ⟨fun hroots => ?_, ?_⟩⟩
  · exact defineClass_root hdraft hroots
  · exact treeOf_eq_iff fun n => treeOf_roots hdraft n

/-- Orders refer to the directory for addresses. It does not describe them, for its root is a
person, who is not described as an address is. -/
theorem reference_describes_iff_address : ∃ c schema s,
    shopModel.class? "address" = some c ∧
    elsewhere? (cityPublication "orders" "orders.json") shopModel c = some "directory.json" ∧
    draft (cityPublication "directory" "directory.json") cityModel = .ok (schema, s) ∧
    (¬ ∀ n, treeOf (cityPublication "directory" "directory.json") cityModel ["address"] n =
        .ok (unfold schema.defs n schema.root)) ∧
      ¬ ∃ r, ["person"] = [r] ∧
        ∀ n, treeOf (cityPublication "directory" "directory.json") cityModel ["address"] n =
          treeOf (cityPublication "directory" "directory.json") cityModel [r] n := by
  obtain ⟨c, hc, hl, he, hb⟩ := elsewhere?_address
  obtain ⟨-, schema, s, hdraft⟩ := exists_draft_city
  obtain ⟨-, b, hb', -, -, -, hmeans⟩ := reference_describes_iff
    (w := cityWorkspace) (a := schemaArtefact "orders" "orders.json") rfl hc hl he
  obtain rfl := Option.some.inj (hb.symm.trans hb')
  have hdescribes := (hmeans _ _ _ _ describedModel_directory rfl hdraft).2
  have hother : ¬ ∃ r, ["person"] = [r] ∧
      ∀ n, treeOf (cityPublication "directory" "directory.json") cityModel ["address"] n =
        treeOf (cityPublication "directory" "directory.json") cityModel [r] n := by
    rintro ⟨r, ⟨rfl⟩, htrees⟩
    exact treeOf_address_ne (htrees 1)
  exact ⟨c, schema, s, hc, he, hdraft, fun htrees => hother (hdescribes.mp htrees), hother⟩

/-- A reference may lead to the description of another class. -/
theorem not_reference_describes :
    ¬ ∀ (w : Workspace) (a b : Artefact) (m m' : StructuralModel) (p p' : Publication)
      (key : Iri) (c : StructuralClass) (way : String) (schema : JsonSchema)
      (schema' : JsonSchema Reference) (s : Naming),
      w.describedModel a = .ok m → w.publication a = .ok p → ofModel p m = .ok schema →
      m.class? key = some c → c.isCodelist = false → elsewhere? p m c = some way →
      w.specifications.published? .jsonSchema c = some b →
      w.describedModel b = .ok m' → w.publication b = .ok p' → draft p' m' = .ok (schema', s) →
      ∀ n, treeOf p' m' [key] n = .ok (unfold schema'.defs n schema'.root) := by
  intro h
  obtain ⟨c, hc, hl, he, hb⟩ := elsewhere?_address
  obtain ⟨⟨schema, hschema⟩, schema', s, hdraft⟩ := exists_draft_city
  have haddress := h cityWorkspace _ _ _ _ _ (cityPublication "directory" "directory.json") _ c _
    schema schema' s describedModel_orders rfl hschema hc hl he hb describedModel_directory rfl
    hdraft 1
  have hperson := treeOf_roots hdraft 1
  exact treeOf_address_ne (haddress.trans hperson.symm)

end DataSpec
