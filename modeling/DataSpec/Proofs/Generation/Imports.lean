import DataSpec.Proofs.Generation.GroupReferences
import DataSpec.Proofs.XmlSchema.Imports

/-!
# Imports of generated documents

A document imports the schemas of other specifications, each under the namespace that its own
model has and at the place where its artefact is published. There is one import for each
specification : that of the schema whose class is met first. So a specification that publishes
one schema is imported as it is, but of two schemas of one specification the second one is taken
for the first (`imports_of_document`).
-/

set_option autoImplicit false

namespace DataSpec

open XmlSchema StructuralModel

variable {w : Workspace} {m : StructuralModel} {c d : StructuralClass} {b : Artefact}

/-- A schema of a specification is published by one artefact in each format. -/
theorem published?_congr {s : Specifications} {f : Format}
    (hspecification : c.specification = d.specification) (hschema : c.schema = d.schema) :
    s.published? f c = s.published? f d := by
  rw [Specifications.published?, Specifications.published?, hspecification, hschema]

theorem exists_specification_of_published? {s : Specifications} {f : Format}
    (h : s.published? f c = some b) : ∃ specification, c.specification = some specification := by
  obtain ⟨d, hd, -⟩ := Option.bind_eq_some_iff.mp h
  obtain ⟨specification, hspecification, -⟩ := Option.bind_eq_some_iff.mp hd
  exact ⟨specification, hspecification⟩

/-- The model of every published schema that may be met is at hand. -/
theorem Workspace.exists_of_importedModels {imported : SortedMap Iri StructuralModel}
    (h : w.importedModels m = .ok imported) (hc : c ∈ m.classes.values)
    (hf : m.isForeign c = true)
    (hb : (w.specifications.published? .xmlSchema c).isSome = true) :
    ∃ other, w.structuralModel c.schema = .ok other ∧ imported.get? c.schema = some other := by
  obtain ⟨models, hmodels, h⟩ := Except.bind_eq_ok.mp h
  obtain rfl := Except.ok.inj h
  have hmem : c.schema ∈ w.importedSchemas m := by
    refine List.mem_eraseDups.mpr (List.mem_map_of_mem (List.mem_filter.mpr ⟨hc, ?_⟩))
    rw [hf, hb]
    rfl
  have hentry : ∀ {psm other}, (psm, other) ∈ models → w.structuralModel psm = .ok other := by
    intro psm other hmem
    obtain ⟨psm', -, hpsm⟩ := Except.exists_of_mem_mapM hmodels hmem
    obtain ⟨other', hother, heq⟩ := Except.map_eq_ok.mp hpsm
    obtain ⟨rfl, rfl⟩ := Prod.mk.inj heq
    exact hother
  obtain ⟨⟨psm, other⟩, hlisted, hpsm⟩ := Except.exists_mem_of_mapM hmodels hmem
  obtain ⟨other', -, heq⟩ := Except.map_eq_ok.mp hpsm
  obtain ⟨rfl, rfl⟩ := Prod.mk.inj heq
  have hcontains : (SortedMap.ofList models).contains c.schema = true :=
    SortedMap.contains_ofList_iff.mpr (List.mem_map_of_mem hlisted)
  obtain ⟨other', hother'⟩ := SortedMap.contains_iff.mp hcontains
  exact ⟨other', hentry (SortedMap.mem_of_get?_ofList hother'), hother'⟩

/-! ## Two schemas of one city -/

/-- Orders go to places and come from people, both of which a city describes. -/
def tradeResources : ResourceMap :=
  .ofResources [
    (Resource.new "orders" .structuralSchema).set .roots (.iriList ["order"]),
    (Resource.new "order" .structuralClass).set .parts (.iriList ["to", "by"]),
    (Resource.new "to" .structuralAssociationEnd).set .range (.iriList ["address"]),
    (Resource.new "by" .structuralAssociationEnd).set .range (.iriList ["person"]),
    ((Resource.new "places" .structuralSchema).set .roots (.iriList ["address"])).set .xmlPrefix
      (.text "pl"),
    (Resource.new "address" .structuralClass).set .schema (.iri "places"),
    ((Resource.new "people" .structuralSchema).set .roots (.iriList ["person"])).set .xmlPrefix
      (.text "pe"),
    (Resource.new "person" .structuralClass).set .schema (.iri "people")]

/-- The class of orders. -/
def tradeClass : StructuralClass :=
  bareClass "orders" "order" "orders"
    [bareProperty "to" (.class_ "address"), bareProperty "by" (.class_ "person")]

/-- The model of orders. -/
def tradeModel : StructuralModel :=
  bareModel "orders" "order"
    [tradeClass, bareClass "orders" "address" "places" [], bareClass "orders" "person" "people" []]

/-- The model of a schema of the city, which has one class and a namespace of its own. -/
def townModel (schema root : Iri) (qualifier : String) : StructuralModel :=
  { bareModel schema root [bareClass schema root schema []] with xmlPrefix := some qualifier }

theorem finished_tradeModel : tradeModel.Finished .empty := by
  refine finished_bareModel fun c hc => ?_
  simp only [List.mem_cons, List.not_mem_nil, or_false] at hc
  rcases hc with rfl | rfl | rfl <;> exact ⟨rfl, rfl, by decide⟩

theorem finished_townModel (schema root : Iri) (qualifier : String) :
    (townModel schema root qualifier).Finished .empty := by
  have h : (bareModel schema root [bareClass schema root schema []]).Finished .empty := by
    refine finished_bareModel fun c hc => ?_
    obtain rfl := List.mem_singleton.mp hc
    exact ⟨rfl, rfl, List.forall_mem_nil _⟩
  exact ⟨⟨h.1.1⟩, h.2, h.3⟩

theorem keys_tradeResources : tradeResources.keys =
    ["address", "by", "order", "orders", "people", "person", "places", "to"] := by decide

theorem build_trade : build tradeResources "orders" = .ok tradeModel := by
  have hvisited : tradeResources.explore (classOf tradeResources "orders") links ["order"] =
      .ok [("order", tradeClass), ("address", bareClass "orders" "address" "places" []),
        ("person", bareClass "orders" "person" "people" [])] := by
    rw [ResourceMap.explore, keys_tradeResources]
    refine explore_cons_of_mem (by decide) (by decide) ?_
    refine explore_cons_of_mem (by decide) (by decide) ?_
    exact explore_cons_of_mem (by decide) (by decide) explore_nil
  unfold build
  refine Except.bind_eq_ok.mpr ⟨_, rfl, Except.bind_eq_ok.mpr ⟨(), rfl, ?_⟩⟩
  refine Except.bind_eq_ok.mpr ⟨["order"], rfl, Except.bind_eq_ok.mpr ⟨[], rfl, ?_⟩⟩
  exact Except.bind_eq_ok.mpr ⟨_, hvisited,
    Except.bind_eq_ok.mpr ⟨(), ExtensionGraph.checkAcyclic_of_no_parents (by decide), rfl⟩⟩

/-- The schemas of the city, with their roots and the short names of their namespaces. -/
def towns : List (Iri × Iri × String) := [("places", "address", "pl"), ("people", "person", "pe")]

theorem build_town {schema root : Iri} {qualifier : String}
    (h : (schema, root, qualifier) ∈ towns) :
    build tradeResources schema = .ok (townModel schema root qualifier) := by
  simp only [towns, List.mem_cons, List.not_mem_nil, or_false, Prod.mk.injEq] at h
  have hvisited : tradeResources.explore (classOf tradeResources schema) links [root] =
      .ok [(root, bareClass schema root schema [])] := by
    rw [ResourceMap.explore, keys_tradeResources]
    rcases h with ⟨rfl, rfl, rfl⟩ | ⟨rfl, rfl, rfl⟩ <;>
      exact explore_cons_of_mem (by decide) (by decide) explore_nil
  unfold build
  rcases h with ⟨rfl, rfl, rfl⟩ | ⟨rfl, rfl, rfl⟩
  all_goals
    refine Except.bind_eq_ok.mpr ⟨_, rfl, Except.bind_eq_ok.mpr ⟨(), rfl, ?_⟩⟩
    refine Except.bind_eq_ok.mpr ⟨_, rfl, Except.bind_eq_ok.mpr ⟨[], rfl, ?_⟩⟩
    exact Except.bind_eq_ok.mpr ⟨_, hvisited,
      Except.bind_eq_ok.mpr ⟨(), ExtensionGraph.checkAcyclic_of_no_parents (by decide), rfl⟩⟩

/-- The shop publishes orders, and the city publishes places and people apart from each other. -/
def tradeWorkspace : Workspace where
  resources := tradeResources
  specifications := .ofList [
    { publisher "shop" "orders" "orders.xsd" with
      artefacts := [xmlArtefact "orders" "orders.xsd"] },
    { publisher "city" "places" "places.xsd" with
      structuralSchemas := ["places", "people"]
      artefacts := [xmlArtefact "places" "places.xsd", xmlArtefact "people" "people.xsd"] }]
  conceptual := .empty
  config := .default
  format := .pretty

/-- What the schema of orders is made of. -/
def tradeSource : Source where
  publication := ⟨tradeWorkspace.specifications, xmlArtefact "orders" "orders.xsd", .default⟩
  model := tradeModel.link tradeWorkspace.specifications
  imported := .ofList [
    ("places", (townModel "places" "address" "pl").link tradeWorkspace.specifications),
    ("people", (townModel "people" "person" "pe").link tradeWorkspace.specifications)]

theorem describedModel_trade :
    tradeWorkspace.describedModel (xmlArtefact "orders" "orders.xsd") = .ok tradeSource.model :=
  Workspace.structuralModel_of_finished build_trade
    (tradeWorkspace.conceptualFor_of_empty rfl _ ▸ finished_tradeModel)

theorem structuralModel_town {schema root : Iri} {qualifier : String}
    (h : (schema, root, qualifier) ∈ towns) : tradeWorkspace.structuralModel schema =
      .ok ((townModel schema root qualifier).link tradeWorkspace.specifications) :=
  Workspace.structuralModel_of_finished (build_town h)
    (tradeWorkspace.conceptualFor_of_empty rfl _ ▸ finished_townModel _ _ _)

theorem importedModels_trade :
    tradeWorkspace.importedModels tradeSource.model = .ok tradeSource.imported := by
  have hschemas : tradeWorkspace.importedSchemas tradeSource.model = ["places", "people"] := by
    decide
  unfold Workspace.importedModels
  rw [hschemas, List.mapM_cons, structuralModel_town (List.mem_cons_self), List.mapM_cons,
    structuralModel_town (List.mem_cons_of_mem _ List.mem_cons_self)]
  rfl

/-- The document for orders can be written. -/
theorem exists_document_trade (s : DataSpecification) : ∃ schema, ofModel tradeSource = .ok schema ∧
    tradeWorkspace.document s (xmlArtefact "orders" "orders.xsd") .xmlSchema = .ok schema.render ∧
    schema.imports = [⟨none, some "pl", "places.xsd"⟩] := by
  obtain ⟨schema, hschema, himports⟩ := exists_ofModel (x := tradeSource)
    (P := fun schema => decide (schema.imports = [⟨none, some "pl", "places.xsd"⟩])) ending 4
    (by decide) (by decide +kernel)
  refine ⟨schema, hschema, ?_, of_decide_eq_true himports⟩
  refine Except.bind_eq_ok.mpr ⟨_, describedModel_trade, Except.bind_eq_ok.mpr ⟨_, rfl, ?_⟩⟩
  exact Except.bind_eq_ok.mpr ⟨_, importedModels_trade,
    Except.bind_eq_ok.mpr ⟨schema, hschema, rfl⟩⟩

/-- Places are met before people, whose schema is published as well. -/
theorem met_trade : ∃ address person : tradeSource.model.Member,
    met tradeSource.model = [] ++ address :: [person] ∧
    tradeWorkspace.specifications.published? .xmlSchema address.val =
      some (xmlArtefact "places" "places.xsd") ∧
    tradeWorkspace.specifications.published? .xmlSchema person.val =
      some (xmlArtefact "people" "people.xsd") ∧
    address.val.schema = "places" ∧ person.val.schema = "people" := by
  refine ⟨⟨{ bareClass "orders" "address" "places" [] with specification := some "city" },
    by decide⟩, ⟨{ bareClass "orders" "person" "people" [] with specification := some "city" },
    by decide⟩, by decide +kernel, rfl, rfl, rfl, rfl⟩

/-! ## What is imported -/

/-- In a generated document, a class of another published schema is a group in the namespace of an
imported schema. This is the schema of the class of the same specification that is met first,
and its import is that of the artefact that publishes it; so it is the schema of the class itself
if the two belong to one schema. -/
theorem imports_of_document {s : DataSpecification} {a : Artefact} {text : String}
    (h : w.document s a .xmlSchema = .ok text) :
    ∃ x schema, w.describedModel a = .ok x.model ∧ w.publication a = .ok x.publication ∧
      w.importedModels x.model = .ok x.imported ∧ ofModel x = .ok schema ∧ text = schema.render ∧
      ∀ (pre : List x.model.Member) (c : x.model.Member) (post : List x.model.Member)
        (b : Artefact), met x.model = pre ++ c :: post →
        w.specifications.published? .xmlSchema c.val = some b →
        ∃ (earlier : List x.model.Member) (first : x.model.Member)
          (later : List x.model.Member) (b' : Artefact) (other : StructuralModel) (i : Import),
          met x.model = earlier ++ first :: later ∧
          first.val.specification = c.val.specification ∧
          (∀ d ∈ earlier, d.val.specification = c.val.specification →
            w.specifications.published? .xmlSchema d.val = none) ∧
          w.specifications.published? .xmlSchema first.val = some b' ∧
          w.structuralModel first.val.schema = .ok other ∧
          i = ⟨other.xmlNamespace, other.xmlPrefix,
            Text.relativePath a.publicUrl b'.publicUrl⟩ ∧
          i ∈ schema.imports ∧
          (∀ stack s role,
            (∀ specification, s.imports.get? specification = x.firstImport? pre specification) →
            ∃ s', x.nameOf s c.val = (⟨i.qualifier, c.val.name⟩, s') ∧
              itemOf x stack s role c = .ok (.group ⟨i.qualifier, c.val.name⟩, s')) ∧
          (first.val.schema = c.val.schema → b' = b) := by
  obtain ⟨m, hm, h⟩ := Except.bind_eq_ok.mp h
  obtain ⟨p, hp, h⟩ := Except.bind_eq_ok.mp h
  obtain ⟨imported, himported, h⟩ := Except.bind_eq_ok.mp h
  obtain ⟨schema, hschema, h⟩ := Except.bind_eq_ok.mp h
  obtain rfl := Except.ok.inj h
  obtain ⟨hspecifications, rfl⟩ := Workspace.publication_eq_ok hp
  refine ⟨⟨p, m, imported⟩, schema, hm, hp, himported, hschema, rfl, ?_⟩
  intro pre c post b hmet hb
  have hreference : ∀ d, p.reference? .xmlSchema d =
      (w.specifications.published? .xmlSchema d).map fun b =>
        Text.relativePath p.artefact.publicUrl b.publicUrl := fun d => by
    rw [Publication.reference?, hspecifications]
  obtain ⟨specification, hspecification⟩ := exists_specification_of_published? hb
  obtain ⟨i, hi, hitem⟩ := itemOf_of_met hmet (foreign_met m c (by rw [hmet]; simp))
    hspecification (by simp [hreference, hb])
  obtain ⟨earlier, first, later, hfirst, himport, hearlier⟩ := List.findSome?_eq_some_iff.mp hi
  obtain ⟨hsame, location, hlocation, hi'⟩ := importAs?_eq_some himport
  obtain ⟨b', hb', rfl⟩ := Option.map_eq_some_iff.mp (hreference first.val ▸ hlocation)
  obtain ⟨other, hother, hget⟩ := Workspace.exists_of_importedModels himported first.property
    (foreign_met m first (by rw [hfirst]; simp)) (by rw [hb']; rfl)
  refine ⟨earlier, first, later, b', other, i, hfirst, hsame.trans hspecification.symm, ?_, hb',
    hother, ?_, (mem_imports_iff hschema).mpr ⟨specification, hi⟩, hitem, fun hschemas => ?_⟩
  · intro d hd hd'
    have hnone := hearlier d hd
    rw [Source.importAs?, if_pos (hd'.trans hspecification), hreference, Option.map_map] at hnone
    exact Option.map_eq_none_iff.mp hnone
  · rw [← hi', Source.importOf]
    simp only [hget, Option.bind_some]
  · rw [published?_congr (hsame.trans hspecification.symm) hschemas] at hb'
    exact Option.some.inj (hb'.symm.trans hb)

/-- The schema of places is imported for addresses, which are met first. -/
theorem imports_of_document_trade : ∃ (text : String) (schema : XmlSchema),
    tradeWorkspace.document (publisher "shop" "orders" "orders.xsd")
      (xmlArtefact "orders" "orders.xsd") .xmlSchema = .ok text ∧ text = schema.render ∧
    ∃ other, tradeWorkspace.structuralModel "places" = .ok other ∧
      (⟨other.xmlNamespace, other.xmlPrefix, Text.relativePath "orders.xsd" "places.xsd"⟩ :
        Import) ∈ schema.imports := by
  obtain ⟨_, -, hdocument, -⟩ := exists_document_trade (publisher "shop" "orders" "orders.xsd")
  obtain ⟨⟨p, m, imported⟩, schema, hm, -, -, -, hrender, hmet⟩ := imports_of_document hdocument
  obtain rfl := Except.ok.inj (describedModel_trade.symm.trans hm)
  obtain ⟨address, person, htrade, haddress, -, hplaces, -⟩ := met_trade
  obtain ⟨earlier, first, later, b', other, i, hfirst, -, hearlier, -, hother, rfl, hi, -, hsame⟩ :=
    hmet [] address [person] _ htrade haddress
  have hfirst : first = address := by
    rw [htrade] at hfirst
    rcases earlier with _ | ⟨d, earlier⟩
    · exact (List.cons.inj hfirst).1.symm
    · obtain ⟨rfl, -⟩ := List.cons.inj hfirst
      simp [haddress] at hearlier
  subst hfirst
  rw [hplaces] at hother
  rw [hsame rfl] at hi
  exact ⟨_, schema, hdocument, hrender, other, hother, hi⟩

/-- No other schema of the same specification is imported. -/
theorem not_imported_of_met :
    ¬ ∀ (w : Workspace) (s : DataSpecification) (a b : Artefact) (x : Source) (schema : XmlSchema)
      (c : x.model.Member) (other : StructuralModel),
      w.document s a .xmlSchema = .ok schema.render → w.describedModel a = .ok x.model →
      w.publication a = .ok x.publication → w.importedModels x.model = .ok x.imported →
      ofModel x = .ok schema → c ∈ met x.model →
      w.specifications.published? .xmlSchema c.val = some b →
      w.structuralModel c.val.schema = .ok other →
      (⟨other.xmlNamespace, other.xmlPrefix, Text.relativePath a.publicUrl b.publicUrl⟩ : Import) ∈
        schema.imports := by
  intro h
  obtain ⟨schema, hschema, hdocument, himports⟩ :=
    exists_document_trade (publisher "shop" "orders" "orders.xsd")
  obtain ⟨address, person, htrade, -, hperson, -, hpeople⟩ := met_trade
  have hother := structuralModel_town (List.mem_cons_of_mem _ List.mem_cons_self)
  rw [← hpeople] at hother
  have himported := h tradeWorkspace _ _ _ tradeSource schema person _ hdocument
    describedModel_trade rfl importedModels_trade hschema (by rw [htrade]; simp) hperson hother
  rw [himports, hpeople] at himported
  exact absurd himported (by decide)

end DataSpec
