import DataSpec.Proofs.Generation.References
import DataSpec.Proofs.XmlSchema.Groups

/-!
# References to groups of other documents

In an XML schema that is generated for an artefact, a class of another schema is a reference to a
group of its name, in the namespace of the schema that is imported for it. Whether the document
that publishes that schema has this group is decided by its own settings, and by where the class
is met from the roots of its own model (`group_reference_defined_iff`). With the usual settings no
document has any groups.
-/

set_option autoImplicit false

namespace DataSpec

open XmlSchema StructuralModel

/-- A class of a published schema is imported. -/
theorem importFor?_of_published? {x : Source} {s : Parts} {c : StructuralClass} {b : Artefact}
    (hb : x.publication.specifications.published? .xmlSchema c = some b) :
    ∃ specification i s', c.specification = some specification ∧
      s'.imports.get? specification = some i ∧ x.importFor? s c = some (i, s') := by
  obtain ⟨d, hd, -⟩ := Option.bind_eq_some_iff.mp hb
  obtain ⟨specification, hspecification, -⟩ := Option.bind_eq_some_iff.mp hd
  rw [Source.importFor?, hspecification, Option.bind_some]
  cases hi : s.imports.get? specification with
  | some i => exact ⟨specification, i, s, rfl, hi, rfl⟩
  | none =>
    rw [Publication.reference?, hb]
    exact ⟨specification, _, _, rfl, by simp [SortedMap.get?_insert], rfl⟩

/-- A class of another schema that is published is written as the group of its name. -/
theorem itemOf_of_published? {x : Source} {c : x.model.Member} {b : Artefact}
    (hf : x.model.isForeign c.val = true)
    (hb : x.publication.specifications.published? .xmlSchema c.val = some b)
    (stack : List String) (s : Parts) (role : Role) :
    ∃ specification i s', c.val.specification = some specification ∧
      s'.imports.get? specification = some i ∧
      itemOf x stack s role c = .ok (.group ⟨i.qualifier, c.val.name⟩, s') := by
  obtain ⟨specification, i, s', hspecification, hi, himport⟩ := importFor?_of_published? (s := s) hb
  refine ⟨specification, i, s', hspecification, hi, ?_⟩
  rw [itemOf, if_pos hf, Source.nameOf, if_pos hf, himport]

/-! ## A directory without groups -/

/-- The XML schema of a structural schema. -/
def xmlArtefact (schema path : Iri) : Artefact :=
  { schemaArtefact schema path with generator := "xml-schema" }

/-- The shop and the city, which publish XML schemas. -/
def xmlWorkspace : Workspace :=
  { cityWorkspace with
    specifications := .ofList [
      { publisher "shop" "orders" "orders.xsd" with
        artefacts := [xmlArtefact "orders" "orders.xsd"] },
      { publisher "city" "directory" "directory.xsd" with
        artefacts := [xmlArtefact "directory" "directory.xsd"] }] }

/-- The model of the directory, with the specifications that publish its classes. -/
def xmlCityModel : StructuralModel := directoryModel.link xmlWorkspace.specifications

/-- The model of orders, with the specifications that publish its classes. -/
def xmlShopModel : StructuralModel := ordersModel.link xmlWorkspace.specifications

/-- What the schema of the directory is made of. -/
def xmlCitySource : Source :=
  ⟨⟨xmlWorkspace.specifications, xmlArtefact "directory" "directory.xsd", .default⟩, xmlCityModel,
    .empty⟩

/-- What the schema of orders is made of. -/
def xmlShopSource : Source :=
  ⟨⟨xmlWorkspace.specifications, xmlArtefact "orders" "orders.xsd", .default⟩, xmlShopModel,
    .ofList [("directory", xmlCityModel)]⟩

theorem describedModel_xmlShop :
    xmlWorkspace.describedModel (xmlArtefact "orders" "orders.xsd") = .ok xmlShopModel :=
  Workspace.structuralModel_of_finished build_orders
    (xmlWorkspace.conceptualFor_of_empty rfl _ ▸ finished_ordersModel)

theorem describedModel_xmlCity :
    xmlWorkspace.describedModel (xmlArtefact "directory" "directory.xsd") = .ok xmlCityModel :=
  Workspace.structuralModel_of_finished build_directory
    (xmlWorkspace.conceptualFor_of_empty rfl _ ▸ finished_directoryModel)

theorem importedModels_xmlShop :
    xmlWorkspace.importedModels xmlShopModel = .ok xmlShopSource.imported := by
  have hschemas : xmlWorkspace.importedSchemas xmlShopModel = ["directory"] := by decide
  have hdirectory : xmlWorkspace.structuralModel "directory" = .ok xmlCityModel :=
    describedModel_xmlCity
  unfold Workspace.importedModels
  rw [hschemas, List.mapM_cons, hdirectory]
  rfl

theorem importedModels_xmlCity :
    xmlWorkspace.importedModels xmlCityModel = .ok xmlCitySource.imported := by
  have hschemas : xmlWorkspace.importedSchemas xmlCityModel = [] := by decide
  unfold Workspace.importedModels
  rw [hschemas]
  rfl

/-- Addresses belong to the directory, which is published. -/
theorem published?_xmlAddress : ∃ c : xmlShopModel.Member,
    c.val.name = "address" ∧ c.val.specification = some "city" ∧
    xmlShopModel.isForeign c.val = true ∧
    xmlWorkspace.specifications.published? .xmlSchema c.val =
      some (xmlArtefact "directory" "directory.xsd") :=
  ⟨⟨{ addressClass "orders" with specification := some "city" }, by decide⟩,
    by decide, rfl, by decide, rfl⟩

/-- The schema of orders refers to the group of addresses. -/
theorem exists_ofModel_xmlShop : ∃ schema, ofModel xmlShopSource = .ok schema ∧
    .group ⟨none, "address"⟩ ∈ schema.uses := by
  obtain ⟨schema, hschema, huses⟩ := exists_ofModel (x := xmlShopSource)
    (P := fun schema => decide (.group ⟨none, "address"⟩ ∈ schema.uses)) ending 3
    (by decide) (by decide +kernel)
  exact ⟨schema, hschema, of_decide_eq_true huses⟩

/-- The schema of the directory has no groups. -/
theorem exists_ofModel_xmlCity : ∃ schema, ofModel xmlCitySource = .ok schema ∧
    schema.groups.map Group.name = [] := by
  obtain ⟨schema, hschema, hgroups⟩ := exists_ofModel (x := xmlCitySource)
    (P := fun schema => decide (schema.groups.map Group.name = [])) ending 3
    (by decide) (by decide)
  exact ⟨schema, hschema, of_decide_eq_true hgroups⟩

/-! ## What references need -/

/-- Wherever a class of another schema is met that is published, it is a reference to the group of
its name, in the namespace that is imported for its specification. The schema that is made for the
artefact which publishes it has this group if and only if a root class of its model has this name
and roots become groups, or other classes become groups and one of this name is written out as a
value on the way from a root. -/
theorem group_reference_defined_iff {w : Workspace} {a b : Artefact} {p : Publication}
    {m : StructuralModel} {c : m.Member} (imported : SortedMap Iri StructuralModel)
    (hp : w.publication a = .ok p) (hf : m.isForeign c.val = true)
    (hb : w.specifications.published? .xmlSchema c.val = some b) :
    (∀ stack s role, ∃ specification i s', c.val.specification = some specification ∧
      s'.imports.get? specification = some i ∧
      itemOf ⟨p, m, imported⟩ stack s role c = .ok (.group ⟨i.qualifier, c.val.name⟩, s')) ∧
    b.generator = Format.name .xmlSchema ∧ b.psm = some c.val.schema ∧
    ∀ m' p' imported' schema', w.describedModel b = .ok m' → w.publication b = .ok p' →
      w.importedModels m' = .ok imported' → ofModel ⟨p', m', imported'⟩ = .ok schema' →
      ((∃ g ∈ schema'.groups, g.name = c.val.name) ↔
        ∃ iri ∈ m'.roots, ∃ root, m'.member iri = .ok root ∧
          (p'.config.rootClass.extractGroup = true ∧ c.val.name = root.val.name ∨
            p'.config.otherClasses.extractGroup = true ∧
              Names m' [rangeKey [root.val]] .root root c.val.name)) := by
  obtain ⟨hspecifications, rfl⟩ := Workspace.publication_eq_ok hp
  obtain ⟨hgenerator, hpsm⟩ := published?_eq_some hb
  have hpublished : p.specifications.published? .xmlSchema c.val = some b := by
    rw [hspecifications]
    exact hb
  refine ⟨itemOf_of_published? (x := ⟨p, m, imported⟩) hf hpublished, hgenerator, hpsm, ?_⟩
  intro m' p' imported' schema' _ _ _ hschema'
  exact group_ofModel_iff hschema'

/-- Orders are written with a group for addresses. The directory has no such group, for neither are
addresses a root of its model nor do the usual settings make groups of other classes. -/
theorem group_reference_defined_iff_address : ∃ (c : xmlShopModel.Member) (schema : XmlSchema),
    c.val.name = "address" ∧ xmlShopModel.isForeign c.val = true ∧
    ofModel xmlCitySource = .ok schema ∧
    (∀ stack s role, ∃ i s', s'.imports.get? "city" = some i ∧
      itemOf xmlShopSource stack s role c = .ok (.group ⟨i.qualifier, "address"⟩, s')) ∧
    (¬ ∃ g ∈ schema.groups, g.name = "address") ∧
      ¬ ∃ iri ∈ xmlCityModel.roots, ∃ root, xmlCityModel.member iri = .ok root ∧
        NamedAt xmlCitySource root "address" := by
  obtain ⟨c, hname, hspecification, hf, hb⟩ := published?_xmlAddress
  obtain ⟨schema, hschema, hgroups⟩ := exists_ofModel_xmlCity
  have hpublication : xmlWorkspace.publication (xmlArtefact "orders" "orders.xsd") =
      .ok xmlShopSource.publication := rfl
  obtain ⟨hitem, -, -, hdefined⟩ := group_reference_defined_iff xmlShopSource.imported
    hpublication hf hb
  have hiff := hdefined xmlCityModel _ xmlCitySource.imported schema describedModel_xmlCity rfl
    importedModels_xmlCity hschema
  rw [hname] at hiff
  have hnone : ¬ ∃ g ∈ schema.groups, g.name = "address" := by
    simp [List.map_eq_nil_iff.mp hgroups]
  refine ⟨c, schema, hname, hf, hschema, fun stack s role => ?_, hnone, hiff.not.mp hnone⟩
  obtain ⟨specification, i, s', hsome, hi, heq⟩ := hitem stack s role
  obtain rfl := Option.some.inj (hspecification.symm.trans hsome)
  exact ⟨i, s', hi, hname ▸ heq⟩

/-- A reference may be to a group that the other document does not have. -/
theorem not_group_reference_defined :
    ¬ ∀ (w : Workspace) (a b : Artefact) (m m' : StructuralModel) (p p' : Publication)
      (imported imported' : SortedMap Iri StructuralModel) (c : StructuralClass)
      (q : Option String) (schema schema' : XmlSchema),
      w.describedModel a = .ok m → w.publication a = .ok p → w.importedModels m = .ok imported →
      ofModel ⟨p, m, imported⟩ = .ok schema → c ∈ m.classes.values → m.isForeign c = true →
      w.specifications.published? .xmlSchema c = some b → .group ⟨q, c.name⟩ ∈ schema.uses →
      w.describedModel b = .ok m' → w.publication b = .ok p' →
      w.importedModels m' = .ok imported' → ofModel ⟨p', m', imported'⟩ = .ok schema' →
      ∃ g ∈ schema'.groups, g.name = c.name := by
  intro h
  obtain ⟨c, hname, -, hf, hb⟩ := published?_xmlAddress
  obtain ⟨orders, horders, huses⟩ := exists_ofModel_xmlShop
  obtain ⟨directory, hdirectory, hgroups⟩ := exists_ofModel_xmlCity
  obtain ⟨g, hg, -⟩ := h xmlWorkspace _ _ _ _ _ _ _ _ c.val none orders directory
    describedModel_xmlShop rfl importedModels_xmlShop horders c.property hf hb (hname ▸ huses)
    describedModel_xmlCity rfl importedModels_xmlCity hdirectory
  rw [List.map_eq_nil_iff.mp hgroups] at hg
  exact List.not_mem_nil hg

end DataSpec
