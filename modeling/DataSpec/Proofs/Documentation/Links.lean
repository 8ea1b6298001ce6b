import DataSpec.Proofs.Documentation.Places

/-!
# Links in documentation

A link leads to one place if the thing that it leads to is described once. For links to the
conceptual part that is so unless two classes or properties have one identifier. A link to a
structural class is written whether or not the class is described, so it needs just one part
about the format whose model defines the class (`links_resolve_iff`), and dangles if the class
is of a schema that is not documented (`links_dangle`).
-/

set_option autoImplicit false

namespace DataSpec.Documentation

open Markdown

variable {d : Subject} {format : String} {c : StructuralClass} {xs : List Described}
  {doc : Document} {spec : DataSpecification} {p : Publication}
  {conceptual : Option ConceptualModel}

/-! ## How often a place comes -/

/-- The places of the classes that the part about a document describes. -/
def shownClasses (d : Subject) (x : Described) : List Place :=
  x.own.map (classPlace d x.artefact.generator)

theorem count_flatMap_eq_countP {α β : Type} [BEq β] {f : α → List β} {p : α → Bool} {b : β} :
    ∀ {l : List α}, (∀ a ∈ l, (f a).count b = if p a then 1 else 0) →
      (l.flatMap f).count b = l.countP p
  | [], _ => rfl
  | a :: l, h => by
    obtain ⟨ha, hl⟩ := List.forall_mem_cons.mp h
    rw [List.flatMap_cons, List.count_append, ha, count_flatMap_eq_countP hl, List.countP_cons,
      Nat.add_comm]

theorem format_of_mem_describedPlaces {x : Described} {a : Place} (h : a ∈ describedPlaces d x) :
    a.format = some x.artefact.generator := by
  rcases List.mem_cons.mp h with rfl | h
  · rfl
  · obtain ⟨c, -, hc⟩ := List.mem_flatMap.mp h
    rcases List.mem_cons.mp hc with rfl | hc
    · rfl
    · obtain ⟨q, -, rfl⟩ := List.mem_map.mp hc
      rfl

/-- A conceptual thing has as many places as are described under its identifier. -/
theorem count_conceptualPlace (xs : List Described) {iri : Iri} {a : Place}
    (h : (conceptualPlaces d).get? iri = some a) :
    (places d xs).count a = (conceptualIris d).count iri := by
  obtain ⟨hformat, hthing⟩ := of_get?_conceptualPlaces h
  have hdescribed : (xs.flatMap (describedPlaces d)).count a = 0 := by
    rw [List.count_eq_zero]
    intro hmem
    obtain ⟨x, -, hx⟩ := List.mem_flatMap.mp hmem
    rw [format_of_mem_describedPlaces hx] at hformat
    exact Option.some_ne_none _ hformat
  have hiri : ∀ iri', (conceptualPlaces d).get? iri' = some a ↔ iri' = iri := by
    refine fun iri' => ⟨fun h' => ?_, fun heq => heq ▸ h⟩
    have hthing' := (of_get?_conceptualPlaces h').2
    grind
  rw [places, List.count_append, hdescribed, Nat.add_zero, List.count_filterMap, List.count]
  refine List.countP_congr fun iri' _ => ?_
  simp [hiri]

/-- A part has one place for each class that it describes. -/
theorem count_describedPlaces {x : Described}
    (hkeyed : ∀ {k c}, x.model.class? k = some c → c.iri = k) :
    (describedPlaces d x).count (classPlace d format c) =
      if classPlace d format c ∈ shownClasses d x then 1 else 0 := by
  have hnodup : (shownClasses d x).Nodup := by
    have hiris : (x.own.map StructuralClass.iri).Nodup := by
      refine List.Nodup.sublist (List.filter_sublist.map _) ?_
      rw [StructuralModel.map_iri_values hkeyed]
      exact SortedMap.nodup_keys _
    refine List.Nodup.of_map Place.thing ?_
    rw [shownClasses, List.map_map]
    have hmap := hiris.map (f := Thing.class_) fun _ _ => Thing.class_.inj
    rwa [List.map_map] at hmap
  have hrows : ∀ c' ∈ x.own, (classPlace d x.artefact.generator c' ::
      c'.properties.map (rowPlace d x.artefact.generator c')).count (classPlace d format c) =
        if classPlace d x.artefact.generator c' == classPlace d format c then 1 else 0 := by
    intro c' _
    have hnot : classPlace d format c ∉ c'.properties.map (rowPlace d x.artefact.generator c') := by
      simp [classPlace, rowPlace]
    rw [List.count_cons, List.count_eq_zero_of_not_mem hnot, Nat.zero_add]
  have hschema : Place.mk (some x.artefact.generator) (d.modelLabel x.model)
      (.schema x.artefact.iri) ≠ classPlace d format c := by
    simp [classPlace]
  rw [← hnodup.count, describedPlaces, List.count_cons_of_ne hschema,
    count_flatMap_eq_countP hrows, shownClasses, List.count, List.countP_map]
  rfl

theorem count_classPlace
    (hkeyed : ∀ x ∈ xs, ∀ {k c}, x.model.class? k = some c → c.iri = k) :
    (places d xs).count (classPlace d format c) =
      xs.countP fun x => decide (classPlace d format c ∈ shownClasses d x) := by
  have hconceptual : ((conceptualIris d).filterMap (conceptualPlaces d).get?).count
      (classPlace d format c) = 0 := by
    rw [List.count_eq_zero]
    intro hmem
    obtain ⟨iri, -, hiri⟩ := List.mem_filterMap.mp hmem
    exact absurd (of_get?_conceptualPlaces hiri).1 (Option.some_ne_none _)
  rw [places, List.count_append, hconceptual, Nat.zero_add]
  refine count_flatMap_eq_countP fun x hx => ?_
  simp [count_describedPlaces (hkeyed x hx)]

/-- If the anchors of linked places are those of no others, there are as many of an anchor as
there are of its place. -/
theorem count_anchor {a : Place} {title : String} {l : List Place}
    (htold : ∀ b ∈ l, a.anchor title = b.anchor title → a = b) :
    (l.map (Place.anchor title)).count (a.anchor title) = l.count a := by
  rw [List.count, List.countP_map, List.count]
  refine List.countP_congr fun b hb => ?_
  simp only [Function.comp_apply, beq_iff_eq]
  exact ⟨fun heq => (htold b hb heq.symm).symm, fun heq => heq ▸ rfl⟩

theorem mem_places_of_mentioned {iri : Iri} {a : Place}
    (h : (conceptualPlaces d).get? iri = some a) : a ∈ places d xs := by
  have hiri : iri ∈ conceptualIris d :=
    contains_conceptualPlaces.mp (SortedMap.contains_iff.mpr ⟨a, h⟩)
  exact List.mem_append_left _ (List.mem_filterMap.mpr ⟨iri, hiri, h⟩)

theorem mem_places_of_shown {x : Described} {a : Place} (hx : x ∈ xs) (h : a ∈ shownClasses d x) :
    a ∈ places d xs := by
  obtain ⟨c, hc, rfl⟩ := List.mem_map.mp h
  refine List.mem_append_right _ (List.mem_flatMap.mpr ⟨x, hx, List.mem_cons_of_mem _ ?_⟩)
  exact List.mem_flatMap.mpr ⟨c, hc, List.mem_cons_self⟩

/-- Each linked place comes once if each conceptual thing with a link is described once, and
each class with a link by one part about the format. -/
theorem count_linkedPlaces_iff
    (hkeyed : ∀ x ∈ xs, ∀ {k c}, x.model.class? k = some c → c.iri = k) :
    (∀ a ∈ linkedPlaces d xs, (places d xs).count a = 1) ↔
      (∀ iri ∈ mentioned d xs, (conceptualIris d).count iri ≤ 1) ∧
      ∀ x ∈ xs, ∀ c ∈ x.linked,
        xs.countP (fun y => classPlace d x.artefact.generator c ∈ shownClasses d y) = 1 := by
  rw [linkedPlaces, List.forall_mem_append]
  refine and_congr ⟨fun h iri hiri => ?_, fun h a ha => ?_⟩
    ⟨fun h x hx c hc => ?_, fun h a ha => ?_⟩
  · by_cases hmem : iri ∈ conceptualIris d
    · obtain ⟨a, ha⟩ := SortedMap.contains_iff.mp (contains_conceptualPlaces.mpr hmem)
      rw [← count_conceptualPlace xs ha]
      exact Nat.le_of_eq (h a (List.mem_filterMap.mpr ⟨iri, hiri, ha⟩))
    · rw [List.count_eq_zero_of_not_mem hmem]
      exact Nat.zero_le 1
  · obtain ⟨iri, hiri, ha⟩ := List.mem_filterMap.mp ha
    have hpos : 0 < (places d xs).count a := List.count_pos_iff.mpr (mem_places_of_mentioned ha)
    have hle := h iri hiri
    rw [← count_conceptualPlace xs ha] at hle
    omega
  · rw [← count_classPlace hkeyed]
    exact h _ (List.mem_flatMap.mpr ⟨x, hx, List.mem_map_of_mem hc⟩)
  · obtain ⟨x, hx, ha⟩ := List.mem_flatMap.mp ha
    obtain ⟨c, hc, rfl⟩ := List.mem_map.mp ha
    rw [count_classPlace hkeyed]
    exact h x hx c hc

/-- The anchors of the documentation are those of its places, and its links lead to the linked
places, or to concepts and documents. Conceptual classes and properties with a link have a
place, and so has a class with a link that some part about the format describes.

If concepts and documents are elsewhere, and the anchors of linked places are those of no other
places, all links lead to one place if and only if no conceptual class or property with a link
is described twice, and each class with a link is described by one part about the format. -/
theorem links_resolve_iff (hd : d = .make spec p conceptual) (h : document d xs = .ok doc) :
    doc.anchors = (places d xs).map (Place.anchor d.title) ∧
    (∀ name, name ∈ doc.targets ↔ name ∈ (linkedPlaces d xs).map (Place.anchor d.title) ∨
      ∃ t ∈ elsewhere d xs, Text.after? t "#" = some name) ∧
    (∀ iri ∈ mentioned d xs, ∀ a, (conceptualPlaces d).get? iri = some a → a ∈ places d xs) ∧
    (∀ x ∈ xs, ∀ c ∈ x.linked, ∀ y ∈ xs, classPlace d x.artefact.generator c ∈ shownClasses d y →
      classPlace d x.artefact.generator c ∈ places d xs) ∧
    ((∀ t ∈ elsewhere d xs, Text.after? t "#" = none) →
      (∀ a ∈ linkedPlaces d xs, ∀ b ∈ places d xs, a.anchor d.title = b.anchor d.title → a = b) →
      (∀ x ∈ xs, ∀ {k c}, x.model.class? k = some c → c.iri = k) →
      (doc.LinksResolve ↔
        (∀ iri ∈ mentioned d xs, (conceptualIris d).count iri ≤ 1) ∧
        ∀ x ∈ xs, ∀ c ∈ x.linked,
          xs.countP (fun y => classPlace d x.artefact.generator c ∈ shownClasses d y) = 1)) := by
  refine ⟨anchors_eq hd h, fun _ => mem_targets_iff hd h, fun _ _ _ => mem_places_of_mentioned,
    fun _ _ _ _ y hy => mem_places_of_shown hy, fun hplain htold hkeyed => ?_⟩
  rw [← count_linkedPlaces_iff hkeyed, Document.LinksResolve, anchors_eq hd h]
  constructor
  · intro hall a ha
    rw [← count_anchor (htold a ha)]
    exact hall _ ((mem_targets_iff hd h).mpr (Or.inl (List.mem_map_of_mem ha)))
  · intro hall name hname
    rcases (mem_targets_iff hd h).mp hname with hname | ⟨t, ht, hname⟩
    · obtain ⟨a, ha, rfl⟩ := List.mem_map.mp hname
      rw [count_anchor (htold a ha), hall a ha]
    · rw [hplain t ht] at hname
      exact absurd hname (Option.some_ne_none _).symm

/-! ## A small document -/

/-- The conceptual class of nodes. -/
def nodeModel : ConceptualModel :=
  ⟨none, .empty, .empty, .ofList [("node", ⟨"node", none, .empty, .empty, false, [], []⟩)]⟩

/-- The class of the nodes of a chain, which is of a schema. -/
def nodeClass (schema : Iri) : StructuralClass := { linkClass with pim := some "node", schema }

/-- A model of chains of nodes. -/
def nodeLinkModel (schema : Iri) : StructuralModel :=
  { chainModel with classes := .ofList [("link", nodeClass schema)] }

/-- The documentation of a specification of nodes. -/
def nodeManual : Subject :=
  .make ⟨"nodes", .empty, none, ["schema"], [], []⟩
    ⟨.empty, ⟨"manual", "documentation", "nodes/index.md", "", none, [], .obj []⟩, .default⟩
    (some nodeModel)

/-- A document about chains of nodes. -/
def nodeDocument (schema : Iri) : Described :=
  ⟨⟨"json", "json-schema", "nodes/schema.json", "", some "schema", [], .obj []⟩,
    nodeLinkModel schema⟩

theorem exists_document_nodes (schema : Iri)
    (h : (document nodeManual [nodeDocument schema]).toOption.isSome = true) :
    ∃ doc, document nodeManual [nodeDocument schema] = .ok doc := by
  cases hdoc : document nodeManual [nodeDocument schema] with
  | error e => simp [hdoc, Except.toOption] at h
  | ok doc => exact ⟨doc, rfl⟩

theorem keyed_nodeLinkModel (schema : Iri) {k : Iri}
    (h : (nodeLinkModel schema).class? k = some c) : c.iri = k := by
  have hmem := SortedMap.mem_of_get?_ofList h
  simp only [List.mem_singleton, Prod.mk.injEq] at hmem
  obtain ⟨rfl, rfl⟩ := hmem
  rfl

/-- The places of such a document that describes the nodes have different anchors. -/
theorem eq_of_anchor_nodes {a b : Place} (ha : a ∈ places nodeManual [nodeDocument "schema"])
    (hb : b ∈ places nodeManual [nodeDocument "schema"])
    (h : a.anchor nodeManual.title = b.anchor nodeManual.title) : a = b := by
  have hreadable : (places nodeManual [nodeDocument "schema"]).map
      (Place.readable nodeManual.title) = ["conceptual-nodes-node", "json-schema-nodes-schema",
        "json-schema-nodes-link", "json-schema-nodes-link-next"] := by decide +kernel
  have hnodup : ((places nodeManual [nodeDocument "schema"]).map
      (Place.readable nodeManual.title)).Nodup := by
    rw [hreadable]
    decide
  exact List.inj_on_of_nodup_map hnodup ha hb (Place.readable_eq h)

/-- A document that links to the nodes of a chain, and describes them. -/
theorem links_resolve_nodes :
    ∃ doc, document nodeManual [nodeDocument "schema"] = .ok doc ∧
      (classPlace nodeManual "json-schema" (nodeClass "schema")).anchor nodeManual.title ∈
        doc.targets ∧ doc.LinksResolve := by
  obtain ⟨doc, hdoc⟩ := exists_document_nodes "schema" (by decide +kernel)
  obtain ⟨-, htargets, -, -, hiff⟩ := links_resolve_iff rfl hdoc
  have hlinked : classPlace nodeManual "json-schema" (nodeClass "schema") ∈
      linkedPlaces nodeManual [nodeDocument "schema"] := by decide +kernel
  have hplaces : ∀ a ∈ linkedPlaces nodeManual [nodeDocument "schema"],
      a ∈ places nodeManual [nodeDocument "schema"] := by decide +kernel
  refine ⟨doc, hdoc, (htargets _).mpr (Or.inl (List.mem_map_of_mem hlinked)),
    (hiff (by decide +kernel) ?_ ?_).mpr (by decide +kernel)⟩
  · exact fun a ha b hb => eq_of_anchor_nodes (hplaces a ha) hb
  · intro x hx
    obtain rfl := List.mem_singleton.mp hx
    exact keyed_nodeLinkModel "schema"

/-- A link to a class of another schema, which the document does not describe, leads nowhere. -/
theorem links_dangle :
    ¬ ∀ (spec : DataSpecification) (p : Publication) (conceptual : Option ConceptualModel)
      (xs : List Described) (doc : Document), document (.make spec p conceptual) xs = .ok doc →
      doc.LinksResolve := by
  intro h
  obtain ⟨doc, hdoc⟩ := exists_document_nodes "other" (by decide +kernel)
  have hlinked : classPlace nodeManual "json-schema" (nodeClass "other") ∈
      linkedPlaces nodeManual [nodeDocument "other"] := by decide +kernel
  have hcount := h _ _ _ _ doc hdoc _ ((mem_targets_iff rfl hdoc).mpr
    (Or.inl (List.mem_map_of_mem (f := Place.anchor nodeManual.title) hlinked)))
  have hmem := List.count_pos_iff.mp (hcount.symm ▸ Nat.one_pos)
  rw [anchors_eq rfl hdoc] at hmem
  obtain ⟨a, ha, hsame⟩ := List.mem_map.mp hmem
  -- The page without the nodes has the places of the other page but for theirs.
  have hnode : classPlace nodeManual "json-schema" (nodeClass "other") ∈
      places nodeManual [nodeDocument "schema"] := by decide +kernel
  have hother : ∀ a ∈ places nodeManual [nodeDocument "other"],
      a ∈ places nodeManual [nodeDocument "schema"] ∧
        a ≠ classPlace nodeManual "json-schema" (nodeClass "other") := by decide +kernel
  exact (hother a ha).2 (eq_of_anchor_nodes (hother a ha).1 hnode hsame)

end DataSpec.Documentation
