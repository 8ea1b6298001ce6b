import DataSpec.Documentation.Basic
import DataSpec.Proofs.Markdown.Marks
import DataSpec.Proofs.Structural.Closed
import DataSpec.Proofs.Text.Digests

/-!
# Places in documentation

Each anchor of the documentation is made for a `Place` : a thing that a part of the document
shows under a label. The anchors are those of `places` (`anchors_eq`), in order, and the links
within the document lead to `linkedPlaces` (`mem_targets_iff`), apart from those to concepts and
documents whose addresses begin with a hash.

A class of another schema is linked to but has no place, because a part describes only the
classes that its model defines (`Described.own`).
-/

set_option autoImplicit false

namespace DataSpec.Documentation

open Markdown

variable {d : Subject} {f : Inline → Option String} {format : String} {m : StructuralModel}
  {c : StructuralClass} {s : Section}

/-! ## Places -/

/-- What the documentation has an anchor for. -/
inductive Thing where
  | schema (iri : Iri)
  | class_ (iri : Iri)
  | property (owner iri : Iri)
deriving DecidableEq

/-- What identifies a thing in its anchor. -/
def Thing.key : Thing → String
  | .schema iri | .class_ iri => iri
  | .property owner iri => propertyKey owner iri

/-- A thing as a part of the documentation shows it. -/
structure Place where
  /-- The format that the part is about, none for the conceptual part. -/
  format : Option String
  label : String
  thing : Thing
deriving DecidableEq

/-- The anchor of a place in a document with a title. -/
def Place.anchor (title : String) (a : Place) : String :=
  Anchor.make title (a.format.getD conceptualFormat) a.label a.thing.key

/-- The part of the anchor of a place that comes from labels. -/
def Place.readable (title : String) (a : Place) : String :=
  Anchor.sanitize (a.format.getD conceptualFormat ++ "-" ++ title ++ "-" ++ a.label)

/-- An anchor tells the part of it that can be read. -/
theorem Place.readable_eq {title : String} {a b : Place} (h : a.anchor title = b.anchor title) :
    a.readable title = b.readable title := Checksum.append_short_inj_left (by decide) h

/-- The place of a structural class. -/
def classPlace (d : Subject) (format : String) (c : StructuralClass) : Place :=
  ⟨some format, d.structuralLabel c, .class_ c.iri⟩

/-- The place of a property of a structural class. -/
def rowPlace (d : Subject) (format : String) (c : StructuralClass) (q : StructuralProperty) :
    Place :=
  ⟨some format, d.structuralLabel c ++ "-" ++ (d.publication.select q.label).getD q.name,
    .property c.iri q.iri⟩

/-! ## Pieces -/

/-- The marks of a table are those of its cells; its header has none. -/
@[simp]
theorem readBlocks_tableBlocks (f : Inline → Option String) (header : List String)
    (rows : List (List (List Inline))) :
    readBlocks f (tableBlocks header rows) =
      rows.flatMap fun row => row.flatMap (List.filterMap f) := by
  have hrows : rows.flatten.flatten.filterMap f =
      rows.flatMap fun row => row.flatMap (List.filterMap f) := by
    rw [List.flatten_flatten]
    simp [List.flatMap_def, Function.comp_def]
  unfold tableBlocks
  split
  · simp_all
  · simp only [readBlocks_cons, Block.inlines, hrows, readBlocks_nil, List.append_nil]

/-- A description has no marks. -/
theorem readBlocks_descriptionBlocks (hf : ReadsMarks f) (t : LanguageText) :
    readBlocks f (d.descriptionBlocks t) = [] := by
  unfold Subject.descriptionBlocks
  split
  · simp [Block.inlines, hf.text]
  · rfl

/-- The link in the line that leads to a document. -/
def artefactLink (d : Subject) (a : Artefact) : Inline :=
  .link (Text.lastSegment a.outputPath)
    (Text.relativePath d.publication.artefact.outputPath a.outputPath)

/-- The line about an artefact has the link to it. -/
theorem filterMap_artefactBlock (hf : ReadsMarks f) (a : Artefact) :
    (d.artefactBlock a).inlines.filterMap f = [artefactLink d a].filterMap f := by
  simp [Subject.artefactBlock, artefactLink, hf.text]

/-- The marks of the list of roots are the links to them. -/
theorem readBlocks_rootBlocks (hf : ReadsMarks f) (roots : List StructuralClass) :
    readBlocks f (d.rootBlocks format roots) =
      (roots.map (d.structuralLink format)).filterMap f := by
  have hlist : roots.flatMap (fun c => [d.structuralLink format c].filterMap f) =
      (roots.map (d.structuralLink format)).filterMap f := by
    rw [List.map_eq_flatMap, List.filterMap_flatMap]
  unfold Subject.rootBlocks
  split
  · simp_all
  · simp only [readBlocks_cons, readBlocks_nil, filterMap_inlines_list, List.flatMap_map, hlist]
    simp [Block.inlines, hf.text]

theorem flatMap_codelistFacts (hf : ReadsMarks f) (isCodelist : Bool) :
    (codelistFacts isCodelist).flatMap (List.filterMap f) = [] := by
  unfold codelistFacts
  split
  · simp [hf.text]
  · rfl

/-- The commas between marks are not marks. -/
theorem filterMap_separated (hf : ReadsMarks f) (l : List Inline) :
    (separated l).filterMap f = l.filterMap f := by
  fun_induction separated l with
  | case1 => rfl
  | case2 => rfl
  | case3 i rest h ih => simp [List.filterMap_cons, hf.text, ih]

theorem anchor?_conceptualLink (label : String) (iri : Iri) :
    (d.conceptualLink label iri).anchor? = none := by
  unfold Subject.conceptualLink
  split <;> rfl

/-- What a conceptual element is linked to is its anchor, if it has one; otherwise there is a name
without a link. -/
theorem target?_conceptualLink (label : String) (iri : Iri) :
    (d.conceptualLink label iri).target? = d.anchors.get? iri := by
  unfold Subject.conceptualLink
  split
  · rename_i h
    rw [target?_local, h]
  · rename_i h
    rw [h]
    rfl

@[simp]
theorem anchor?_classLink (iri : Iri) : (d.classLink iri).anchor? = none :=
  anchor?_conceptualLink _ _

@[simp]
theorem target?_classLink (iri : Iri) : (d.classLink iri).target? = d.anchors.get? iri :=
  target?_conceptualLink _ _

@[simp]
theorem anchor?_propertyLink (iri : Iri) : (d.propertyLink iri).anchor? = none :=
  anchor?_conceptualLink _ _

@[simp]
theorem target?_propertyLink (iri : Iri) : (d.propertyLink iri).target? = d.anchors.get? iri :=
  target?_conceptualLink _ _

@[simp]
theorem anchor?_structuralLink : (d.structuralLink format c).anchor? = none := rfl

/-- A link to a structural class leads to the place of the class, whether or not there is one on the
page. -/
@[simp]
theorem target?_structuralLink :
    (d.structuralLink format c).target? = some ((classPlace d format c).anchor d.title) :=
  target?_local _ _

@[simp]
theorem anchor?_datatypeInline (o : Option Iri) : (datatypeInline o).anchor? = none := by
  unfold datatypeInline
  split
  · rfl
  · split <;> rfl

/-- Datatypes are described elsewhere. -/
@[simp]
theorem target?_datatypeInline (o : Option Iri) : (datatypeInline o).target? = none := by
  cases o with
  | none => rfl
  | some iri =>
    cases hiri : Datatype.ofIri? iri with
    | none => simp [datatypeInline, hiri, Inline.target?]
    | some t =>
      have hbase : Text.startsWith iri Datatype.base = true := by
        by_contra hnot
        simp [Datatype.ofIri?, Text.after?, hnot] at hiri
      obtain ⟨rest, hrest⟩ := List.isPrefixOf_iff_prefix.mp hbase
      have hhash : Text.startsWith iri "#" = false := by
        rw [Text.startsWith, ← hrest]
        rfl
      simp [datatypeInline, hiri, Inline.target?, Text.after?, hhash]

/-! ## Sections of classes -/

/-- The anchor and the link in the row of a conceptual property. -/
def conceptualRowMarks (d : Subject) (q : ConceptualProperty) : List Inline :=
  (d.anchors.get? q.iri).toList.map .anchor ++ [d.rangeInline q.range]

/-- The anchors and links in the section of a conceptual class. -/
def conceptualMarks (d : Subject) (c : ConceptualClass) : List Inline :=
  (c.concept.toList.map fun iri => .link iri iri) ++ c.parents.map d.classLink ++
    c.properties.flatMap (conceptualRowMarks d)

/-- The section of a conceptual class has the marks of its facts and of its rows, in this order. -/
theorem readBlocks_conceptualClassSection (hf : ReadsMarks f) (c : ConceptualClass) :
    readBlocks f (d.conceptualClassSection c).blocks = (conceptualMarks d c).filterMap f := by
  have hrow : ∀ q, (d.conceptualRow q).flatMap (List.filterMap f) =
      (conceptualRowMarks d q).filterMap f := by
    intro q
    simp [Subject.conceptualRow, conceptualRowMarks, hf.text, hf.strong, List.filterMap_cons]
  simp only [Subject.conceptualClassSection, Subject.conceptualFacts, readBlocks_append,
    readBlocks_descriptionBlocks hf, readBlocks_cons, filterMap_inlines_list,
    List.flatMap_append, flatMap_codelistFacts hf, readBlocks_tableBlocks, conceptualMarks,
    List.filterMap_append, List.filterMap_flatMap, List.flatMap_map, hrow]
  simp [hf.text, hf.code, List.map_eq_flatMap, List.filterMap_flatMap]

/-- The anchors and links in the row of a structural property. -/
def structuralRowMarks (d : Subject) (format : String) (m : StructuralModel) (c : StructuralClass)
    (q : StructuralProperty) : List Inline :=
  [.anchor ((rowPlace d format c q).anchor d.title)] ++ q.datatypes.map datatypeInline ++
    (q.classes.filterMap m.class?).map (d.structuralLink format) ++ q.pim.toList.map d.propertyLink

/-- The anchors and links in the section of a structural class. -/
def structuralMarks (d : Subject) (format : String) (m : StructuralModel) (c : StructuralClass) :
    List Inline :=
  c.pim.toList.map d.classLink ++
    (c.inheritsFrom.filterMap m.class?).map (d.structuralLink format) ++
    c.properties.flatMap (structuralRowMarks d format m c)

/-- The types of a property are its datatypes, then the classes that are there. -/
theorem typeInlines_eq {q : StructuralProperty} {types : List Inline}
    (h : d.typeInlines format m q = .ok types) :
    types = q.datatypes.map datatypeInline ++
      (q.classes.filterMap m.class?).map (d.structuralLink format) := by
  obtain ⟨range, hrange, h⟩ := Except.bind_eq_ok.mp h
  unfold StructuralProperty.range at hrange
  split at hrange
  · simp at hrange
  · simp at hrange
  · obtain rfl := Except.ok.inj hrange
    obtain ⟨cs, hcs, h⟩ := Except.bind_eq_ok.mp h
    obtain rfl := Except.ok.inj h
    simp_all [StructuralModel.filterMap_class?_of_mapM hcs]
  · obtain rfl := Except.ok.inj hrange
    obtain rfl := Except.ok.inj h
    simp_all

/-- The row of a property has its place, its types and what it interprets for marks. -/
theorem flatMap_structuralRow (hf : ReadsMarks f) {q : StructuralProperty}
    {row : List (List Inline)} (h : d.structuralRow format m c q = .ok row) :
    row.flatMap (List.filterMap f) = (structuralRowMarks d format m c q).filterMap f := by
  obtain ⟨types, htypes, h⟩ := Except.bind_eq_ok.mp h
  obtain rfl := Except.ok.inj h
  have hname : ∀ a name,
      [Inline.anchor a, .strong name].filterMap f = [Inline.anchor a].filterMap f :=
    fun a name => by simp [List.filterMap_cons, hf.strong]
  have horigin : (d.originInlines q).filterMap f =
      (q.pim.toList.map d.propertyLink).filterMap f := by
    unfold Subject.originInlines
    split <;> simp [hf.text]
  simp only [List.flatMap_cons, List.flatMap_nil, hname, filterMap_separated hf, horigin,
    structuralRowMarks, typeInlines_eq htypes, List.filterMap_append]
  simp [hf.text, hf.code]
  rfl

/-- The section of a structural class is at the place of the class, has no sections in it, and has
the marks of its facts and of its rows. -/
theorem readBlocks_structuralClassSection (hf : ReadsMarks f)
    (h : d.structuralClassSection format m c = .ok s) :
    s.anchor = some ((classPlace d format c).anchor d.title) ∧ s.sections = [] ∧
      readBlocks f s.blocks = (structuralMarks d format m c).filterMap f := by
  obtain ⟨rows, hrows, h⟩ := Except.bind_eq_ok.mp h
  obtain rfl := Except.ok.inj h
  have hrow := Except.flatMap_of_mapM (fun q _ _ => flatMap_structuralRow hf) hrows
  refine ⟨rfl, rfl, ?_⟩
  simp only [Subject.structuralFacts, readBlocks_append, readBlocks_descriptionBlocks hf,
    readBlocks_cons, filterMap_inlines_list, List.flatMap_append, flatMap_codelistFacts hf,
    readBlocks_tableBlocks, structuralMarks, List.filterMap_append, List.filterMap_flatMap,
    List.flatMap_map, hrow]
  simp [hf.text, hf.code, List.map_eq_flatMap, List.filterMap_flatMap]

/-! ## Where links lead -/

/-- The conceptual classes and properties that a structural class and its properties stand for. -/
def interpretations (c : StructuralClass) : List Iri :=
  c.pim.toList ++ c.properties.flatMap fun q => q.pim.toList

/-- The classes of a model that a class inherits from or leads to. -/
def linkedFrom (m : StructuralModel) (c : StructuralClass) : List StructuralClass :=
  c.inheritsFrom.filterMap m.class? ++ c.properties.flatMap fun q => q.classes.filterMap m.class?

/-- The rows of a section are the places of its properties. -/
theorem anchors_structuralMarks :
    (structuralMarks d format m c).filterMap Inline.anchor? =
      c.properties.map fun q => (rowPlace d format c q).anchor d.title := by
  have hrow : ∀ q, (structuralRowMarks d format m c q).filterMap Inline.anchor? =
      [(rowPlace d format c q).anchor d.title] := fun q => by
    simp [structuralRowMarks, Function.comp_def]
  simp only [structuralMarks, List.filterMap_append, List.filterMap_flatMap, hrow]
  rw [← List.map_eq_flatMap]
  simp [Function.comp_def]

/-- The links of the section lead to the conceptual elements that it interprets, and to the classes
that it names. -/
theorem exists_target_structuralMarks {name : String} :
    (∃ i ∈ structuralMarks d format m c, i.target? = some name) ↔
      (∃ iri ∈ interpretations c, d.anchors.get? iri = some name) ∨
        ∃ c' ∈ linkedFrom m c, (classPlace d format c').anchor d.title = name := by
  have hrow : ∀ q, (structuralRowMarks d format m c q).filterMap Inline.target? =
      (q.classes.filterMap m.class?).map (fun c' => (classPlace d format c').anchor d.title) ++
        q.pim.toList.filterMap d.anchors.get? := fun q => by
    simp [structuralRowMarks, List.filterMap_cons]
  rw [← List.mem_filterMap]
  simp only [structuralMarks, List.filterMap_append, List.filterMap_flatMap, hrow, List.mem_append,
    List.mem_flatMap, List.filterMap_map, List.mem_filterMap, List.mem_map, Function.comp_apply,
    target?_classLink, target?_structuralLink, interpretations, linkedFrom]
  grind

/-- The class to which a conceptual property leads. -/
def rangeClass? : ConceptualRange → Option Iri
  | .datatype _ => none
  | .class_ iri => some iri

/-- The conceptual classes that a conceptual class is a special case of or leads to. -/
def mentions (c : ConceptualClass) : List Iri :=
  c.parents ++ c.properties.filterMap fun q => rangeClass? q.range

/-- The rows for conceptual properties are at the anchors of these. -/
theorem anchors_conceptualMarks (c : ConceptualClass) :
    (conceptualMarks d c).filterMap Inline.anchor? =
      c.properties.filterMap fun q => d.anchors.get? q.iri := by
  have hrange : ∀ r, (d.rangeInline r).anchor? = none := fun r => by
    cases r <;> simp [Subject.rangeInline]
  have hrow : ∀ q, (conceptualRowMarks d q).filterMap Inline.anchor? =
      (d.anchors.get? q.iri).toList := fun q => by
    simp [conceptualRowMarks, hrange, Function.comp_def]
  simp only [conceptualMarks, List.filterMap_append, List.filterMap_flatMap, hrow]
  rw [← List.filterMap_eq_flatMap_toList]
  simp [Function.comp_def]

/-- The links from a conceptual class lead to the classes it mentions, and that to its concept may
lead to a fragment. -/
theorem exists_target_conceptualMarks {c : ConceptualClass} {name : String} :
    (∃ i ∈ conceptualMarks d c, i.target? = some name) ↔
      (∃ iri ∈ mentions c, d.anchors.get? iri = some name) ∨
        ∃ iri, c.concept = some iri ∧ Text.after? iri "#" = some name := by
  have hrange : ∀ r, (d.rangeInline r).target? = (rangeClass? r).bind d.anchors.get? := fun r => by
    cases r <;> simp [Subject.rangeInline, rangeClass?]
  rw [← List.mem_filterMap]
  simp only [conceptualMarks, conceptualRowMarks, List.filterMap_append, List.filterMap_flatMap,
    List.mem_append, List.mem_flatMap, List.filterMap_map, List.mem_filterMap,
    List.mem_singleton, Option.mem_toList, Function.comp_apply, target?_link,
    target?_classLink, target?_anchor, exists_eq_left, hrange, Option.bind_eq_some_iff, mentions]
  grind

/-! ## The whole document -/

/-- The conceptual classes that are described. -/
def conceptualClasses (d : Subject) : List ConceptualClass :=
  (d.conceptual.map fun m => m.classes.values).getD []

/-- The conceptual classes and properties that are described, in order. -/
def conceptualIris (d : Subject) : List Iri :=
  (conceptualClasses d).flatMap fun c => c.iri :: c.properties.map ConceptualProperty.iri

/-- The classes that the part about a document describes. -/
def Described.own (x : Described) : List StructuralClass :=
  x.model.classes.values.filter fun c => !x.model.isForeign c

/-- The classes to which the part about a document has links. -/
def Described.linked (x : Described) : List StructuralClass :=
  x.model.roots.filterMap x.model.class? ++ x.own.flatMap (linkedFrom x.model)

/-- The places in the part about a document. -/
def describedPlaces (d : Subject) (x : Described) : List Place :=
  ⟨some x.artefact.generator, d.modelLabel x.model, .schema x.artefact.iri⟩ ::
    x.own.flatMap fun c => classPlace d x.artefact.generator c ::
      c.properties.map (rowPlace d x.artefact.generator c)

/-- The links in the part about a document. -/
def describedMarks (d : Subject) (x : Described) : List Inline :=
  [artefactLink d x.artefact] ++
    (x.model.roots.filterMap x.model.class?).map (d.structuralLink x.artefact.generator) ++
    x.own.flatMap (structuralMarks d x.artefact.generator x.model)

/-- The anchors of such a section are the places of the class and of its properties. -/
theorem anchors_structuralClassSection (h : d.structuralClassSection format m c = .ok s) :
    s.anchors = (classPlace d format c :: c.properties.map (rowPlace d format c)).map
      (Place.anchor d.title) := by
  obtain ⟨hanchor, -, hblocks⟩ := readBlocks_structuralClassSection readsMarks_anchor? h
  simp [Section.anchors, hanchor, hblocks, anchors_structuralMarks]

/-- The part about a document has a section for each class that the document describes. -/
theorem within_of_structuralSection {x : Described} (h : d.structuralSection x = .ok s) :
    ∃ sections, x.own.mapM (d.structuralClassSection x.artefact.generator x.model) = .ok sections ∧
      s.within = s :: sections := by
  obtain ⟨_, -, h⟩ := Except.bind_eq_ok.mp h
  obtain ⟨sections, hsections, h⟩ := Except.bind_eq_ok.mp h
  obtain rfl := Except.ok.inj h
  refine ⟨sections, hsections, ?_⟩
  rw [Section.within_eq, flatMap_within]
  intro s hs
  obtain ⟨c, -, hc⟩ := Except.exists_of_mem_mapM hsections hs
  exact (readBlocks_structuralClassSection readsMarks_anchor? hc).2.1

/-- Those of the section of an artefact are the places of all classes it describes. -/
theorem anchors_structuralSection {x : Described} (h : d.structuralSection x = .ok s) :
    s.within.flatMap Section.anchors = (describedPlaces d x).map (Place.anchor d.title) := by
  obtain ⟨sections, hsections, hwithin⟩ := within_of_structuralSection h
  have hclasses := Except.flatMap_of_mapM (fun c _ _ => anchors_structuralClassSection) hsections
  obtain ⟨_, -, h⟩ := Except.bind_eq_ok.mp h
  obtain ⟨_, -, h⟩ := Except.bind_eq_ok.mp h
  obtain rfl := Except.ok.inj h
  rw [hwithin, List.flatMap_cons, hclasses, describedPlaces, List.map_cons, List.map_flatMap]
  simp [Section.anchors, filterMap_artefactBlock readsMarks_anchor?, artefactLink,
    readBlocks_rootBlocks readsMarks_anchor?, Function.comp_def]
  rfl

/-- Its marks are those of all these classes. -/
theorem readBlocks_structuralSection (hf : ReadsMarks f) {x : Described}
    (h : d.structuralSection x = .ok s) :
    s.within.flatMap (fun s => readBlocks f s.blocks) = (describedMarks d x).filterMap f := by
  obtain ⟨sections, hsections, hwithin⟩ := within_of_structuralSection h
  have hclasses := Except.flatMap_of_mapM
    (fun c _ _ hs => (readBlocks_structuralClassSection hf hs).2.2) hsections
  obtain ⟨roots, hroots, h⟩ := Except.bind_eq_ok.mp h
  obtain ⟨_, -, h⟩ := Except.bind_eq_ok.mp h
  obtain rfl := Except.ok.inj h
  rw [hwithin, List.flatMap_cons, hclasses, describedMarks,
    StructuralModel.filterMap_class?_of_mapM hroots]
  simp only [readBlocks_cons, filterMap_artefactBlock hf, readBlocks_rootBlocks hf,
    List.filterMap_append, List.filterMap_flatMap]

/-- The anchors of a conceptual class are those of the class and of its properties. -/
theorem anchors_conceptualClassSection (c : ConceptualClass) :
    (d.conceptualClassSection c).anchors =
      (c.iri :: c.properties.map ConceptualProperty.iri).filterMap d.anchors.get? := by
  rw [Section.anchors, readBlocks_conceptualClassSection readsMarks_anchor?,
    anchors_conceptualMarks, List.filterMap_cons, List.filterMap_map]
  cases hanchor : d.anchors.get? c.iri <;>
    simp [Subject.conceptualClassSection, hanchor]

/-- The conceptual part has a section for each conceptual class. -/
theorem sectionsWithin_conceptual {β : Type} {g : Section → List β}
    (hg : ∀ m, g (d.conceptualSection m) = []) :
    ((d.conceptual.toList.map d.conceptualSection).flatMap Section.within).flatMap g =
      (conceptualClasses d).flatMap fun c => g (d.conceptualClassSection c) := by
  cases hconceptual : d.conceptual with
  | none => simp [conceptualClasses, hconceptual]
  | some m =>
    have hwithin : (m.classes.values.map d.conceptualClassSection).flatMap Section.within =
        m.classes.values.map d.conceptualClassSection :=
      flatMap_within (List.forall_mem_map.mpr fun _ _ => rfl)
    rw [Option.toList_some, List.map_singleton, List.flatMap_singleton, Section.within_eq,
      List.flatMap_cons, hg, List.nil_append]
    change ((m.classes.values.map d.conceptualClassSection).flatMap Section.within).flatMap g = _
    rw [hwithin, List.flatMap_map, conceptualClasses, hconceptual]
    rfl

variable {xs : List Described} {doc : Document}

/-- What is read from a document comes from its parts. -/
theorem flatMap_sectionsWithin {β : Type} {g : Section → List β} {g' : Described → List β}
    (hg : ∀ m, g (d.conceptualSection m) = [])
    (hg' : ∀ x s, d.structuralSection x = .ok s → s.within.flatMap g = g' x)
    (h : document d xs = .ok doc) :
    (sectionsWithin doc.sections).flatMap g =
      ((conceptualClasses d).flatMap fun c => g (d.conceptualClassSection c)) ++ xs.flatMap g' := by
  obtain ⟨sections, hsections, h⟩ := Except.bind_eq_ok.mp h
  obtain rfl := Except.ok.inj h
  rw [sectionsWithin_eq_flatMap, List.flatMap_append, List.flatMap_append,
    sectionsWithin_conceptual hg, List.flatMap_assoc,
    Except.flatMap_of_mapM (fun x _ s => hg' x s) hsections]

/-- The page has no marks outside its sections. -/
theorem readBlocks_document (hf : ReadsMarks f) (h : document d xs = .ok doc) :
    readBlocks f doc.blocks = [] := by
  obtain ⟨sections, hsections, h⟩ := Except.bind_eq_ok.mp h
  obtain rfl := Except.ok.inj h
  cases hconceptual : d.conceptual with
  | none => rfl
  | some m => exact readBlocks_descriptionBlocks hf _

/-- The anchors of the page are those of its conceptual elements and the places of its structural
ones. -/
theorem anchors_document (h : document d xs = .ok doc) :
    doc.anchors = (conceptualIris d).filterMap d.anchors.get? ++
      (xs.flatMap (describedPlaces d)).map (Place.anchor d.title) := by
  rw [Document.anchors, readBlocks_document readsMarks_anchor? h, List.nil_append,
    flatMap_sectionsWithin (fun _ => rfl) (fun _ _ => anchors_structuralSection) h,
    conceptualIris, List.filterMap_flatMap, List.map_flatMap]
  simp only [anchors_conceptualClassSection]

/-- A link of the page is one of a conceptual class or one of an artefact. -/
theorem mem_targets_document (h : document d xs = .ok doc) {name : String} :
    name ∈ doc.targets ↔
      (∃ c ∈ conceptualClasses d, ∃ i ∈ conceptualMarks d c, i.target? = some name) ∨
        ∃ x ∈ xs, ∃ i ∈ describedMarks d x, i.target? = some name := by
  rw [Document.targets, readBlocks_document readsMarks_target? h, List.nil_append,
    flatMap_sectionsWithin (fun _ => rfl)
      (fun _ _ => readBlocks_structuralSection readsMarks_target?) h]
  simp only [readBlocks_conceptualClassSection readsMarks_target?, List.mem_append,
    List.mem_flatMap, List.mem_filterMap]

/-! ## The places of a document -/

/-- The places of a conceptual class and of its properties, by what identifies them. -/
def placesOf (d : Subject) (c : ConceptualClass) : List (Iri × Place) :=
  (c.iri, ⟨none, d.classLabel c, .class_ c.iri⟩) ::
    c.properties.map fun q =>
      (q.iri, ⟨none, d.classLabel c ++ "-" ++ d.propertyLabel q, .property c.iri q.iri⟩)

/-- The places of conceptual classes and properties, of equal ones the last. -/
def conceptualPlaces (d : Subject) : SortedMap Iri Place :=
  .ofList ((conceptualClasses d).flatMap (placesOf d))

/-- The places of a document that describes documents. -/
def places (d : Subject) (xs : List Described) : List Place :=
  (conceptualIris d).filterMap (conceptualPlaces d).get? ++ xs.flatMap (describedPlaces d)

/-- The conceptual classes and properties to which the text refers. -/
def mentioned (d : Subject) (xs : List Described) : List Iri :=
  (conceptualClasses d).flatMap mentions ++ xs.flatMap fun x => x.own.flatMap interpretations

/-- The places to which there are links. -/
def linkedPlaces (d : Subject) (xs : List Described) : List Place :=
  (mentioned d xs).filterMap (conceptualPlaces d).get? ++
    xs.flatMap fun x => x.linked.map (classPlace d x.artefact.generator)

/-- Where the links to concepts and to the documents lead. -/
def elsewhere (d : Subject) (xs : List Described) : List String :=
  (conceptualClasses d).flatMap (fun c => c.concept.toList) ++
    xs.map fun x => Text.relativePath d.publication.artefact.outputPath x.artefact.outputPath

variable {spec : DataSpecification} {p : Publication} {conceptual : Option ConceptualModel}

/-- The anchor of a conceptual element is made from its place. -/
theorem get?_anchors (hd : d = .make spec p conceptual) (iri : Iri) :
    d.anchors.get? iri = ((conceptualPlaces d).get? iri).map (Place.anchor d.title) := by
  have hmap : d.anchors = (conceptualPlaces d).mapValues fun _ => Place.anchor d.title := by
    subst hd
    have hclass : ∀ c : ConceptualClass, anchorsOf p (titleOf p spec) c =
        (placesOf (.make spec p conceptual) c).map fun e => (e.1, e.2.anchor (titleOf p spec)) := by
      intro c
      rw [anchorsOf, placesOf, List.map_cons, List.map_map]
      rfl
    rw [conceptualPlaces, ← SortedMap.ofList_map, List.map_flatMap]
    cases conceptual with
    | none => rfl
    | some m => exact congrArg SortedMap.ofList (List.flatMap_congr fun c _ => hclass c)
  rw [hmap, SortedMap.get?_mapValues]

/-- The conceptual elements with a place are the classes and properties of the models. -/
theorem contains_conceptualPlaces {iri : Iri} :
    (conceptualPlaces d).contains iri = true ↔ iri ∈ conceptualIris d := by
  have hkeys : ((conceptualClasses d).flatMap (placesOf d)).map Prod.fst = conceptualIris d := by
    rw [List.map_flatMap, conceptualIris]
    refine List.flatMap_congr fun c _ => ?_
    rw [placesOf, List.map_cons, List.map_map]
    rfl
  rw [conceptualPlaces, SortedMap.contains_ofList_iff, hkeys]

/-- A place of the conceptual part shows what it is found by. -/
theorem of_get?_conceptualPlaces {iri : Iri} {a : Place}
    (h : (conceptualPlaces d).get? iri = some a) :
    a.format = none ∧ (a.thing = .class_ iri ∨ ∃ owner, a.thing = .property owner iri) := by
  obtain ⟨c, -, hc⟩ := List.mem_flatMap.mp (SortedMap.mem_of_get?_ofList h)
  rcases List.mem_cons.mp hc with heq | hc
  · obtain ⟨rfl, rfl⟩ := Prod.mk.inj heq
    exact ⟨rfl, Or.inl rfl⟩
  · obtain ⟨q, -, heq⟩ := List.mem_map.mp hc
    obtain ⟨rfl, rfl⟩ := Prod.mk.inj heq
    exact ⟨rfl, Or.inr ⟨_, rfl⟩⟩

/-- The anchors of a document are those of its places. -/
theorem anchors_eq (hd : d = .make spec p conceptual) (h : document d xs = .ok doc) :
    doc.anchors = (places d xs).map (Place.anchor d.title) := by
  rw [anchors_document h, places, List.map_append, List.map_filterMap]
  simp only [get?_anchors hd]

/-- The links within a document lead to its linked places. -/
theorem mem_targets_iff (hd : d = .make spec p conceptual) (h : document d xs = .ok doc)
    {name : String} :
    name ∈ doc.targets ↔ name ∈ (linkedPlaces d xs).map (Place.anchor d.title) ∨
      ∃ t ∈ elsewhere d xs, Text.after? t "#" = some name := by
  have hdescribed : ∀ x, (∃ i ∈ describedMarks d x, i.target? = some name) ↔
      Text.after? (Text.relativePath d.publication.artefact.outputPath x.artefact.outputPath) "#" =
          some name ∨
        (∃ iri ∈ x.own.flatMap interpretations, d.anchors.get? iri = some name) ∨
        ∃ c ∈ x.linked, (classPlace d x.artefact.generator c).anchor d.title = name := by
    intro x
    rw [← List.mem_filterMap]
    simp only [describedMarks, Described.linked, artefactLink, List.filterMap_append,
      List.filterMap_flatMap, List.filterMap_map, List.mem_append, List.mem_flatMap,
      List.mem_filterMap, List.mem_singleton, exists_eq_left, target?_link, Function.comp_apply,
      target?_structuralLink, Option.some.injEq, exists_target_structuralMarks]
    grind
  rw [mem_targets_document h]
  simp only [exists_target_conceptualMarks, hdescribed, get?_anchors hd, linkedPlaces, mentioned,
    elsewhere, List.map_append, List.mem_append, List.mem_map, List.mem_filterMap,
    List.mem_flatMap, Option.map_eq_some_iff, Option.mem_toList]
  grind

end DataSpec.Documentation
