import DataSpec.Proofs.Decimal.Digits
import DataSpec.Proofs.Xml.Reading
import DataSpec.XmlSchema.Printer

/-!
# XML schemas as well-formed XML

The document of a schema is nested whatever it says, and all its free texts are escaped, but for
the names that it refers to (`XmlSchema.references`). It is well-formed exactly if these can stand
in attributes as they are (`XmlSchema.reads_render_iff`).
-/

set_option autoImplicit false

namespace DataSpec.XmlSchema

open Xml

/-! ## References -/

mutual

/-- The names that an element refers to where it is written. -/
def Element.references : Element → List QName
  | ⟨name, type, _⟩ =>
    if name.qualifier.isSome then [name]
    else
      match type with
      | none => []
      | some (.named q) => [q]
      | some (.complex t) => t.references
      | some (.union names) => names

def ComplexType.references : ComplexType → List QName
  | ⟨_, _, _, item⟩ => item.references

def Item.references : Item → List QName
  | .sequence contents => contentsReferences contents
  | .group name => [name]
  | .extension base contents => base :: contentsReferences contents

def Content.references : Content → List QName
  | .element _ e => e.references
  | .item _ i => i.references

def contentsReferences : List Content → List QName
  | [] => []
  | c :: rest => c.references ++ contentsReferences rest

end

/-- The names that a schema refers to. -/
def references (s : XmlSchema) : List QName :=
  s.groups.flatMap (fun g => contentsReferences g.contents) ++
    s.types.flatMap ComplexType.references ++ s.elements.flatMap Element.references

/-- The short names of namespaces. -/
def prefixes (s : XmlSchema) : List String :=
  s.qualifier.toList ++ s.imports.filterMap Import.qualifier

/-! ## Attributes -/

/-- A property that every escaped text has, and texts with spaces between them exactly if each of
them has it. -/
structure Spares (P : String → Prop) : Prop where
  escape : ∀ s, P (Xml.escape s)
  join : ∀ texts, P (Text.join " " texts) ↔ ∀ t ∈ texts, P t

theorem spares_isValue : Spares fun value => isValue value = true :=
  ⟨isValue_escape, isValue_join_iff⟩

theorem spares_unquoted : Spares Unquoted := ⟨unquoted_escape, unquoted_join_iff⟩

variable {P : String → Prop}

theorem escape_toString (n : Nat) : Xml.escape (toString n) = toString n := by
  refine escape_eq_self fun c hc hmark => ?_
  rw [Nat.toString_eq_ofList_toDigits, String.toList_ofList] at hc
  have hdigit : c.isDigit = true := Decimal.isDigit_of_mem_toDigits hc
  simp only [List.mem_cons, List.not_mem_nil, or_false] at hmark
  rcases hmark with rfl | rfl | rfl | rfl <;> exact absurd hdigit (by decide)

theorem conform_of_escape_eq (h : Spares P) {attributes : List (String × String)}
    (hattributes : AttributesConform (fun value => Xml.escape value = value) attributes) :
    AttributesConform P attributes :=
  fun a ha => ⟨(hattributes a ha).1, (hattributes a ha).2 ▸ h.escape a.2⟩

theorem conform_occurs (h : Spares P) (bounds : Cardinality) :
    AttributesConform P (occurs bounds) := by
  refine conform_of_escape_eq h (attributesConform_append_iff.mpr ⟨?_, ?_⟩)
  · split
    · simp
    · exact attributesConform_singleton_iff.mpr
        ⟨show isName "minOccurs" = true by decide, escape_toString _⟩
  · split
    · decide
    · split
      · simp
      · exact attributesConform_singleton_iff.mpr
          ⟨show isName "maxOccurs" = true by decide, escape_toString _⟩

theorem conform_optional (h : Spares P) {name : String} (hname : isName name = true)
    (value : Option String) : AttributesConform P (optional name value) := by
  cases value with
  | none => simp [optional]
  | some value => exact attributesConform_singleton_iff.mpr ⟨hname, h.escape value⟩

theorem conforms_ofChildren {name : String} {attributes : List (String × String)}
    {children : List Xml} : (Xml.ofChildren name attributes children).Conforms P ↔
      isName name = true ∧ AttributesConform P attributes ∧ ConformAll P children := by
  cases children with
  | nil => simp [Xml.ofChildren, Conforms, ConformAll]
  | cons x rest => simp [Xml.ofChildren, Conforms]

theorem conformAll_noteXml (h : Spares P) (note : Option Note) : ConformAll P (noteXml note) := by
  cases note with
  | none => trivial
  | some n =>
    exact ⟨⟨by decide, conform_optional h (by decide) _,
      ⟨by decide, by simp, isClean_escape n.text⟩, trivial⟩, trivial⟩

/-- Among attributes that are as they have to be, a reference is what matters. -/
theorem conform_reference {name : String} (hname : isName name = true) {q : QName}
    {attributes : List (String × String)}
    (hattributes : AttributesConform P attributes) :
    AttributesConform P (reference name q :: attributes) ↔ P q.text := by
  rw [attributesConform_cons_iff, and_iff_left hattributes]
  exact and_iff_right hname

theorem conforms_unionXml (h : Spares P) (names : List QName) :
    (unionXml names).Conforms P ↔ ∀ q ∈ names, P q.text := by
  have hjoin := h.join (names.map QName.text)
  rw [List.forall_mem_map] at hjoin
  rw [← hjoin]
  simp [unionXml, Conforms, ConformAll, show isName "xs:simpleType" = true by decide,
    show isName "xs:union" = true by decide, attributesConform_singleton_iff,
    show isName "memberTypes" = true by decide]

/-! ## Elements -/

mutual

/-- Induction over the tree : an element is written as it has to be exactly if the names that it
refers to are, for what stands around them is either fixed or escaped. -/
theorem Element.conforms_toXml (h : Spares P) (bounds : Cardinality) :
    ∀ e : Element, (e.toXml bounds).Conforms P ↔ ∀ q ∈ e.references, P q.text
  | ⟨name, type, note⟩ => by
    have helement : isName "xs:element" = true := by decide
    have hattributes : AttributesConform P (Xml.attr "name" name.name :: occurs bounds) :=
      attributesConform_cons_iff.mpr
        ⟨⟨show isName "name" = true by decide, h.escape _⟩, conform_occurs h bounds⟩
    have hnote := conformAll_noteXml h note
    rw [Element.toXml, Element.references.eq_def]
    by_cases hqualifier : name.qualifier.isSome = true
    · rw [if_pos hqualifier, Conforms, conform_reference (by decide) (conform_occurs h bounds),
        and_iff_right helement]
      simp only [hqualifier, if_true, List.forall_mem_singleton]
    · rw [if_neg hqualifier]
      simp only [if_neg hqualifier]
      match type with
      | none =>
        rw [conforms_ofChildren]
        exact iff_of_true ⟨helement, hattributes, hnote⟩ (by simp)
      | some (.named q) =>
        have hall : AttributesConform P
            (Xml.attr "name" name.name :: occurs bounds ++ [reference "type" q]) ↔ P q.text := by
          rw [attributesConform_append_iff, and_iff_right hattributes]
          exact conform_reference (by decide) attributesConform_nil
        rw [conforms_ofChildren, hall, and_iff_right helement, and_iff_left hnote,
          List.forall_mem_singleton]
      | some (.complex t) =>
        rw [Conforms, conformAll_append, and_iff_right helement, and_iff_right hattributes,
          and_iff_right hnote, ConformAll, ConformAll, and_true, ComplexType.conforms_toXml h t]
      | some (.union names) =>
        rw [Conforms, conformAll_append, and_iff_right helement, and_iff_right hattributes,
          and_iff_right hnote, ConformAll, ConformAll, and_true, conforms_unionXml h]

theorem ComplexType.conforms_toXml (h : Spares P) :
    ∀ t : ComplexType, t.toXml.Conforms P ↔ ∀ q ∈ t.references, P q.text
  | ⟨name, isAbstract, note, item⟩ => by
    have hattributes : AttributesConform P (optional "name" name ++
        if isAbstract then [("abstract", "true")] else []) := by
      refine attributesConform_append_iff.mpr
        ⟨conform_optional h (by decide) name, conform_of_escape_eq h ?_⟩
      split
      · decide
      · simp
    rw [ComplexType.toXml, ComplexType.references, Conforms, conformAll_append,
      and_iff_right (show isName "xs:complexType" = true by decide), and_iff_right hattributes,
      and_iff_right (conformAll_noteXml h note), ConformAll, ConformAll, and_true,
      Item.conforms_toXml h once item]

theorem Item.conforms_toXml (h : Spares P) (bounds : Cardinality) :
    ∀ i : Item, (i.toXml bounds).Conforms P ↔ ∀ q ∈ i.references, P q.text
  | .sequence contents => by
    rw [Item.toXml, Item.references, conforms_ofChildren,
      and_iff_right (show isName "xs:sequence" = true by decide),
      and_iff_right (conform_occurs h bounds), conforms_contentsXml h contents]
  | .group name => by
    rw [Item.toXml, Item.references, Conforms,
      conform_reference (by decide) (conform_occurs h bounds),
      List.forall_mem_singleton, and_iff_right (show isName "xs:group" = true by decide)]
  | .extension base contents => by
    have hbase : AttributesConform P [reference "base" base] ↔ P base.text :=
      conform_reference (by decide) attributesConform_nil
    rw [Item.toXml, Item.references, Conforms, ConformAll, ConformAll, Conforms, and_true, hbase,
      conforms_contentsXml h contents, List.forall_mem_cons,
      and_iff_right (show isName "xs:complexContent" = true by decide),
      and_iff_right (show isName "xs:extension" = true by decide),
      and_iff_right attributesConform_nil]

theorem Content.conforms_toXml (h : Spares P) :
    ∀ c : Content, c.toXml.Conforms P ↔ ∀ q ∈ c.references, P q.text
  | .element bounds e => Element.conforms_toXml h bounds e
  | .item bounds i => Item.conforms_toXml h bounds i

theorem conforms_contentsXml (h : Spares P) :
    ∀ cs : List Content, ConformAll P (contentsXml cs) ↔ ∀ q ∈ contentsReferences cs, P q.text
  | [] => by simp [contentsXml, contentsReferences, ConformAll]
  | c :: rest => by
    rw [contentsXml, contentsReferences, ConformAll, List.forall_mem_append,
      Content.conforms_toXml h c, conforms_contentsXml h rest]

end

/-! ## Schemas -/

theorem conforms_langImport (h : Spares P) : langImport.Conforms P :=
  ⟨by decide, conform_of_escape_eq h (by decide)⟩

theorem conforms_langStringXml (h : Spares P) : langStringXml.Conforms P :=
  ⟨by decide, conform_of_escape_eq h (by decide), ⟨by decide, by simp,
    ⟨by decide, conform_of_escape_eq h (by decide),
      ⟨by decide, conform_of_escape_eq h (by decide)⟩, trivial⟩, trivial⟩, trivial⟩

theorem Import.conforms_toXml (h : Spares P) (i : Import) : i.toXml.Conforms P :=
  ⟨by decide, attributesConform_append_iff.mpr ⟨conform_optional h (by decide) i.uri,
    attributesConform_singleton_iff.mpr ⟨show isName "schemaLocation" = true by decide,
      h.escape i.location⟩⟩⟩

theorem Group.conforms_toXml (h : Spares P) (g : Group) :
    g.toXml.Conforms P ↔ ∀ q ∈ contentsReferences g.contents, P q.text := by
  have hname : AttributesConform P [Xml.attr "name" g.name] :=
    attributesConform_singleton_iff.mpr ⟨show isName "name" = true by decide, h.escape g.name⟩
  rw [Group.toXml, Conforms, ConformAll, ConformAll, and_true, and_iff_right hname,
    and_iff_right (show isName "xs:group" = true by decide), Item.conforms_toXml h, Item.references]

theorem conform_declared (h : Spares P) {qualifier uri : Option String}
    (hqualifier : ∀ q ∈ qualifier, isName q = true) :
    AttributesConform P (declared qualifier uri) := by
  unfold declared
  split
  · rename_i q u
    exact attributesConform_singleton_iff.mpr
      ⟨isName_append (by decide) (hqualifier q rfl), h.escape u⟩
  · simp

variable {s : XmlSchema}

theorem conform_rootAttributes (h : Spares P) (hprefixes : ∀ p ∈ s.prefixes, isName p = true) :
    AttributesConform P s.rootAttributes := by
  obtain ⟨hown, himports⟩ := List.forall_mem_append.mp hprefixes
  refine attributesConform_append_iff.mpr ⟨attributesConform_append_iff.mpr
    ⟨attributesConform_append_iff.mpr ⟨conform_of_escape_eq h (by decide), ?_⟩, ?_⟩, ?_⟩
  · exact conform_optional h (by decide) s.uri
  · exact conform_declared h fun q hq => hown q (by simpa using hq)
  · intro a ha
    obtain ⟨i, hi, ha⟩ := List.mem_flatMap.mp ha
    exact conform_declared h (fun q hq => himports q (List.mem_filterMap.mpr ⟨i, hi, hq⟩)) a ha

/-- The document of a schema is written as it has to be exactly if the names that it refers to
are. -/
theorem conforms_toXml (h : Spares P) (hprefixes : ∀ p ∈ s.prefixes, isName p = true) :
    s.toXml.Conforms P ↔ ∀ q ∈ s.references, P q.text := by
  have himport : ConformAll P (if s.definesLangString then [langImport] else []) := by
    split
    · exact ⟨conforms_langImport h, trivial⟩
    · trivial
  have hlang : ConformAll P (if s.definesLangString then [langStringXml] else []) := by
    split
    · exact ⟨conforms_langStringXml h, trivial⟩
    · trivial
  have himports : ConformAll P (s.imports.map Import.toXml) :=
    conformAll_iff.mpr (List.forall_mem_map.mpr fun i _ => i.conforms_toXml h)
  rw [toXml, Conforms, and_iff_right (show isName "xs:schema" = true by decide),
    and_iff_right (conform_rootAttributes h hprefixes)]
  simp only [conformAll_append, himport, himports, hlang, true_and]
  simp only [conformAll_iff, List.forall_mem_map, Group.conforms_toXml h,
    ComplexType.conforms_toXml h, Element.conforms_toXml h, references, List.forall_mem_append,
    List.forall_mem_flatMap]

/-- Without quotes in the names that a schema refers to, its document is XML exactly if these can
stand in attributes as they are. -/
theorem wellFormed_render (hprefixes : ∀ p ∈ s.prefixes, isName p = true)
    (hunquoted : ∀ q ∈ s.references, Unquoted q.text) :
    WellFormed s.render ↔ ∀ q ∈ s.references, isClean q.text.toList = true := by
  rw [render, wellFormed_document_iff ((conforms_toXml spares_unquoted hprefixes).mpr hunquoted),
    conforms_toXml spares_isValue hprefixes]
  exact forall₂_congr fun q hq => isValue_iff.trans (and_iff_left (hunquoted q hq))

/-- The document of a schema is read as its own tags exactly if the names that it refers to can
stand in attributes as they are. In any other case it is no XML, unless a name has a quote in it,
so that more attributes may be read than there are. -/
theorem reads_render_iff (hprefixes : ∀ p ∈ s.prefixes, isName p = true) :
    (Reads s.render (s.toXml.pieces 0) ↔ ∀ q ∈ s.references, isValue q.text = true) ∧
    ((∀ q ∈ s.references, Unquoted q.text) →
      (WellFormed s.render ↔ ∀ q ∈ s.references, isClean q.text.toList = true)) := by
  refine ⟨?_, wellFormed_render hprefixes⟩
  rw [render, reads_document_iff, conforms_toXml spares_isValue hprefixes]

/-- A schema with one element, of a named type. -/
def ofType (name note : String) (type : QName) : XmlSchema where
  uri := some "https://e.com/?a&b"
  qualifier := some "e"
  imports := []
  definesLangString := true
  groups := []
  types := []
  elements := [⟨⟨none, name⟩, some (.named type), some ⟨none, note⟩⟩]

/-- Marks in the name of an element, in what is said about it and in a namespace are escaped. -/
theorem reads_render_marks : Reads (ofType "a\"b" "1 < 2 & 3" (.xs "string")).render
    ((ofType "a\"b" "1 < 2 & 3" (.xs "string")).toXml.pieces 0) :=
  (reads_render_iff (by decide)).1.mpr (by decide)

/-- A type whose name has a bracket in it is not. -/
theorem not_wellFormed_render :
    ¬ ∀ s : XmlSchema, (∀ p ∈ s.prefixes, isName p = true) → s.prefixes.Nodup →
      WellFormed s.render := by
  intro h
  have hclean := (wellFormed_render (by decide) (by decide)).mp
    (h (ofType "a" "" ⟨none, "a<b"⟩) (by decide) (by decide))
  revert hclean
  decide

end DataSpec.XmlSchema
