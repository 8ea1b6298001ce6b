import DataSpec.Xml
import DataSpec.XmlSchema.Basic

/-!
# XML schemas as XML

`XmlSchema.toXml` is the document of a schema as an element, `XmlSchema.render` its text.
References to names are written as they are; all other texts are escaped.
-/

set_option autoImplicit false

namespace DataSpec.XmlSchema

/-! ## Attributes -/

/-- The number of times that something occurs; once is not stated. -/
def occurs (bounds : Cardinality) : List (String × String) :=
  (if bounds.min = 1 then [] else [("minOccurs", toString bounds.min.toNat)]) ++
    match bounds.max with
    | none => [("maxOccurs", "unbounded")]
    | some max => if max = 1 then [] else [("maxOccurs", toString max.toNat)]

/-- An attribute that is left out if there is no text. -/
def optional (name : String) (value : Option String) : List (String × String) :=
  match value with
  | some value => [Xml.attr name value]
  | none => []

/-- An attribute that refers to a name. -/
def reference (name : String) (q : QName) : String × String := (name, q.text)

/-- The attribute that makes a namespace known under a short name, if it has both. -/
def declared (qualifier uri : Option String) : List (String × String) :=
  match qualifier, uri with
  | some qualifier, some uri => [Xml.attr ("xmlns:" ++ qualifier) uri]
  | _, _ => []

/-! ## Elements -/

/-- What is said to people, if anything is. -/
def noteXml : Option Note → List Xml
  | none => []
  | some n =>
    [.node "xs:annotation" (optional "sawsdl:modelReference" n.concept)
      [.text "xs:documentation" [] (Xml.escape n.text)]]

/-- A value of one of several types. -/
def unionXml (names : List QName) : Xml :=
  .node "xs:simpleType" []
    [.leaf "xs:union" [("memberTypes", Text.join " " (names.map QName.text))]]

mutual

/-- An element that occurs within bounds. -/
def Element.toXml (bounds : Cardinality) : Element → Xml
  | ⟨name, type, note⟩ =>
    if name.qualifier.isSome then .leaf "xs:element" (reference "ref" name :: occurs bounds)
    else
      let attributes := Xml.attr "name" name.name :: occurs bounds
      match type with
      | none => .ofChildren "xs:element" attributes (noteXml note)
      | some (.named q) =>
        .ofChildren "xs:element" (attributes ++ [reference "type" q]) (noteXml note)
      | some (.complex t) => .node "xs:element" attributes (noteXml note ++ [t.toXml])
      | some (.union names) => .node "xs:element" attributes (noteXml note ++ [unionXml names])

/-- A type. -/
def ComplexType.toXml : ComplexType → Xml
  | ⟨name, isAbstract, note, item⟩ =>
    .node "xs:complexType"
      (optional "name" name ++ if isAbstract then [("abstract", "true")] else [])
      (noteXml note ++ [item.toXml once])

/-- What a type consists of. An extension occurs once in any case. -/
def Item.toXml (bounds : Cardinality) : Item → Xml
  | .sequence contents => .ofChildren "xs:sequence" (occurs bounds) (contentsXml contents)
  | .group name => .leaf "xs:group" (reference "ref" name :: occurs bounds)
  | .extension base contents =>
    .node "xs:complexContent" []
      [.node "xs:extension" [reference "base" base] (contentsXml contents)]

/-- A part of a sequence. -/
def Content.toXml : Content → Xml
  | .element bounds e => e.toXml bounds
  | .item bounds i => i.toXml bounds

/-- The parts of a sequence. -/
def contentsXml : List Content → List Xml
  | [] => []
  | c :: rest => c.toXml :: contentsXml rest

end

/-! ## Schemas -/

/-- The namespace of `xml:lang`. -/
def xmlNamespace : String := "http://www.w3.org/XML/1998/namespace"

/-- The import of the schema that has `xml:lang`. -/
def langImport : Xml :=
  .leaf "xs:import"
    [("namespace", xmlNamespace), ("schemaLocation", "http://www.w3.org/2001/xml.xsd")]

/-- The type of texts with a language. -/
def langStringXml : Xml :=
  .node "xs:complexType" [("name", "langString")]
    [.node "xs:simpleContent" []
      [.node "xs:extension" [("base", "xs:string")]
        [.leaf "xs:attribute" [("ref", "xml:lang"), ("use", "required")]]]]

/-- An import. -/
def Import.toXml (i : Import) : Xml :=
  .leaf "xs:import" (optional "namespace" i.uri ++ [Xml.attr "schemaLocation" i.location])

/-- A group. -/
def Group.toXml (g : Group) : Xml :=
  .node "xs:group" [Xml.attr "name" g.name] [(Item.sequence g.contents).toXml once]

/-- The attributes of the root, among them all short names of namespaces. -/
def rootAttributes (s : XmlSchema) : List (String × String) :=
  [("xmlns:xs", "http://www.w3.org/2001/XMLSchema"), ("version", "1.1"),
    ("elementFormDefault", "unqualified"), ("xmlns:sawsdl", "http://www.w3.org/ns/sawsdl")] ++
    optional "targetNamespace" s.uri ++ declared s.qualifier s.uri ++
    s.imports.flatMap fun i => declared i.qualifier i.uri

/-- The document of a schema. -/
def toXml (s : XmlSchema) : Xml :=
  .node "xs:schema" s.rootAttributes
    ((if s.definesLangString then [langImport] else []) ++ s.imports.map Import.toXml ++
      (if s.definesLangString then [langStringXml] else []) ++ s.groups.map Group.toXml ++
      s.types.map ComplexType.toXml ++ s.elements.map (Element.toXml once))

/-- The text of a schema. -/
def render (s : XmlSchema) : String := Xml.document s.toXml

end DataSpec.XmlSchema
