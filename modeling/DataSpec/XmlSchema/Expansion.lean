import DataSpec.Datatype
import DataSpec.Publication
import DataSpec.Structural.Range
import DataSpec.XmlSchema.Basic

/-!
# XML schemas of models

`XmlSchema.ofModel` declares an element for every root class of a model. What is in it is
written out in place, or in named types and groups if the settings ask for them. Three
things have names in any case : the type of a range that is met inside itself, the types
of a range of several classes, which are extensions of one type, and what belongs to
another schema, which is imported.

No range is opened inside itself, so the recursion ends.
-/

set_option autoImplicit false

namespace DataSpec.XmlSchema

/-- What a schema is made of. -/
structure Source where
  publication : Publication
  model : StructuralModel
  /-- The models of the schemas that may be imported. -/
  imported : SortedMap Iri StructuralModel

/-- The parts of a schema that are collected on the way. -/
structure Parts where
  /-- The imports by specification. -/
  imports : SortedMap Iri Import
  groups : SortedMap String (List Content)
  types : SortedMap String ComplexType
  /-- The keys of the ranges that were met inside themselves. -/
  recursive : SortedSet String
  usesLangString : Bool

namespace Parts

/-- No parts. -/
def empty : Parts := ⟨.empty, .empty, .empty, .empty, false⟩

/-- Add a named type. -/
def addType (s : Parts) (name : String) (isAbstract : Bool) (item : Item) : Parts :=
  { s with types := s.types.insert name ⟨some name, isAbstract, none, item⟩ }

/-- Add a group. -/
def addGroup (s : Parts) (name : String) (contents : List Content) : Parts :=
  { s with groups := s.groups.insert name contents }

end Parts

namespace Source

/-- A name of the schema itself. -/
def localName (x : Source) (name : String) : QName := ⟨x.model.xmlPrefix, name⟩

/-- The settings of root classes. -/
def rootClass (x : Source) : XmlExtraction := x.publication.config.rootClass

/-- The settings of other classes. -/
def otherClasses (x : Source) : XmlExtraction := x.publication.config.otherClasses

/-! ## Names and imports -/

/-- The import of the schema that is at a place and describes a class. -/
def importOf (x : Source) (c : StructuralClass) (location : String) : Import :=
  let other := x.imported.get? c.schema
  { uri := other.bind StructuralModel.xmlNamespace
    qualifier := other.bind StructuralModel.xmlPrefix
    location }

/-- The import through which a class of another schema is known, which may be new. -/
def importFor? (x : Source) (s : Parts) (c : StructuralClass) : Option (Import × Parts) :=
  c.specification.bind fun specification =>
    match s.imports.get? specification with
    | some i => some (i, s)
    | none => (x.publication.reference? .xmlSchema c).map fun location =>
        let i := x.importOf c location
        (i, { s with imports := s.imports.insert specification i })

/-- The name of a class, in the namespace of the schema that describes it if that is
another one. -/
def nameOf (x : Source) (s : Parts) (c : StructuralClass) : QName × Parts :=
  if x.model.isForeign c then
    match x.importFor? s c with
    | some (i, s) => (⟨i.qualifier, c.name⟩, s)
    | none => (⟨none, c.name⟩, s)
  else (⟨none, c.name⟩, s)

/-! ## Datatypes -/

/-- What identifiers of datatypes of XML Schema begin with. -/
def schemaDatatypes : String := "http://www.w3.org/2001/XMLSchema#"

/-- The type of the values of a known datatype. -/
def datatypeName (x : Source) : Datatype → QName
  | .boolean => .xs "boolean"
  | .date => .xs "date"
  | .time => .xs "time"
  | .dateTime => .xs "dateTime"
  | .integer => .xs "integer"
  | .decimal => .xs "decimal"
  | .url => .xs "anyURI"
  | .string => .xs "string"
  | .text => x.localName "langString"

/-- The type of the values of a datatype, which may be any simple type. -/
def valueName (x : Source) : Option Iri → QName
  | none => .xs "anySimpleType"
  | some iri =>
    match Text.after? iri schemaDatatypes with
    | some name => .xs name
    | none => ((Datatype.ofIri? iri).map x.datatypeName).getD (.xs "anySimpleType")

/-- Whether the values of a datatype are texts with a language. -/
def isLangString (d : Option Iri) : Bool := d.bind Datatype.ofIri? = some .text

/-- The type of the values of one of several datatypes. -/
def datatypesType (x : Source) (ds : List (Option Iri)) : ElementType :=
  match ds.map x.valueName with
  | [name] => .named name
  | names => .union names

end Source

/-! ## Words -/

/-- The lines of a text in several languages. -/
def textLines (heading : String) (t : LanguageText) : List String :=
  t.toList.map fun e => heading ++ " (" ++ e.1 ++ "): " ++ e.2

/-- What is said about a class or a property, if anything is. -/
def noteOf (concept : Option Iri) (label description : LanguageText) : Option Note :=
  let lines := (concept.toList.map fun iri => "Význam: " ++ iri) ++
    textLines "Název" label ++ textLines "Popis" description
  if lines.isEmpty then none else some ⟨concept, Text.join "\n" lines⟩

/-! ## Ranges -/

/-- The part of every object that holds its identifier. -/
def iriContent : Content :=
  .element ⟨0, some 1⟩ ⟨⟨none, "iri"⟩, some (.named (.xs "anyURI")), none⟩

/-- The name of a type above several classes. -/
def joinedName (roots : List StructuralClass) : String :=
  Text.join "" (roots.map fun c => "_" ++ c.name)

/-- The name of a type above the classes of a range that have no parent. -/
def topName : List StructuralClass → String
  | [root] => root.name
  | roots => joinedName roots

/-- The name of the type of a range : of one class, its own, otherwise of what is above
the others. -/
def rangeName : List StructuralClass → String
  | [c] => c.name
  | cs => topName (cs.filter fun c => c.inheritsFrom.isEmpty)

/-- Whether a class has no parent. Any other has one parent, among the given classes. -/
def isTop (iris : List Iri) (c : StructuralClass) : Except ModelError Bool :=
  match c.inheritsFrom with
  | [] => .ok true
  | [parent] => if parent ∈ iris then .ok false else .error (.parentOutsideRange c.name)
  | _ => .error (.severalParents c.name)

/-- The classes of a range that have no parent; the others have one parent each, among the
classes of the range. -/
def tops {m : StructuralModel} (iris : List Iri) :
    List m.Member → Except ModelError (List m.Member)
  | [] => .ok []
  | c :: rest =>
    match isTop iris c.val with
    | .error e => .error e
    | .ok top =>
      match tops iris rest with
      | .error e => .error e
      | .ok cs => .ok (if top then c :: cs else cs)

/-- The name of the type that the type of a class extends, `top` if it has no parent. -/
def baseName (m : StructuralModel) (top : String) (c : StructuralClass) :
    Except ModelError String :=
  match c.inheritsFrom.head? with
  | none => .ok top
  | some parent => (m.requireClass parent).map StructuralClass.name

/-! ## Classes -/

/-- Where a class is written out. -/
inductive Role where
  /-- In the element of a root class. -/
  | root
  /-- As the value of a property. -/
  | value
  /-- As the extension of another class. -/
  | extension
deriving DecidableEq

namespace Role

/-- The properties that are written out. -/
def features {m : StructuralModel} (r : Role) (c : m.Member) : List m.Feature :=
  if r = .extension then c.ownFeatures else c.features

/-- What comes before the properties. -/
def lead (r : Role) : List Content := if r = .extension then [] else [iriContent]

end Role

/-- What a range of classes consists of, before it is decided whether it has a name. -/
structure Body where
  item : Item
  name : Option String
  isAbstract : Bool

/-- The part of a type for a property. -/
def contentOf (p : StructuralProperty) (type : ElementType) : Content :=
  .element p.bounds ⟨⟨none, p.name⟩, some type, noteOf p.cim p.label p.description⟩

/-- The type of a range that has been written out : with a name if it has to have one. -/
def closeRange (x : Source) (s : Parts) (cs : List StructuralClass) (b : Body) :
    ElementType × Parts :=
  let name := b.name.or
    (if s.recursive.contains (rangeKey cs) then some (rangeName cs) else none)
  match name with
  | some name => (.named (x.localName name), s.addType name b.isAbstract b.item)
  | none => (.complex ⟨none, b.isAbstract, none, b.item⟩, s)

/-- What a class consists of, given its properties : a group, if the settings ask for it. -/
def closeClass (x : Source) (s : Parts) (role : Role) (c : StructuralClass)
    (contents : List Content) : Item × Parts :=
  let contents := role.lead ++ contents
  if role = .value && x.otherClasses.extractGroup then
    (.group (x.localName c.name), s.addGroup c.name contents)
  else (.sequence contents, s)

mutual

/-- What a class consists of, `stack` being the keys of the ranges that are open. -/
def itemOf (x : Source) (stack : List String) (s : Parts) (role : Role) (c : x.model.Member) :
    Except ModelError (Item × Parts) :=
  if x.model.isForeign c.val then
    let (name, s) := x.nameOf s c.val
    .ok (.group name, s)
  else
    match contentsOf x stack s (role.features c) with
    | .error e => .error e
    | .ok (contents, s) => .ok (closeClass x s role c.val contents)
termination_by (x.model.closedRanges stack, 2, 0)
decreasing_by exact Prod.Lex.right _ (Prod.Lex.left _ _ (by omega))

/-- The parts of a type for properties. -/
def contentsOf (x : Source) (stack : List String) (s : Parts) :
    List x.model.Feature → Except ModelError (List Content × Parts)
  | [] => .ok ([], s)
  | p :: rest =>
    let type : Except ModelError (ElementType × Parts) :=
      match p.val.range with
      | .error e => .error e
      | .ok (.datatypes ds) =>
        let usesLangString := s.usesLangString || ds.any Source.isLangString
        .ok (x.datatypesType ds, { s with usesLangString })
      | .ok (.classes _) =>
        match StructuralModel.rangeOf p with
        | .error e => .error e
        | .ok r =>
          if r.val.all fun c => !c.val.isCodelist then typeOf x stack s r
          else if r.val.all fun c => c.val.isCodelist then .ok (.named (.xs "anyURI"), s)
          else .error (.mixedRange p.val.iri)
    match type with
    | .error e => .error e
    | .ok (type, s) =>
      match contentsOf x stack s rest with
      | .error e => .error e
      | .ok (contents, s) => .ok (contentOf p.val type :: contents, s)
termination_by ps => (x.model.closedRanges stack, 1, ps.length)
decreasing_by
  · exact Prod.Lex.right _ (Prod.Lex.left _ _ (by omega))
  · exact Prod.Lex.right _ (Prod.Lex.right _ (by simp))

/-- The type of a range. A range that is open has a named type. -/
def typeOf (x : Source) (stack : List String) (s : Parts) (r : x.model.Range) :
    Except ModelError (ElementType × Parts) :=
  let cs := StructuralModel.classList r.val
  if _h : rangeKey cs ∈ stack then
    .ok (.named (x.localName (rangeName cs)),
      { s with recursive := s.recursive.add (rangeKey cs) })
  else
    match bodyOf x (rangeKey cs :: stack) s r.val with
    | .error e => .error e
    | .ok (b, s) => .ok (closeRange x s cs b)
termination_by (x.model.closedRanges stack, 0, 0)
decreasing_by exact Prod.Lex.left _ _ (StructuralModel.closedRanges_cons_lt r _h)

/-- What a range consists of. Of several classes, the types are made of which all but one
extend another. -/
def bodyOf (x : Source) (stack : List String) (s : Parts) :
    List x.model.Member → Except ModelError (Body × Parts)
  | [c] =>
    match itemOf x stack s .value c with
    | .error e => .error e
    | .ok (item, s) =>
      .ok (⟨item, if x.otherClasses.extractType then some c.val.name else none, false⟩, s)
  | cs =>
    match tops (cs.map fun c => c.val.iri) cs with
    | .error e => .error e
    | .ok [top] =>
      match itemOf x stack s .value top with
      | .error e => .error e
      | .ok (item, s) =>
        match extendAll x stack s top.val.name (cs.filter fun c => c.val.iri ≠ top.val.iri) with
        | .error e => .error e
        | .ok s => .ok (⟨item, some top.val.name, false⟩, s)
    | .ok roots =>
      let name := joinedName (StructuralModel.classList roots)
      match extendAll x stack s name cs with
      | .error e => .error e
      | .ok s => .ok (⟨.sequence [iriContent], some name, true⟩, s)
termination_by (x.model.closedRanges stack, 4, 0)
decreasing_by all_goals exact Prod.Lex.right _ (Prod.Lex.left _ _ (by omega))

/-- Add the types of classes that extend another type, `top` if they have no parent. -/
def extendAll (x : Source) (stack : List String) (s : Parts) (top : String) :
    List x.model.Member → Except ModelError Parts
  | [] => .ok s
  | c :: rest =>
    match itemOf x stack s .extension c with
    | .error e => .error e
    | .ok (item, s) =>
      match baseName x.model top c.val with
      | .error e => .error e
      | .ok base =>
        extendAll x stack
          (s.addType c.val.name false (.extension (x.localName base) [.once item])) top rest
termination_by cs => (x.model.closedRanges stack, 3, cs.length)
decreasing_by
  · exact Prod.Lex.right _ (Prod.Lex.left _ _ (by omega))
  · exact Prod.Lex.right _ (Prod.Lex.right _ (by simp))

end

/-! ## Roots -/

/-- The type of the element of a root class with its group and its own name, if the
settings ask for them. -/
def extractRoot (x : Source) (s : Parts) (name : String) (t : ComplexType) :
    ElementType × Parts :=
  let (t, s) :=
    if x.rootClass.extractGroup then
      ({ t with item := .group (x.localName name) }, s.addGroup name [.once t.item])
    else (t, s)
  if x.rootClass.extractType then
    (.named (x.localName name),
      { s with types := s.types.insert name { t with name := some name } })
  else (.complex t, s)

/-- The element of a root class. -/
def rootElement (x : Source) (s : Parts) (c : x.model.Member) :
    Except ModelError (Element × Parts) :=
  let key := rangeKey [c.val]
  match itemOf x [key] s .root c with
  | .error e => .error e
  | .ok (item, s) =>
    let s := if s.recursive.contains key then s.addType c.val.name false item else s
    let (name, s) := x.nameOf s c.val
    let note := noteOf c.val.cim c.val.label c.val.description
    let (type, s) := extractRoot x s name.name ⟨none, false, note, item⟩
    .ok (⟨name, some type, none⟩, s)

/-- The elements of root classes. -/
def rootElements (x : Source) (s : Parts) :
    List x.model.Member → Except ModelError (List Element × Parts)
  | [] => .ok ([], s)
  | c :: rest =>
    match rootElement x s c with
    | .error e => .error e
    | .ok (e, s) =>
      match rootElements x s rest with
      | .error e => .error e
      | .ok (es, s) => .ok (e :: es, s)

/-- The schema of a model. -/
def ofModel (x : Source) : Except ModelError XmlSchema := do
  let roots ← x.model.members x.model.roots
  let (elements, s) ← rootElements x .empty roots
  return {
    uri := x.model.xmlNamespace
    qualifier := x.model.xmlPrefix
    imports := s.imports.values
    definesLangString := s.usesLangString
    groups := s.groups.toList.map fun e => ⟨e.1, e.2⟩
    types := s.types.values
    elements }

end DataSpec.XmlSchema
