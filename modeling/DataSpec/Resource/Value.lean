import DataSpec.Json.Decode
import DataSpec.SortedMap

/-!
# Attribute values

The seven shapes of values that attributes have, and their written forms. Texts for
people are given per language (`LanguageText`), and bounds on the number of values of a
property are a `Cardinality`.
-/

set_option autoImplicit false

namespace DataSpec

/-- The identifier of a resource. -/
abbrev Iri := String

/-! ## Texts by language -/

/-- A text in several languages, by language tag. -/
abbrev LanguageText := SortedMap String String

namespace LanguageText

/-- The text in the first of the preferred languages that is there, else in the first
language that is there. -/
def select (t : LanguageText) (preferred : List String) : Option String :=
  match preferred.findSome? fun language => t.get? language with
  | some s => some s
  | none => t.values.head?

/-- The written form. -/
def toJson (t : LanguageText) : Json := .obj (t.toList.map fun e => (e.1, .str e.2))

/-- The text with a written form. -/
def ofJson? (v : Json) : Option LanguageText := v.map? some Json.str?

/-- The text in a member of an object, empty if it is missing. -/
def ofMember? (v : Json) (name : String) : Option LanguageText := v.orElse name .empty ofJson?

end LanguageText

/-! ## Cardinalities -/

/-- How many values a property has : at least `min` and, unless it is unbounded, at most
`max`. -/
structure Cardinality where
  min : UInt32
  max : Option UInt32
deriving DecidableEq

namespace Cardinality

/-- Any number of values. -/
def any : Cardinality := ⟨0, none⟩

/-- At least one value has to be there. -/
def isRequired (c : Cardinality) : Bool := decide (1 ≤ c.min)

/-- More than one value may be there. -/
def isMultiple (c : Cardinality) : Bool :=
  match c.max with
  | some max => decide (1 < max)
  | none => true

/-- The bounds with two points between them, a star for no upper bound. -/
def text (c : Cardinality) : String :=
  toString c.min.toNat ++ ".." ++
    match c.max with
    | some max => toString max.toNat
    | none => "*"

/-- A number of at most 32 bits. -/
def bound? (v : Json) : Option UInt32 := (v.natBelow? UInt32.size).map UInt32.ofNat

/-- The written form. -/
def toJson (c : Cardinality) : Json :=
  .obj [("min", .nat c.min.toNat), ("max", Json.orNull (c.max.map fun max => .nat max.toNat))]

/-- The cardinality with a written form. -/
def ofJson? (v : Json) : Option Cardinality :=
  match v.record ["min", "max"] with
  | some [min, max] =>
    match min.required bound?, max.optional bound? with
    | some min, some max => some ⟨min, max⟩
    | _, _ => none
  | _ => none

end Cardinality

/-! ## Values -/

/-- The value of an attribute. -/
inductive AttributeValue where
  | text (s : String)
  | languageText (t : LanguageText)
  | iri (iri : Iri)
  | iriList (iris : List Iri)
  | integer (n : Int64)
  | flag (b : Bool)
  | cardinality (c : Cardinality)
deriving DecidableEq

namespace AttributeValue

/-- The names of the shapes. -/
inductive Shape where
  | text
  | languageText
  | iri
  | iriList
  | integer
  | flag
  | cardinality
deriving DecidableEq

namespace Shape

/-- The written form of a shape. -/
def name : Shape → String
  | text => "text"
  | languageText => "language-string"
  | iri => "iri"
  | iriList => "iri-list"
  | integer => "integer"
  | flag => "flag"
  | cardinality => "cardinality"

/-- All shapes. -/
def all : List Shape := [text, languageText, iri, iriList, integer, flag, cardinality]

/-- The shape with a written form. -/
def ofName? (s : String) : Option Shape := all.find? fun k => k.name = s

/-- The shape that the first item of an array names; in a buffer its place among all shapes
will do, too. -/
def ofItem? : Json.Origin → Json → Option Shape
  | _, .str s => ofName? s
  | .buffered, .int (.ofNat n) => all[n]?
  | _, _ => none

@[simp]
theorem ofName?_name (k : Shape) : ofName? k.name = some k := by cases k <;> decide

end Shape

/-- The shape of a value. -/
def shape : AttributeValue → Shape
  | text _ => .text
  | languageText _ => .languageText
  | iri _ => .iri
  | iriList _ => .iriList
  | integer _ => .integer
  | flag _ => .flag
  | cardinality _ => .cardinality

/-- The written form of a value without its shape. -/
def content : AttributeValue → Json
  | text s => .str s
  | languageText t => t.toJson
  | iri i => .str i
  | iriList is => .strings is
  | integer n => .int n.toInt
  | flag b => .bool b
  | cardinality c => c.toJson

/-- The value of a shape with a written form. -/
def ofContent? : Shape → Json → Option AttributeValue
  | .text, v => v.str?.map .text
  | .languageText, v => (LanguageText.ofJson? v).map .languageText
  | .iri, v => v.str?.map .iri
  | .iriList, v => (v.list? Json.str?).map .iriList
  | .integer, v => v.int64?.map fun n => .integer (Int64.ofInt n)
  | .flag, v => v.bool?.map .flag
  | .cardinality, v => (Cardinality.ofJson? v).map .cardinality

/-- The written form. -/
def toJson (v : AttributeValue) : Json :=
  .obj [("type", .str v.shape.name), ("value", v.content)]

/-- The shape of the value with a written form. -/
def shapeOf? (origin : Json.Origin) : Json → Json → Option Shape
  | .arr _ => Shape.ofItem? origin
  | _ => Json.named? origin Shape.ofName?

/-- The value with a written form. If it stands before its shape, all of it has to be
read. -/
def ofJson? (origin : Json.Origin) (v : Json) : Option AttributeValue :=
  match v.record ["type", "value"] with
  | some [type, value] =>
    (type.required (shapeOf? origin v)).bind fun shape =>
      value.required fun w =>
        if v.leads "value" "type" && !w.isReadable then none else ofContent? shape w
  | _ => none

end AttributeValue

end DataSpec
