import DataSpec.Json.Basic
import DataSpec.JsonSchema.Basic

/-!
# JSON schemas as JSON

`JsonSchema.toJson` is the document of a schema. The members of an object come in a fixed
order, and those that say nothing are left out, so that the document of a definition
without words and without a constraint is the empty object.
-/

set_option autoImplicit false

namespace DataSpec.JsonSchema

/-- A member with a number, left out if there is none. -/
def countMember (name : String) (n : Option UInt32) : List (String × Json) :=
  match n with
  | some n => [(name, .nat n.toNat)]
  | none => []

/-- The member that says of what type a value is. -/
def typeMember (name : String) : String × Json := ("type", .str name)

/-- The member with the names of the properties that an object needs. -/
def requiredMember (names : List String) : List (String × Json) :=
  if names.isEmpty then [] else [("required", .strings names)]

mutual

/-- The members that state a definition. -/
def Definition.members : Definition String → List (String × Json)
  | ⟨title, description, shape⟩ =>
    Json.textMember "title" title ++ Json.textMember "description" description ++ shape.members

/-- The members that state a shape. -/
def Shape.members : Shape String → List (String × Json)
  | .object properties required =>
    typeMember "object" :: requiredMember required ++
      [("properties", .obj (Json.mergeMembers (propertyMembers properties)))]
  | .array items min max =>
    [typeMember "array", ("items", .obj items.members)] ++
      countMember "minItems" min ++ countMember "maxItems" max
  | .text format => typeMember "string" :: Json.textMember "format" format
  | .integer => [typeMember "integer"]
  | .number => [typeMember "number"]
  | .boolean => [typeMember "boolean"]
  | .languageMap =>
    [typeMember "object", ("additionalProperties", .obj [typeMember "string"])]
  | .anyOf alternatives => [("anyOf", .arr (documents alternatives))]
  | .ref target => [("$ref", .str target)]
  | .any => []

/-- Properties with their documents, in order. -/
def propertyMembers : List (String × Definition String) → List (String × Json)
  | [] => []
  | (name, d) :: rest => (name, .obj d.members) :: propertyMembers rest

/-- The documents of definitions. -/
def documents : List (Definition String) → List Json
  | [] => []
  | d :: rest => .obj d.members :: documents rest

end

/-- The member with the named definitions. -/
def defsMember (defs : SortedMap String (Definition String)) : List (String × Json) :=
  if defs.isEmpty then [] else [("$defs", .obj (propertyMembers defs.toList))]

/-- The document of a schema. -/
def toJson (s : JsonSchema) : Json :=
  .obj (Json.textMember "$schema" s.dialect ++ Json.textMember "$id" s.id ++ s.root.members ++
    defsMember s.defs)

end DataSpec.JsonSchema
