import DataSpec.CsvSchema.Basic
import DataSpec.Json.Basic

/-!
# CSV schemas as JSON

`CsvSchema.toJson` is the document of a schema. What is not known about a column is left
out, and what is false as well.
-/

set_option autoImplicit false

namespace DataSpec.CsvSchema

/-- A member that is left out unless it is true. -/
def flagMember (name : String) (b : Bool) : List (String × Json) :=
  if b then [(name, .bool true)] else []

/-- A text in one language. -/
def wording (e : String × String) : Json :=
  .obj [("@value", .str e.2), ("@language", .str e.1)]

/-- A text in several languages : one of them alone, several as an array. -/
def wordingsMember (name : String) (t : LanguageText) : List (String × Json) :=
  match t.toList with
  | [] => []
  | [e] => [(name, wording e)]
  | es => [(name, .arr (es.map wording))]

/-- A column. -/
def Column.toJson (c : Column) : Json :=
  .obj (Json.textMember "name" c.name ++ Json.textMember "titles" c.title ++
    wordingsMember "dc:title" c.label ++ wordingsMember "dc:description" c.description ++
    Json.textMember "propertyUrl" c.propertyUrl ++ Json.textMember "valueUrl" c.valueUrl ++
    Json.textMember "datatype" c.datatype ++ Json.textMember "lang" c.language ++
    flagMember "required" c.isRequired ++ flagMember "virtual" c.isVirtual)

/-- A foreign key. -/
def ForeignKey.toJson (k : ForeignKey) : Json :=
  .obj [("columnReference", .str k.column),
    ("reference", .obj [("resource", .str k.table), ("columnReference", .str k.target)])]

/-- The member with the foreign keys, left out if there are none. -/
def foreignKeysMember (ks : List ForeignKey) : List (String × Json) :=
  if ks.isEmpty then [] else [("foreignKeys", .arr (ks.map ForeignKey.toJson))]

/-- The members that state a table. -/
def Table.members (t : Table) : List (String × Json) :=
  Json.textMember "@id" t.id ++
    [("url", .str t.url), ("tableSchema", .obj
      (("columns", .arr (t.columns.map Column.toJson)) :: foreignKeysMember t.foreignKeys))]

/-- The members that state what is described. -/
def Content.members : Content → List (String × Json)
  | .table t => t.members
  | .group ts => [("tables", .arr (ts.map fun t => .obj t.members))]

/-- The document of a schema. -/
def toJson (s : CsvSchema) : Json :=
  .obj (("@context",
    .arr [.str "http://www.w3.org/ns/csvw", .obj [("@language", .str s.language)]]) ::
      s.content.members)

end DataSpec.CsvSchema
