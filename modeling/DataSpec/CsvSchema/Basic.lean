import DataSpec.Resource.Value

/-!
# CSV schemas

A `CsvSchema` describes tables : their columns, and the columns that refer to other
tables. It describes one table or a group of tables.
-/

set_option autoImplicit false

namespace DataSpec

namespace CsvSchema

/-- A column of a table. -/
structure Column where
  /-- The name, as it stands in URIs. -/
  name : Option String
  /-- The title in the first row of the table. -/
  title : Option String
  label : LanguageText
  description : LanguageText
  /-- What the column says about what a row is about. -/
  propertyUrl : Option String
  /-- The identifier of a value. -/
  valueUrl : Option String
  datatype : Option String
  language : Option String
  isRequired : Bool
  /-- Whether the column is not in the table. -/
  isVirtual : Bool
deriving DecidableEq

/-- The column about which nothing is said. -/
def Column.empty : Column := ⟨none, none, .empty, .empty, none, none, none, none, false, false⟩

/-- A column whose values are those of a column of another table. -/
structure ForeignKey where
  column : String
  /-- The other table. -/
  table : String
  /-- The column of the other table. -/
  target : String
deriving DecidableEq

/-- A table. -/
structure Table where
  id : Option String
  url : String
  columns : List Column
  foreignKeys : List ForeignKey
deriving DecidableEq

/-- What is described. -/
inductive Content where
  | table (t : Table)
  | group (ts : List Table)
deriving DecidableEq

end CsvSchema

/-- A description of tables. -/
structure CsvSchema where
  /-- The language of its texts. -/
  language : String
  content : CsvSchema.Content
deriving DecidableEq

end DataSpec
