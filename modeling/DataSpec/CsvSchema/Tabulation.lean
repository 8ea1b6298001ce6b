import DataSpec.CsvSchema.Basic
import DataSpec.Datatype
import DataSpec.Publication
import DataSpec.Structural.Nesting
import DataSpec.Text.Percent

/-!
# CSV schemas of models

`CsvSchema.ofModel` describes the tables in which the objects of the root class of a model
are written down. In one table, the properties of a class that an association leads to
are columns of their own, and their titles begin with those of the associations. In
several tables, there is a table for every such association, and a column of it refers
to the table that it comes from.

A class is not described inside itself : the association that leads back to it is an
ordinary column, as it is for codelists and for classes without properties.
-/

set_option autoImplicit false

namespace DataSpec.CsvSchema

/-! ## Where things are -/

/-- The place of a document that lies next to the published one. -/
def urlBeside (p : Publication) (name : String) : String :=
  String.ofList
    ((p.artefact.publicUrl.toList.reverse.dropWhile fun c => c ≠ '/').reverse ++ name.toList)

/-- The place of the only table. -/
def onlyTableUrl (p : Publication) : String := urlBeside p "table.csv"

/-- The place of the table with a number, counted from one. -/
def tableUrl (p : Publication) (number : Nat) : String :=
  urlBeside p ("tables/" ++ toString number ++ ".csv")

/-! ## Columns -/

/-- The name of the values of a datatype. -/
def datatypeName : Datatype → String
  | .boolean => "boolean"
  | .date => "date"
  | .time => "time"
  | .dateTime => "dateTime"
  | .integer => "integer"
  | .decimal => "decimal"
  | .url => "anyURI"
  | .string | .text => "string"

/-- What a property adds to a table. -/
inductive Source (m : StructuralModel) where
  /-- Values, of a datatype if it is known. -/
  | values (datatype : Option String)
  | object (c : m.Member)

/-- What a property adds to a table. It has to lead to one class if it leads to classes. -/
def sourceOf (m : StructuralModel) (q : StructuralProperty) : Except ModelError (Source m) :=
  match q.range with
  | .error e => .error e
  | .ok (.datatypes [d]) => .ok (.values ((d.bind Datatype.ofIri?).map datatypeName))
  | .ok (.datatypes _) => .ok (.values (some "string"))
  | .ok (.classes [iri]) => (m.member iri).map .object
  | .ok (.classes _) => .error (.severalClasses q.iri)

/-- The name of a column with a title. -/
def columnName (title : String) : String := Text.percentEncode Text.isUriChar title

/-- The language in which texts are written first. -/
def language? (p : Publication) : Option String := p.config.languages.head?

/-- The column of values of a datatype. -/
def valueColumn (p : Publication) (path : String) (q : StructuralProperty)
    (datatype : Option String) : Column where
  name := some (columnName (path ++ q.name))
  title := some (path ++ q.name)
  label := q.label
  description := q.description
  propertyUrl := q.cim
  valueUrl := none
  datatype
  language := language? p
  isRequired := q.bounds.min = 1 && q.bounds.max = some 1
  isVirtual := false

/-- The column of objects, which are named by their identifiers if they are those of a
codelist. -/
def objectColumn (p : Publication) (path : String) (q : StructuralProperty)
    (c : StructuralClass) : Column :=
  let column := valueColumn p path q (some "string")
  if c.isCodelist then
    { column with
      datatype := none
      valueUrl := some ("\x7b+" ++ columnName (path ++ q.name) ++ "\x7d") }
  else column

/-- The column that identifies a row. -/
def idColumn : Column :=
  { Column.empty with name := some "ReferenceId", datatype := some "string" }

/-- The column that says of what class the objects of a table are. -/
def typeColumn (c : StructuralClass) : Column :=
  { Column.empty with propertyUrl := some "rdf:type", valueUrl := c.cim, isVirtual := true }

/-- Whether a class is not described where an association leads to it, `stack` being the
classes that are open. -/
def isLeaf (stack : List Iri) (c : StructuralClass) : Bool :=
  c.properties.isEmpty || c.isCodelist || stack.contains c.iri

theorem not_mem_of_isLeaf_eq_false {stack : List Iri} {c : StructuralClass}
    (h : ¬ isLeaf stack c = true) : c.iri ∉ stack := by
  simp only [isLeaf, Bool.or_eq_true, List.contains_iff_mem] at h
  exact fun hm => h (Or.inr hm)

/-! ## One table -/

/-- The columns for properties, with titles that begin with `path`. -/
def columnsOf (p : Publication) (m : StructuralModel) (stack : List Iri) (path : String) :
    List StructuralProperty → Except ModelError (List Column)
  | [] => .ok []
  | q :: rest =>
    let here : Except ModelError (List Column) :=
      match sourceOf m q with
      | .error e => .error e
      | .ok (.values datatype) => .ok [valueColumn p path q datatype]
      | .ok (.object c) =>
        if _h : isLeaf stack c.val then .ok [objectColumn p path q c.val]
        else columnsOf p m (c.val.iri :: stack) (path ++ q.name ++ "_") c.val.properties
    match here with
    | .error e => .error e
    | .ok here => (columnsOf p m stack path rest).map (here ++ ·)
termination_by qs => (m.closedCount stack, qs.length)
decreasing_by
  · exact Prod.Lex.left _ _
      (StructuralModel.closedCount_cons_lt c.property (not_mem_of_isLeaf_eq_false _h))
  · exact Prod.Lex.right _ (by simp)

/-- The table of a class, with the columns of all that it leads to. -/
def onlyTable (p : Publication) (m : StructuralModel) (root : StructuralClass) :
    Except ModelError Table := do
  let columns ← columnsOf p m [root.iri] "" root.properties
  let url := p.artefact.publicUrl
  return {
    id := if url.isEmpty then none else some url
    url := onlyTableUrl p
    columns := columns ++ [typeColumn root]
    foreignKeys := [] }

/-! ## Several tables -/

/-- The table of a class with columns for its properties. -/
def tableOf (url : String) (foreignKeys : List ForeignKey) (c : StructuralClass)
    (columns : List Column) : Table where
  id := none
  url
  columns := idColumn :: columns ++ [typeColumn c]
  foreignKeys

/-- The reference to a column of the table from which an association comes. -/
def backReference (url : String) (q : StructuralProperty) : ForeignKey where
  column := "ReferenceId"
  table := url
  target := columnName q.name

/-- The columns for properties in the table at a place, and the tables that they lead to;
`count` is the number of tables before these. -/
def partsOf (p : Publication) (m : StructuralModel) (stack : List Iri) (url : String)
    (count : Nat) : List StructuralProperty → Except ModelError (List Column × List Table)
  | [] => .ok ([], [])
  | q :: rest =>
    let here : Except ModelError (Column × List Table) :=
      match sourceOf m q with
      | .error e => .error e
      | .ok (.values datatype) => .ok (valueColumn p "" q datatype, [])
      | .ok (.object c) =>
        if _h : isLeaf stack c.val then .ok (objectColumn p "" q c.val, [])
        else
          let nested := tableUrl p (count + 1)
          match partsOf p m (c.val.iri :: stack) nested (count + 1) c.val.properties with
          | .error e => .error e
          | .ok (columns, tables) =>
            .ok (objectColumn p "" q c.val,
              tableOf nested [backReference url q] c.val columns :: tables)
    match here with
    | .error e => .error e
    | .ok (column, tables) =>
      match partsOf p m stack url (count + tables.length) rest with
      | .error e => .error e
      | .ok (columns, more) => .ok (column :: columns, tables ++ more)
termination_by qs => (m.closedCount stack, qs.length)
decreasing_by
  · exact Prod.Lex.left _ _
      (StructuralModel.closedCount_cons_lt c.property (not_mem_of_isLeaf_eq_false _h))
  · exact Prod.Lex.right _ (by simp)

/-- The tables of a class and of all classes that it leads to. -/
def tables (p : Publication) (m : StructuralModel) (root : StructuralClass) :
    Except ModelError (List Table) := do
  let url := tableUrl p 1
  let (columns, more) ← partsOf p m [root.iri] url 1 root.properties
  return tableOf url [] root columns :: more

/-! ## Schemas -/

/-- The language of a schema for readers without a preference. -/
def defaultLanguage : String := "cs"

/-- The schema of a model, which has to have one root class. -/
def ofModel (p : Publication) (m : StructuralModel) : Except ModelError CsvSchema :=
  match m.roots with
  | [iri] => do
    let root ← m.requireClass iri
    let content ←
      match p.config.layout with
      | .single => (onlyTable p m root).map Content.table
      | .multiple => (tables p m root).map Content.group
    return ⟨(language? p).getD defaultLanguage, content⟩
  | roots => .error (.notOneRoot m.iri roots.length)

end DataSpec.CsvSchema
