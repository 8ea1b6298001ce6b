import DataSpec.Proofs.CsvSchema.Columns
import DataSpec.Proofs.Decimal.Digits

/-!
# The tables of a group

A group has a table for each `Stop` on the walk down from the root class, and the steps of its
route lead to the class that it is for (`exists_nested_of_ofModel`). The tables are numbered in
the order of the walk, so their places differ (`Nested.nodup_urls`). A table has a column for
each property of its class, and one behind the first refers to the column of its last step in
the table before it on the route : the tables are a tree (`tree_of_group`).
-/

set_option autoImplicit false

namespace DataSpec.CsvSchema

/-! ## The walk -/

/-- A step from a class to one that an association leads to. -/
structure Step where
  /-- The place of the association among the properties of the class. -/
  place : Nat
  association : StructuralProperty
  target : StructuralClass

/-- A table, and the steps that lead from the root class to the class that it is for. -/
structure Stop where
  route : List Step
  table : Table

/-- The class at the end of steps from a class. -/
def endOf : StructuralClass → List Step → StructuralClass
  | c, [] => c
  | _, step :: steps => endOf step.target steps

/-- A stop from one step before. -/
def Stop.behind (step : Step) (stop : Stop) : Stop := { stop with route := step :: stop.route }

/-- The column of a property in the table of its class. -/
def propertyColumn (p : Publication) (m : StructuralModel) (q : StructuralProperty) : Column :=
  columnAt p m "" ⟨[], q⟩

/-- The table of a class. -/
def classTable (p : Publication) (m : StructuralModel) (url : String) (keys : List ForeignKey)
    (c : StructuralClass) : Table :=
  tableOf url keys c (c.properties.map (propertyColumn p m))

/-- The stops behind properties of the class whose table is at `url`, where the classes of
`stack` are open, there are `count` tables before, and the first property has a place. -/
inductive Nested (p : Publication) (m : StructuralModel) :
    List Iri → String → Nat → Nat → List StructuralProperty → List Stop → Prop where
  | nil {stack url count place} : Nested p m stack url count place [] []
  /-- Values have no table of their own, -/
  | values {stack url count place q datatype qs stops} :
    sourceOf m q = .ok (.values datatype) → Nested p m stack url count (place + 1) qs stops →
    Nested p m stack url count place (q :: qs) stops
  /-- nor has an object that is not described. -/
  | closed {stack url count place q c qs stops} :
    sourceOf m q = .ok (.object c) → isLeaf stack c.val = true →
    Nested p m stack url count (place + 1) qs stops →
    Nested p m stack url count place (q :: qs) stops
  /-- Any other object has one, and those behind its class. -/
  | opened {stack url count place q c qs inner stops} :
    sourceOf m q = .ok (.object c) → isLeaf stack c.val = false →
    Nested p m (c.val.iri :: stack) (tableUrl p (count + 1)) (count + 1) 0 c.val.properties inner →
    Nested p m stack url (count + (inner.length + 1)) (place + 1) qs stops →
    Nested p m stack url count place (q :: qs)
      (⟨[⟨place, q, c.val⟩], classTable p m (tableUrl p (count + 1)) [backReference url q] c.val⟩ ::
        inner.map (Stop.behind ⟨place, q, c.val⟩) ++ stops)

variable {p : Publication} {m : StructuralModel} {stack : List Iri} {url : String}
  {count place : Nat} {q : StructuralProperty} {qs : List StructuralProperty} {schema : CsvSchema}

/-- The columns and tables of the first property come before those of the others. -/
theorem partsOf_cons_eq_ok {columns : List Column} {tables : List Table}
    (h : partsOf p m stack url count (q :: qs) = .ok (columns, tables)) :
    ∃ source column here rest more, sourceOf m q = .ok source ∧
      sourceParts p (fun url count q (c : m.Member) =>
        if isLeaf stack c.val then .ok (objectColumn p "" q c.val, [])
        else openedTable p (fun url count c => partsOf p m (c.iri :: stack) url count c.properties)
          url count q c.val) url count q source = .ok (column, here) ∧
      partsOf p m stack url (count + here.length) qs = .ok (rest, more) ∧
      columns = column :: rest ∧ tables = here ++ more := by
  rw [partsOf_eq, partsWith] at h
  obtain ⟨source, hsource, h⟩ := Except.bind_eq_ok.mp h
  obtain ⟨⟨column, here⟩, hhere, h⟩ := Except.bind_eq_ok.mp h
  obtain ⟨⟨rest, more⟩, hrest, h⟩ := Except.bind_eq_ok.mp h
  obtain ⟨rfl, rfl⟩ := Prod.mk.inj (Except.ok.inj h)
  rw [← partsOf_eq] at hrest
  exact ⟨source, column, here, rest, more, hsource, hhere, hrest, rfl, rfl⟩

/-- Properties become columns, and the tables of the stops behind them. -/
theorem exists_nested_of_partsOf {stack : List Iri} {url : String} {count : Nat} (place : Nat)
    {qs : List StructuralProperty} {columns : List Column} {tables : List Table}
    (h : partsOf p m stack url count qs = .ok (columns, tables)) :
    columns = qs.map (propertyColumn p m) ∧
      ∃ stops, Nested p m stack url count place qs stops ∧ tables = stops.map Stop.table := by
  match qs with
  | [] =>
    rw [partsOf] at h
    obtain ⟨rfl, rfl⟩ := Prod.mk.inj (Except.ok.inj h)
    exact ⟨rfl, [], .nil, rfl⟩
  | q :: qs =>
    obtain ⟨source, column, here, rest, more, hsource, hhere, hrest, rfl, rfl⟩ :=
      partsOf_cons_eq_ok h
    obtain ⟨rfl, stops, hstops, rfl⟩ := exists_nested_of_partsOf (place + 1) hrest
    have hcolumn : propertyColumn p m q = columnAt p m "" ⟨[], q⟩ := rfl
    rw [List.map_cons, hcolumn, columnAt, hsource]
    cases source with
    | values datatype =>
      obtain ⟨rfl, rfl⟩ := Prod.mk.inj (Except.ok.inj hhere)
      exact ⟨rfl, stops, .values hsource hstops, rfl⟩
    | object c =>
      rw [sourceParts] at hhere
      split at hhere
      · rename_i hleaf
        obtain ⟨rfl, rfl⟩ := Prod.mk.inj (Except.ok.inj hhere)
        exact ⟨rfl, stops, .closed hsource hleaf hstops, rfl⟩
      · rename_i hleaf
        obtain ⟨⟨columns, tables⟩, hparts, hhere⟩ := Except.map_eq_ok.mp hhere
        obtain ⟨rfl, rfl⟩ := Prod.mk.inj hhere
        obtain ⟨rfl, inner, hinner, rfl⟩ := exists_nested_of_partsOf 0 hparts
        rw [List.length_cons, List.length_map] at hstops
        refine ⟨rfl, _, .opened hsource (Bool.eq_false_iff.mpr hleaf) hinner hstops, ?_⟩
        simp [classTable, Stop.behind, Function.comp_def]
termination_by (m.closedCount stack, qs.length)
decreasing_by
  · exact Prod.Lex.right _ (by simp)
  · exact Prod.Lex.left _ _
      (StructuralModel.closedCount_cons_lt c.property (not_mem_of_isLeaf_eq_false ‹_›))

/-- A table is that of the class at the end of its route. -/
theorem Nested.table_eq {stops : List Stop} (h : Nested p m stack url count place qs stops)
    (root : StructuralClass) :
    ∀ stop ∈ stops, ∃ url keys, stop.table = classTable p m url keys (endOf root stop.route) := by
  induction h generalizing root with
  | nil => simp
  | values _ _ ih => exact ih root
  | closed _ _ _ ih => exact ih root
  | @opened stack url count place q c qs inner stops _ _ _ _ ihinner ih =>
    refine List.forall_mem_cons.mpr ⟨⟨_, _, rfl⟩, List.forall_mem_append.mpr ⟨?_, ih root⟩⟩
    exact List.forall_mem_map.mpr fun stop hstop => ihinner c.val stop hstop

/-- The stop at the root class. -/
def rootStop (p : Publication) (m : StructuralModel) (root : StructuralClass) : Stop :=
  ⟨[], classTable p m (tableUrl p 1) [] root⟩

/-- A group has the table of the root class, and those of the stops behind it. -/
theorem exists_nested_of_ofModel (hlayout : p.config.layout = .multiple)
    (h : ofModel p m = .ok schema) :
    ∃ root stops, m.rootClasses = .ok [root] ∧
      Nested p m [root.iri] (tableUrl p 1) 1 0 root.properties stops ∧
      schema.content = .group ((rootStop p m root :: stops).map Stop.table) := by
  obtain ⟨root, hroot, hcontent⟩ := exists_content_of_ofModel h
  simp only [hlayout] at hcontent
  obtain ⟨ts, hts, hcontent⟩ := Except.map_eq_ok.mp hcontent
  obtain ⟨⟨columns, more⟩, hparts, hts⟩ := Except.bind_eq_ok.mp hts
  obtain rfl := Except.ok.inj hts
  obtain ⟨rfl, stops, hstops, rfl⟩ := exists_nested_of_partsOf 0 hparts
  exact ⟨root, stops, hroot, hstops, hcontent.symm⟩

/-! ## References between tables -/

/-- The only column of a table whose values are elsewhere is the one that identifies a row, and
they are those of a column of another table. -/
def Table.RefersTo (t parent : Table) : Prop :=
  ∃ key, t.foreignKeys = [key] ∧ key.column = "ReferenceId" ∧ key.table = parent.url ∧
    ∃ column ∈ parent.columns, column.name = some key.target

/-- Each table refers to one before it, or to one of the earlier tables. -/
def Attached : List Table → List Table → Prop
  | _, [] => True
  | earlier, t :: ts => (∃ parent ∈ earlier, t.RefersTo parent) ∧ Attached (t :: earlier) ts

theorem Attached.mono {earlier earlier' ts : List Table} (h : Attached earlier ts)
    (hsub : earlier ⊆ earlier') : Attached earlier' ts := by
  induction ts generalizing earlier earlier' with
  | nil => trivial
  | cons t ts ih =>
    obtain ⟨⟨parent, hparent, hrefers⟩, hrest⟩ := h
    exact ⟨⟨parent, hsub hparent, hrefers⟩, ih hrest (List.cons_subset_cons t hsub)⟩

theorem Attached.append {earlier ts ts' : List Table} (h : Attached earlier ts)
    (h' : Attached earlier ts') : Attached earlier (ts ++ ts') := by
  induction ts generalizing earlier with
  | nil => exact h'
  | cons t ts ih => exact ⟨h.1, ih h.2 (h'.mono (List.subset_cons_self t earlier))⟩

theorem Attached.exists_parent {earlier before after : List Table} {t : Table}
    (h : Attached earlier (before ++ t :: after)) :
    ∃ parent ∈ before ++ earlier, t.RefersTo parent := by
  induction before generalizing earlier with
  | nil => exact h.1
  | cons b before ih =>
    obtain ⟨parent, hparent, hrefers⟩ := ih h.2
    refine ⟨parent, ?_, hrefers⟩
    simp only [List.mem_append, List.mem_cons] at hparent ⊢
    tauto

theorem name_propertyColumn {source : Source m} (h : sourceOf m q = .ok source) :
    (propertyColumn p m q).name = some (columnName q.name) := by
  have hname : ∀ datatype, (valueColumn p (pathBelow "" []) q datatype).name =
      some (columnName q.name) := fun _ => congrArg (some ∘ columnName) String.empty_append
  rw [propertyColumn, columnAt, h]
  cases source with
  | values datatype => exact hname datatype
  | object c =>
    simp only [objectColumn]
    split <;> exact hname (some "string")

/-- The tables behind properties refer to the table of their class, or to one another. -/
theorem Nested.attached {stops : List Stop} (h : Nested p m stack url count place qs stops)
    (parent : Table) (hurl : parent.url = url)
    (hcolumns : ∀ q ∈ qs, propertyColumn p m q ∈ parent.columns) :
    Attached [parent] (stops.map Stop.table) := by
  induction h generalizing parent with
  | nil => trivial
  | values _ _ ih => exact ih parent hurl (List.forall_mem_cons.mp hcolumns).2
  | closed _ _ _ ih => exact ih parent hurl (List.forall_mem_cons.mp hcolumns).2
  | @opened stack url count place q c qs inner stops hsource hleaf _ _ ihinner ih =>
    obtain ⟨hcolumn, hcolumns⟩ := List.forall_mem_cons.mp hcolumns
    have hrefers : (classTable p m (tableUrl p (count + 1)) [backReference url q]
        c.val).RefersTo parent :=
      ⟨backReference url q, rfl, rfl, hurl.symm, _, hcolumn, name_propertyColumn hsource⟩
    have hinner := ihinner (classTable p m (tableUrl p (count + 1)) [backReference url q]
      c.val) rfl fun q hq => by simp [classTable, tableOf, List.mem_map_of_mem hq]
    rw [List.cons_append, List.map_cons, List.map_append, List.map_map]
    refine ⟨⟨parent, List.mem_singleton_self _, hrefers⟩, ?_⟩
    exact (hinner.mono (by simp)).append ((ih parent hurl hcolumns).mono (by simp))

theorem tableUrl_injective : Function.Injective (tableUrl p) := by
  intro n n' h
  have hlist := congrArg String.toList h
  simp only [tableUrl, urlBeside, String.toList_ofList, String.toList_append,
    List.append_cancel_left_eq, List.append_assoc, List.append_cancel_right_eq] at hlist
  exact Decimal.toString_inj.mp (String.toList_inj.mp hlist)

/-- Tables are numbered in the order of the walk. -/
theorem Nested.urls {stops : List Stop} (h : Nested p m stack url count place qs stops) :
    stops.map (fun stop => stop.table.url) =
      (List.range' (count + 1) stops.length).map (tableUrl p) := by
  induction h with
  | nil => rfl
  | values _ _ ih => exact ih
  | closed _ _ _ ih => exact ih
  | @opened stack url count place q c qs inner stops _ _ _ _ ihinner ih =>
    have hsame : (inner.map (Stop.behind ⟨place, q, c.val⟩)).map (fun stop => stop.table.url) =
        inner.map fun stop => stop.table.url := by simp [Stop.behind, Function.comp_def]
    have hcount : count + (inner.length + 1) + 1 = count + 1 + 1 + inner.length := by omega
    rw [List.cons_append, List.map_cons, List.length_cons, List.length_append, List.length_map,
      List.map_append, hsame, ihinner, ih, hcount, List.range'_succ, List.map_cons,
      ← List.range'_append_1, List.map_append]
    rfl

/-- The tables of a group are at different places. -/
theorem Nested.nodup_urls {stops : List Stop} {root : StructuralClass}
    (h : Nested p m stack url 1 place qs stops) :
    (((rootStop p m root :: stops).map Stop.table).map Table.url).Nodup := by
  have hurls : ((rootStop p m root :: stops).map Stop.table).map Table.url =
      (List.range' 1 (stops.length + 1)).map (tableUrl p) := by
    rw [List.map_map, List.map_cons, List.range'_succ, List.map_cons, ← h.urls]
    rfl
  rw [hurls]
  exact List.Nodup.map tableUrl_injective List.nodup_range'

/-- What a group of tables is like. -/
structure Joined (ts : List Table) : Prop where
  urls : (ts.map Table.url).Nodup
  /-- The first column of a table identifies its rows. -/
  first : ∀ t ∈ ts, t.columns.head?.map Column.name = some (some "ReferenceId")
  /-- The last one says of what class they are. -/
  last : ∀ t ∈ ts, ∃ column, t.columns.getLast? = some column ∧
    column.propertyUrl = some "rdf:type" ∧ column.isVirtual = true
  top : ∃ t rest, ts = t :: rest ∧ t.foreignKeys = []
  below : ∀ {before t after}, ts = before ++ t :: after → before ≠ [] →
    ∃ parent ∈ before, t.RefersTo parent

/-- The tables of a group are a tree, in which each table refers to a column of the one above. -/
theorem tree_of_group (hlayout : p.config.layout = .multiple) (h : ofModel p m = .ok schema) :
    ∃ ts, schema.content = .group ts ∧ Joined ts := by
  obtain ⟨root, stops, -, hstops, hcontent⟩ := exists_nested_of_ofModel hlayout h
  have hattached := hstops.attached (rootStop p m root).table rfl fun q hq => by
    simp [rootStop, classTable, tableOf, List.mem_map_of_mem hq]
  have hmade : ∀ t ∈ (rootStop p m root :: stops).map Stop.table,
      ∃ url keys c, t = classTable p m url keys c := by
    refine List.forall_mem_map.mpr (List.forall_mem_cons.mpr ⟨⟨_, _, _, rfl⟩, fun stop hstop => ?_⟩)
    obtain ⟨url, keys, heq⟩ := hstops.table_eq root stop hstop
    exact ⟨url, keys, _, heq⟩
  refine ⟨_, hcontent, hstops.nodup_urls, fun t ht => ?_, fun t ht => ?_, ⟨_, _, rfl, rfl⟩, ?_⟩
  · obtain ⟨url, keys, c, rfl⟩ := hmade t ht
    rfl
  · obtain ⟨url, keys, c, rfl⟩ := hmade t ht
    exact ⟨typeColumn c, by rw [classTable, tableOf, List.getLast?_concat], rfl, rfl⟩
  · intro before t after hsplit hne
    obtain ⟨b, before, rfl⟩ := List.exists_cons_of_ne_nil hne
    rw [List.map_cons, List.cons_append] at hsplit
    obtain ⟨rfl, hrest⟩ := List.cons.inj hsplit
    rw [hrest] at hattached
    obtain ⟨parent, hparent, hrefers⟩ := hattached.exists_parent
    exact ⟨parent, by simpa [or_comm] using hparent, hrefers⟩

/-! ## Persons and their homes -/

/-- The publication of a group of tables. -/
def groupPublication : Publication :=
  { tablePublication with config := { GenerationConfig.default with layout := .multiple } }

/-- A limit of two classes is enough to see that there is a group. -/
theorem exists_ofModel_group (others : List StructuralProperty)
    (hl : (streetModel ⟨1, some 1⟩ others).classKeys.dedup.length ≤ 2)
    (h : (ofModelWithin groupPublication (streetModel ⟨1, some 1⟩ others) (fun _ _ _ => .ok [])
      (fun _ _ _ _ => .ok ([], [])) 2).toOption.isSome = true) :
    ∃ schema, ofModel groupPublication (streetModel ⟨1, some 1⟩ others) = .ok schema := by
  obtain ⟨schema, hschema, -⟩ := exists_ofModel (p := groupPublication)
    (m := streetModel ⟨1, some 1⟩ others) (P := fun _ => true) _ _ 2 hl (by rwa [Option.any_true])
  exact ⟨schema, hschema⟩

/-- The table of persons. -/
def residentsTable : Table :=
  classTable groupPublication (streetModel ⟨1, some 1⟩ []) (tableUrl groupPublication 1) []
    (residentClass ⟨1, some 1⟩ [])

/-- The table of their homes. -/
def homesTable : Table :=
  classTable groupPublication (streetModel ⟨1, some 1⟩ []) (tableUrl groupPublication 2)
    [⟨"ReferenceId", tableUrl groupPublication 1, columnName "home"⟩] placeClass

/-- The only stop behind the persons is at their homes. -/
theorem Nested.table_lives {stops : List Stop}
    (h : Nested groupPublication (streetModel ⟨1, some 1⟩ []) ["person"]
      (tableUrl groupPublication 1) 1 0 [livesProperty ⟨1, some 1⟩] stops) :
    stops.map Stop.table = [homesTable] := by
  have hlives := sourceOf_lives ⟨1, some 1⟩ []
  cases h with
  | values hsource _ => cases hlives.symm.trans hsource
  | closed hsource hleaf _ =>
    obtain rfl := Source.object.inj (Except.ok.inj (hlives.symm.trans hsource))
    cases hleaf
  | opened hsource _ hinner hstops =>
    obtain rfl := Source.object.inj (Except.ok.inj (hlives.symm.trans hsource))
    cases hstops
    cases hinner with
    | values _ hrest =>
      cases hrest
      rfl
    | closed hstreet _ _ => cases hstreet
    | opened hstreet _ _ _ => cases hstreet

/-- The group has those two tables. -/
theorem content_streetModel {schema : CsvSchema}
    (h : ofModel groupPublication (streetModel ⟨1, some 1⟩ []) = .ok schema) :
    schema.content = .group [residentsTable, homesTable] := by
  obtain ⟨root, stops, hroot, hstops, hcontent⟩ := exists_nested_of_ofModel rfl h
  obtain rfl : residentClass ⟨1, some 1⟩ [] = root := by
    simpa [rootClasses_streetModel] using hroot
  rw [hcontent, List.map_cons, hstops.table_lives]
  rfl

/-- The homes of persons have a table of their own, which refers to the column for them in that
of the persons. -/
theorem tree_of_group_streetModel :
    groupPublication.config.layout = .multiple ∧
      ∃ schema, ofModel groupPublication (streetModel ⟨1, some 1⟩ []) = .ok schema ∧
        schema.content = .group [residentsTable, homesTable] ∧
        Joined [residentsTable, homesTable] ∧ homesTable.RefersTo residentsTable := by
  obtain ⟨schema, hschema⟩ := exists_ofModel_group [] (by decide +kernel) (by decide +kernel)
  obtain ⟨ts, hcontent, hjoined⟩ := tree_of_group rfl hschema
  obtain rfl := Content.group.inj ((content_streetModel hschema).symm.trans hcontent)
  have hsplit : [residentsTable, homesTable] = [residentsTable] ++ homesTable :: [] := rfl
  obtain ⟨parent, hparent, hrefers⟩ := hjoined.below hsplit (List.cons_ne_nil _ _)
  obtain rfl := List.mem_singleton.mp hparent
  exact ⟨rfl, schema, hschema, hcontent, hjoined, hrefers⟩

end DataSpec.CsvSchema
