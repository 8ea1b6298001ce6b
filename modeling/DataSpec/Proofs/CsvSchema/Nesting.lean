import DataSpec.CsvSchema.Tabulation
import DataSpec.Proofs.Except
import DataSpec.Proofs.Structural.Closed
import DataSpec.Proofs.Structural.Openings

/-!
# How deep classes are nested in tables

Both layouts open a class where an association leads to it. With what becomes of an
association as a parameter, the columns of one class are a plain recursion over its properties
(`columnsWith`, `partsWith`). `columnsWithin` and `partsWithin` open a class only if the stack
has room for it below a limit and does not hold it yet; where that is not so, they do whatever
they are told to do. With room for all classes of the model the tables are the same
(`ofModelWithin_eq`).
-/

set_option autoImplicit false

namespace DataSpec.CsvSchema

variable {p : Publication} {m : StructuralModel} {limit : Nat}

/-! ## One table -/

/-- The columns for an association to a class, with titles that begin with a path. -/
abbrev ObjectColumns (m : StructuralModel) :=
  String → StructuralProperty → m.Member → Except ModelError (List Column)

/-- The columns for what a property adds to a table. -/
def sourceColumns (p : Publication) (object : ObjectColumns m) (path : String)
    (q : StructuralProperty) : Source m → Except ModelError (List Column)
  | .values datatype => .ok [valueColumn p path q datatype]
  | .object c => object path q c

/-- The columns for properties. -/
def columnsWith (p : Publication) (object : ObjectColumns m) (path : String) :
    List StructuralProperty → Except ModelError (List Column)
  | [] => .ok []
  | q :: rest => do
    let source ← sourceOf m q
    let here ← sourceColumns p object path q source
    (columnsWith p object path rest).map (here ++ ·)

/-- The columns of properties, with what is done for an object as a parameter. -/
theorem columnsOf_eq (stack : List Iri) (path : String) (qs : List StructuralProperty) :
    columnsOf p m stack path qs =
      columnsWith p (fun path q (c : m.Member) =>
        if isLeaf stack c.val then .ok [objectColumn p path q c.val]
        else columnsOf p m (c.val.iri :: stack) (path ++ q.name ++ "_") c.val.properties)
        path qs := by
  induction qs with
  | nil => rw [columnsOf, columnsWith]
  | cons q rest ih =>
    rw [columnsOf, columnsWith, ih]
    cases sourceOf m q with
    | error e => rfl
    | ok source =>
      cases source with
      | values datatype => rfl
      | object c =>
        simp only [bind, Except.bind, sourceColumns, dite_eq_ite]
        cases (if isLeaf stack c.val then .ok [objectColumn p path q c.val]
          else columnsOf p m (c.val.iri :: stack) (path ++ q.name ++ "_") c.val.properties :
            Except ModelError (List Column)) <;> rfl

/-- The columns of a class, with titles that begin with a path. -/
abbrev ClassColumns := String → StructuralClass → Except ModelError (List Column)

/-- The columns of a class, if it is opened only if it fits. -/
def columnsWithin (p : Publication) (m : StructuralModel) (beyond : List Iri → ClassColumns)
    (limit : Nat) (stack : List Iri) : ClassColumns := fun path c =>
  if _h : Fits limit stack c.iri then
    columnsWith p (fun path q (c' : m.Member) =>
      if isLeaf (c.iri :: stack) c'.val then .ok [objectColumn p path q c'.val]
      else columnsWithin p m beyond limit (c.iri :: stack) (path ++ q.name ++ "_") c'.val)
      path c.properties
  else beyond stack path c
termination_by limit - stack.length
decreasing_by
  have hlt : _ < limit := _h.2
  rw [List.length_cons]
  omega

/-- What is done beyond a limit does not matter if there are not more keys, for each class that
opens closes its key. -/
theorem columnsWithin_eq {stack : List Iri} (beyond : List Iri → ClassColumns)
    (hl : m.classKeys.dedup.length ≤ limit) (hs : Stacked m.classKeys stack) (path : String)
    {c : StructuralClass} (hc : c.iri ∈ m.classKeys) (hnot : c.iri ∉ stack) :
    columnsWithin p m beyond limit stack path c =
      columnsOf p m (c.iri :: stack) path c.properties := by
  have hfits := hs.fits hc hnot hl
  rw [columnsWithin, dif_pos hfits, columnsOf_eq]
  congr 1
  funext path q c'
  split
  · rfl
  · rename_i hleaf
    exact columnsWithin_eq beyond hl (hs.push hc hnot) _ (StructuralModel.mem_classKeys c')
      (not_mem_of_isLeaf_eq_false hleaf)
termination_by limit - stack.length
decreasing_by
  have hlt : stack.length < limit := hfits.2
  rw [List.length_cons]
  omega

/-! ## Several tables -/

/-- The column for an association to a class in the table at a place, and the tables that it
leads to, after a number of other tables. -/
abbrev ObjectTables (m : StructuralModel) :=
  String → Nat → StructuralProperty → m.Member → Except ModelError (Column × List Table)

/-- The column for what a property adds to a table, and the tables that it leads to. -/
def sourceParts (p : Publication) (object : ObjectTables m) (url : String) (count : Nat)
    (q : StructuralProperty) : Source m → Except ModelError (Column × List Table)
  | .values datatype => .ok (valueColumn p "" q datatype, [])
  | .object c => object url count q c

/-- The columns for properties, and the tables that they lead to. -/
def partsWith (p : Publication) (object : ObjectTables m) (url : String) (count : Nat) :
    List StructuralProperty → Except ModelError (List Column × List Table)
  | [] => .ok ([], [])
  | q :: rest => do
    let source ← sourceOf m q
    let (column, tables) ← sourceParts p object url count q source
    let (columns, more) ← partsWith p object url (count + tables.length) rest
    return (column :: columns, tables ++ more)

/-- The columns of a class in the table at a place, and the tables that they lead to, after a
number of other tables. -/
abbrev ClassTables := String → Nat → StructuralClass → Except ModelError (List Column × List Table)

/-- The column for an association, and the table of its class. -/
def openedTable (p : Publication) (parts : ClassTables) (url : String) (count : Nat)
    (q : StructuralProperty) (c : StructuralClass) : Except ModelError (Column × List Table) :=
  let nested := tableUrl p (count + 1)
  (parts nested (count + 1) c).map fun (columns, tables) =>
    (objectColumn p "" q c, tableOf nested [backReference url q] c columns :: tables)

/-- The tables of properties, with what is done for an object as a parameter. -/
theorem partsOf_eq (stack : List Iri) (url : String) (count : Nat)
    (qs : List StructuralProperty) :
    partsOf p m stack url count qs =
      partsWith p (fun url count q (c : m.Member) =>
        if isLeaf stack c.val then .ok (objectColumn p "" q c.val, [])
        else openedTable p (fun url count c => partsOf p m (c.iri :: stack) url count c.properties)
          url count q c.val) url count qs := by
  induction qs generalizing count with
  | nil => rw [partsOf, partsWith]
  | cons q rest ih =>
    rw [partsOf, partsWith]
    simp only [ih]
    cases sourceOf m q with
    | error e => rfl
    | ok source =>
      cases source with
      | values datatype =>
        simp only [bind, Except.bind, sourceParts]
        cases partsWith p _ url _ rest <;> rfl
      | object c =>
        simp only [bind, Except.bind, sourceParts]
        by_cases hleaf : isLeaf stack c.val = true
        · rw [dif_pos hleaf, if_pos hleaf]
          simp only
          cases partsWith p _ url _ rest <;> rfl
        · rw [dif_neg hleaf, if_neg hleaf, openedTable]
          cases partsOf p m (c.val.iri :: stack) _ _ c.val.properties with
          | error e => rfl
          | ok a =>
            simp only [Except.map]
            cases partsWith p _ url _ rest <;> rfl

/-- The columns of a class and the tables that they lead to, if a class is opened only if it
fits. -/
def partsWithin (p : Publication) (m : StructuralModel) (beyond : List Iri → ClassTables)
    (limit : Nat) (stack : List Iri) : ClassTables := fun url count c =>
  if _h : Fits limit stack c.iri then
    partsWith p (fun url count q (c' : m.Member) =>
      if isLeaf (c.iri :: stack) c'.val then .ok (objectColumn p "" q c'.val, [])
      else openedTable p (partsWithin p m beyond limit (c.iri :: stack)) url count q c'.val)
      url count c.properties
  else beyond stack url count c
termination_by limit - stack.length
decreasing_by
  have hlt : _ < limit := _h.2
  rw [List.length_cons]
  omega

/-- The same holds of the tables of a group. -/
theorem partsWithin_eq {stack : List Iri} (beyond : List Iri → ClassTables)
    (hl : m.classKeys.dedup.length ≤ limit) (hs : Stacked m.classKeys stack) (url : String)
    (count : Nat) {c : StructuralClass} (hc : c.iri ∈ m.classKeys) (hnot : c.iri ∉ stack) :
    partsWithin p m beyond limit stack url count c =
      partsOf p m (c.iri :: stack) url count c.properties := by
  have hfits := hs.fits hc hnot hl
  rw [partsWithin, dif_pos hfits, partsOf_eq]
  congr 1
  funext url count q c'
  split
  · rfl
  · rename_i hleaf
    rw [openedTable, openedTable, partsWithin_eq beyond hl (hs.push hc hnot) _ _
      (StructuralModel.mem_classKeys c') (not_mem_of_isLeaf_eq_false hleaf)]
termination_by limit - stack.length
decreasing_by
  have hlt : stack.length < limit := hfits.2
  rw [List.length_cons]
  omega

/-! ## Schemas -/

/-- The schema of a model, with what becomes of its root class as a parameter. -/
def ofModelWith (p : Publication) (m : StructuralModel) (columns : ClassColumns)
    (parts : ClassTables) : Except ModelError CsvSchema :=
  match m.roots with
  | [iri] => do
    let root ← m.requireClass iri
    let url := p.artefact.publicUrl
    let content ←
      match p.config.layout with
      | .single => (columns "" root).map fun columns => Content.table {
          id := if url.isEmpty then none else some url
          url := onlyTableUrl p
          columns := columns ++ [typeColumn root]
          foreignKeys := [] }
      | .multiple => (parts (tableUrl p 1) 1 root).map fun (columns, more) =>
          Content.group (tableOf (tableUrl p 1) [] root columns :: more)
    return ⟨(language? p).getD defaultLanguage, content⟩
  | roots => .error (.notOneRoot m.iri roots.length)

/-- The schema of a model, if a class is opened only if it fits. -/
def ofModelWithin (p : Publication) (m : StructuralModel)
    (beyondColumns : List Iri → ClassColumns) (beyondParts : List Iri → ClassTables)
    (limit : Nat) : Except ModelError CsvSchema :=
  ofModelWith p m (columnsWithin p m beyondColumns limit [])
    (partsWithin p m beyondParts limit [])

/-- A schema is the same with a limit that is as large as the number of classes. -/
theorem ofModelWithin_eq (beyondColumns : List Iri → ClassColumns)
    (beyondParts : List Iri → ClassTables) (hl : m.classKeys.dedup.length ≤ limit) :
    ofModelWithin p m beyondColumns beyondParts limit = ofModel p m := by
  unfold ofModelWithin ofModelWith ofModel
  rcases m.roots with _ | ⟨iri, _ | ⟨iri', rest⟩⟩
  case cons.nil =>
    change (m.requireClass iri).bind _ = (m.requireClass iri).bind _
    cases hroot : m.requireClass iri with
    | error e => rfl
    | ok root =>
      have hc : root.iri ∈ m.classKeys := List.mem_map_of_mem
        (StructuralModel.mem_values_of_class? (StructuralModel.class?_of_requireClass hroot))
      simp only [Except.bind, bind, onlyTable, tables,
        columnsWithin_eq beyondColumns hl .nil _ hc List.not_mem_nil,
        partsWithin_eq beyondParts hl .nil _ _ hc List.not_mem_nil]
      cases p.config.layout with
      | single => cases columnsOf p m [root.iri] "" root.properties <;> rfl
      | multiple => cases partsOf p m [root.iri] (tableUrl p 1) 1 root.properties <;> rfl
  all_goals rfl

/-- So a limit is enough to see what a schema is like. -/
theorem exists_ofModel {P : CsvSchema → Bool} (beyondColumns : List Iri → ClassColumns)
    (beyondParts : List Iri → ClassTables) (limit : Nat) (hl : m.classKeys.dedup.length ≤ limit)
    (h : (ofModelWithin p m beyondColumns beyondParts limit).toOption.any P = true) :
    ∃ schema, ofModel p m = .ok schema ∧ P schema = true := by
  rw [ofModelWithin_eq beyondColumns beyondParts hl] at h
  cases hschema : ofModel p m with
  | error e => simp [hschema, Except.toOption] at h
  | ok schema => exact ⟨schema, rfl, by simpa [hschema, Except.toOption] using h⟩

end DataSpec.CsvSchema
