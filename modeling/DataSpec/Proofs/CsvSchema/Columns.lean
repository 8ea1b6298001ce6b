import DataSpec.Proofs.CsvSchema.Nesting
import DataSpec.Proofs.Structural.Documents
import DataSpec.Proofs.Structural.Leaves
import DataSpec.Proofs.Structural.Names
import DataSpec.Proofs.Text.Percent

/-!
# The columns of a single table

The properties of the root class are the top of a tree, in which the properties of a class are
below each association that leads to it, unless the class has no properties, is a codelist, or
is open already. `Ways` are the ways down that tree, and a single table has one column for each
way, in order, before that which says of what class a row is (`exists_ways_of_ofModel`).

A column is named after the properties on its way (`name_columnAt`), but only its own property
says whether it has to be filled (`isRequired_columnAt_iff`). So it may have to be filled though
there is nothing to fill it with, because a property above it may be absent
(`required_columns_iff`), and columns of different ways may have the same name, because there may
be separators in names (`names_of_columns`).
-/

set_option autoImplicit false

namespace DataSpec

namespace Text

theorem startsWith_append (start rest : String) : startsWith (start ++ rest) start = true := by
  rw [startsWith, List.isPrefixOf_iff_prefix]
  exact ⟨rest.toList, by simp⟩

/-- Where two texts go on behind a separator, and are the same in the end, one may go on from
the other one. -/
theorem eq_or_startsWith {s s' rest rest' : String} (h : s ++ "_" ++ rest = s' ++ "_" ++ rest') :
    s = s' ∨ startsWith s' (s ++ "_") = true ∨ startsWith s (s' ++ "_") = true := by
  have longer : ∀ {s s' rest : String} {behind more : List Char},
      s'.toList = s.toList ++ behind → '_' :: rest.toList = behind ++ '_' :: more →
      s = s' ∨ startsWith s' (s ++ "_") = true := by
    intro s s' rest behind more hs hrest
    cases behind with
    | nil => exact Or.inl (String.toList_inj.mp (by simpa using hs.symm))
    | cons c behind =>
      obtain ⟨rfl, -⟩ := List.cons.inj hrest
      right
      rw [startsWith, List.isPrefixOf_iff_prefix]
      exact ⟨behind, by simp [hs]⟩
  have hlist : s.toList ++ '_' :: rest.toList = s'.toList ++ '_' :: rest'.toList := by
    simpa using congrArg String.toList h
  rcases List.append_eq_append_iff.mp hlist with ⟨behind, hs, hrest⟩ | ⟨behind, hs, hrest⟩
  · exact (longer hs hrest).imp id Or.inl
  · exact (longer hs hrest).imp Eq.symm Or.inr

end Text

namespace Leaf

variable (q : StructuralProperty) (l : Leaf)

/-- The names on the way to a leaf. -/
def labels : List String := l.chain.map StructuralProperty.name ++ [l.property.name]

/-- The names on the way to a leaf in one text. -/
def title : String := Text.join "_" l.labels

theorem labels_under : (l.under q).labels = q.name :: l.labels := rfl

theorem title_under : (l.under q).title = q.name ++ "_" ++ l.title := by
  have hne : l.labels ≠ [] := by simp [labels]
  unfold title
  rw [labels_under]
  cases hlabels : l.labels with
  | nil => exact absurd hlabels hne
  | cons label labels => rfl

/-- Whether a leaf is a property or lies below it. -/
def From : Prop := l = ⟨[], q⟩ ∨ q.classes ≠ [] ∧ ∃ l' : Leaf, l = l'.under q

/-- Every property on the way to a leaf has a value if none above it may be absent and it has
one itself. -/
theorem one_le_min_iff : (∀ q ∈ l.chain ++ [l.property], 1 ≤ q.bounds.min) ↔
    l.isOptional = false ∧ 1 ≤ l.property.bounds.min := by
  have hzero : ∀ n : UInt32, 1 ≤ n ↔ ¬ n = 0 := fun n => by
    rw [UInt32.le_iff_toNat_le, ← UInt32.toNat_inj]
    simp
    omega
  simp only [List.forall_mem_append, List.forall_mem_singleton, isOptional, List.any_eq_false,
    decide_eq_true_eq, hzero]

variable {q l}

theorem From.head?_labels (h : l.From q) : l.labels.head? = some q.name := by
  rcases h with rfl | ⟨-, l', rfl⟩ <;> rfl

theorem From.title_cases (h : l.From q) :
    l.title = q.name ∨ q.classes ≠ [] ∧ ∃ rest, l.title = q.name ++ "_" ++ rest := by
  rcases h with rfl | ⟨hclasses, l', rfl⟩
  · exact Or.inl rfl
  · exact Or.inr ⟨hclasses, l'.title, title_under q l'⟩

/-- Titles tell apart leaves below properties of different names, if neither name goes on from
the other one. -/
theorem From.title_ne {q' : StructuralProperty} {l' : Leaf} (h : l.From q) (h' : l'.From q')
    (hname : q.name ≠ q'.name)
    (hq : q.classes ≠ [] → Text.startsWith q'.name (q.name ++ "_") = false)
    (hq' : q'.classes ≠ [] → Text.startsWith q.name (q'.name ++ "_") = false) :
    l.title ≠ l'.title := by
  intro heq
  rcases h.title_cases with ht | ⟨hclasses, rest, ht⟩ <;>
    rcases h'.title_cases with ht' | ⟨hclasses', rest', ht'⟩ <;> rw [ht, ht'] at heq
  · exact hname heq
  · exact absurd (heq ▸ Text.startsWith_append _ _) (Bool.eq_false_iff.mp (hq' hclasses'))
  · exact absurd (heq ▸ Text.startsWith_append _ _) (Bool.eq_false_iff.mp (hq hclasses))
  · rcases Text.eq_or_startsWith heq with heq | hstarts | hstarts
    · exact hname heq
    · exact absurd hstarts (Bool.eq_false_iff.mp (hq hclasses))
    · exact absurd hstarts (Bool.eq_false_iff.mp (hq' hclasses'))

end Leaf

namespace StructuralModel

/-- Whether no property has a name that goes on, behind a separator, from that of an association
of its class. -/
def Separated (m : StructuralModel) : Prop :=
  ∀ c ∈ m.classes.values, ∀ q ∈ c.properties, q.classes ≠ [] →
    ∀ q' ∈ c.properties, Text.startsWith q'.name (q.name ++ "_") = false

instance (m : StructuralModel) : Decidable m.Separated :=
  inferInstanceAs (Decidable (∀ _ ∈ _, ∀ _ ∈ _, _ → ∀ _ ∈ _, _))

end StructuralModel

namespace CsvSchema

/-! ## Ways to columns -/

/-- The ways from properties to columns, where the classes of `stack` are open. -/
inductive Ways (m : StructuralModel) : List Iri → List StructuralProperty → List Leaf → Prop where
  | nil {stack} : Ways m stack [] []
  /-- Values are a column. -/
  | values {stack q datatype qs ls} :
    sourceOf m q = .ok (.values datatype) → Ways m stack qs ls →
    Ways m stack (q :: qs) (⟨[], q⟩ :: ls)
  /-- So is an object that is not described. -/
  | closed {stack q c qs ls} :
    sourceOf m q = .ok (.object c) → isLeaf stack c.val = true → Ways m stack qs ls →
    Ways m stack (q :: qs) (⟨[], q⟩ :: ls)
  /-- The columns of any other object are those of its class. -/
  | opened {stack q c qs inner ls} :
    sourceOf m q = .ok (.object c) → isLeaf stack c.val = false →
    Ways m (c.val.iri :: stack) c.val.properties inner → Ways m stack qs ls →
    Ways m stack (q :: qs) (inner.map (Leaf.under q) ++ ls)

variable {p : Publication} {m : StructuralModel} {stack : List Iri} {path : String}
  {q : StructuralProperty} {qs : List StructuralProperty} {l : Leaf} {ls : List Leaf}

/-- Properties have the ways of one tree. -/
theorem Ways.unique {ls' : List Leaf} (h : Ways m stack qs ls) (h' : Ways m stack qs ls') :
    ls = ls' := by
  induction h generalizing ls' with
  | nil => cases h'; rfl
  | values hsource _ ih =>
    cases h' with
    | values _ h' => rw [ih h']
    | closed hsource' => simp [hsource] at hsource'
    | opened hsource' => simp [hsource] at hsource'
  | closed hsource hleaf _ ih =>
    cases h' with
    | values hsource' => simp [hsource] at hsource'
    | closed _ _ h' => rw [ih h']
    | opened hsource' hleaf' =>
      obtain rfl := Source.object.inj (Except.ok.inj (hsource.symm.trans hsource'))
      simp [hleaf] at hleaf'
  | opened hsource hleaf _ _ ihinner ih =>
    cases h' with
    | values hsource' => simp [hsource] at hsource'
    | closed hsource' hleaf' =>
      obtain rfl := Source.object.inj (Except.ok.inj (hsource.symm.trans hsource'))
      simp [hleaf] at hleaf'
    | opened hsource' _ hinner h' =>
      obtain rfl := Source.object.inj (Except.ok.inj (hsource.symm.trans hsource'))
      rw [ihinner hinner, ih h']

/-- The title of columns below properties. -/
def pathBelow (path : String) (chain : List StructuralProperty) : String :=
  chain.foldl (fun path q => path ++ q.name ++ "_") path

/-- The column at the end of a way. -/
def columnAt (p : Publication) (m : StructuralModel) (path : String) (l : Leaf) : Column :=
  match sourceOf m l.property with
  | .ok (.values datatype) => valueColumn p (pathBelow path l.chain) l.property datatype
  | .ok (.object c) => objectColumn p (pathBelow path l.chain) l.property c.val
  | .error _ => .empty

theorem columnAt_under (path : String) (q : StructuralProperty) (l : Leaf) :
    columnAt p m path (l.under q) = columnAt p m (path ++ q.name ++ "_") l := rfl

/-- The columns of the first property come before those of the others. -/
theorem columnsOf_cons_eq_ok {columns : List Column} :
    columnsOf p m stack path (q :: qs) = .ok columns ↔
      ∃ source here rest, sourceOf m q = .ok source ∧
        sourceColumns p (fun path q (c : m.Member) =>
          if isLeaf stack c.val then .ok [objectColumn p path q c.val]
          else columnsOf p m (c.val.iri :: stack) (path ++ q.name ++ "_") c.val.properties)
          path q source = .ok here ∧
        columnsOf p m stack path qs = .ok rest ∧ columns = here ++ rest := by
  rw [columnsOf_eq, columnsWith, ← columnsOf_eq]
  constructor
  · intro h
    obtain ⟨source, hsource, h⟩ := Except.bind_eq_ok.mp h
    obtain ⟨here, hhere, h⟩ := Except.bind_eq_ok.mp h
    obtain ⟨rest, hrest, rfl⟩ := Except.map_eq_ok.mp h
    exact ⟨source, here, rest, hsource, hhere, hrest, rfl⟩
  · rintro ⟨source, here, rest, hsource, hhere, hrest, rfl⟩
    exact Except.bind_eq_ok.mpr ⟨source, hsource, Except.bind_eq_ok.mpr ⟨here, hhere,
      Except.map_eq_ok.mpr ⟨rest, hrest, rfl⟩⟩⟩

/-- Properties become the columns at the ends of their ways. -/
theorem exists_ways_of_columnsOf {stack : List Iri} {path : String}
    {qs : List StructuralProperty} {columns : List Column}
    (h : columnsOf p m stack path qs = .ok columns) :
    ∃ ls, Ways m stack qs ls ∧ columns = ls.map (columnAt p m path) := by
  match qs with
  | [] =>
    rw [columnsOf] at h
    obtain rfl := Except.ok.inj h
    exact ⟨[], .nil, rfl⟩
  | q :: rest =>
    obtain ⟨source, here, columns', hsource, hhere, hrest, rfl⟩ := columnsOf_cons_eq_ok.mp h
    obtain ⟨ls, hls, rfl⟩ := exists_ways_of_columnsOf hrest
    cases source with
    | values datatype =>
      obtain rfl := Except.ok.inj hhere
      exact ⟨⟨[], q⟩ :: ls, .values hsource hls, by simp [columnAt, pathBelow, hsource]⟩
    | object c =>
      rw [sourceColumns] at hhere
      split at hhere
      · rename_i hleaf
        obtain rfl := Except.ok.inj hhere
        exact ⟨⟨[], q⟩ :: ls, .closed hsource hleaf hls, by simp [columnAt, pathBelow, hsource]⟩
      · rename_i hleaf
        obtain ⟨inner, hinner, rfl⟩ := exists_ways_of_columnsOf hhere
        refine ⟨inner.map (Leaf.under q) ++ ls,
          .opened hsource (Bool.eq_false_iff.mpr hleaf) hinner hls, ?_⟩
        simp [columnAt_under]
termination_by (m.closedCount stack, qs.length)
decreasing_by
  · exact Prod.Lex.right _ (by simp)
  · exact Prod.Lex.left _ _
      (StructuralModel.closedCount_cons_lt c.property (not_mem_of_isLeaf_eq_false ‹_›))

/-- A schema is made of its only root class, as its layout says. -/
theorem exists_content_of_ofModel {schema : CsvSchema} (h : ofModel p m = .ok schema) :
    ∃ root, m.rootClasses = .ok [root] ∧
      (match p.config.layout with
        | .single => (onlyTable p m root).map Content.table
        | .multiple => (tables p m root).map Content.group) = .ok schema.content := by
  unfold ofModel at h
  split at h
  · rename_i iri hroots
    obtain ⟨root, hroot, h⟩ := Except.bind_eq_ok.mp h
    refine ⟨root, ?_, ?_⟩
    · rw [StructuralModel.rootClasses, hroots]
      exact Except.mapM_eq_ok_iff.mpr (.cons hroot .nil)
    · cases hlayout : p.config.layout <;>
      · simp only [hlayout] at h ⊢
        obtain ⟨content, hcontent, h⟩ := Except.bind_eq_ok.mp h
        obtain rfl := Except.ok.inj h
        exact hcontent
  · simp at h

/-- The columns of a single table are those at the ends of the ways from the root, and that
which says of what class a row is. -/
theorem exists_ways_of_ofModel {schema : CsvSchema} (hlayout : p.config.layout = .single)
    (h : ofModel p m = .ok schema) :
    ∃ root ls t, m.rootClasses = .ok [root] ∧ Ways m [root.iri] root.properties ls ∧
      schema.content = .table t ∧ t.columns = ls.map (columnAt p m "") ++ [typeColumn root] := by
  obtain ⟨root, hroot, hcontent⟩ := exists_content_of_ofModel h
  simp only [hlayout] at hcontent
  obtain ⟨t, ht, hcontent⟩ := Except.map_eq_ok.mp hcontent
  obtain ⟨columns, hcolumns, ht⟩ := Except.bind_eq_ok.mp ht
  obtain rfl := Except.ok.inj ht
  obtain ⟨ls, hls, rfl⟩ := exists_ways_of_columnsOf hcolumns
  exact ⟨root, ls, _, hroot, hls, hcontent.symm, rfl⟩

/-! ## Small models -/

/-- The street of a place. -/
def streetProperty : StructuralProperty :=
  { townProperty with iri := "street", cardinality := some ⟨1, some 1⟩ }

/-- The home of a person. -/
def livesProperty (home : Cardinality) : StructuralProperty :=
  { homeProperty with cardinality := some home, dematerialize := false }

/-- The class of places, which are in a street. -/
def placeClass : StructuralClass :=
  { linkClass with iri := "place", properties := [streetProperty] }

/-- The class of persons, who have a home. -/
def residentClass (home : Cardinality) (others : List StructuralProperty) : StructuralClass :=
  { linkClass with iri := "person", properties := livesProperty home :: others }

/-- Persons with a home, and whatever else there is to say of them. -/
def streetModel (home : Cardinality) (others : List StructuralProperty) : StructuralModel :=
  { chainModel with
    roots := ["person"]
    classes := .ofList [("person", residentClass home others), ("place", placeClass)] }

/-- The publication of a table. -/
def tablePublication : Publication where
  specifications := .empty
  artefact := ⟨"artefact", "csv-schema", "schema.csv-metadata.json", "", none, [], .obj []⟩
  config := .default

theorem class?_streetModel (home : Cardinality) (others : List StructuralProperty) :
    (streetModel home others).class? "person" = some (residentClass home others) ∧
      (streetModel home others).class? "place" = some placeClass :=
  ⟨(SortedMap.get?_ofList_iff (by simp)).mpr (by simp),
    (SortedMap.get?_ofList_iff (by simp)).mpr (by simp)⟩

theorem rootClasses_streetModel (home : Cardinality) (others : List StructuralProperty) :
    (streetModel home others).rootClasses = .ok [residentClass home others] :=
  Except.mapM_eq_ok_iff.mpr (.cons
    (StructuralModel.requireClass_of_class? (class?_streetModel home others).1) .nil)

/-- The home of a person is a place. -/
theorem sourceOf_lives (home : Cardinality) (others : List StructuralProperty) :
    sourceOf (streetModel home others) (livesProperty home) = .ok (.object ⟨placeClass,
      StructuralModel.mem_values_of_class? (class?_streetModel home others).2⟩) :=
  Except.map_eq_ok.mpr ⟨_, StructuralModel.member_of_class? (class?_streetModel home others).2, rfl⟩

/-- From a person the way leads to the street of the home before anything else. -/
theorem ways_streetModel {home : Cardinality} {others : List StructuralProperty} {ls : List Leaf}
    (h : Ways (streetModel home others) ["person"] others ls) :
    Ways (streetModel home others) ["person"] (livesProperty home :: others)
      (⟨[livesProperty home], streetProperty⟩ :: ls) :=
  .opened (sourceOf_lives home others) rfl (.values rfl .nil) h

theorem exists_ofModel_streetModel (home : Cardinality) (others : List StructuralProperty)
    (hl : (streetModel home others).classKeys.dedup.length ≤ 2)
    (h : (ofModelWithin tablePublication (streetModel home others) (fun _ _ _ => .ok [])
      (fun _ _ _ _ => .ok ([], [])) 2).toOption.isSome = true) :
    ∃ schema, ofModel tablePublication (streetModel home others) = .ok schema := by
  obtain ⟨schema, hschema, -⟩ := exists_ofModel (p := tablePublication)
    (m := streetModel home others) (P := fun _ => true) _ _ 2 hl (by rwa [Option.any_true])
  exact ⟨schema, hschema⟩

/-! ## What has to be filled -/

theorem isVirtual_columnAt (l : Leaf) : (columnAt p m path l).isVirtual = false := by
  unfold columnAt
  split
  · rfl
  · unfold objectColumn
    split <;> rfl
  · rfl

theorem filter_columns (root : StructuralClass) (ls : List Leaf) :
    (ls.map (columnAt p m path) ++ [typeColumn root]).filter (fun c => !c.isVirtual) =
      ls.map (columnAt p m path) := by
  have hall : ∀ c ∈ ls.map (columnAt p m path), (!c.isVirtual) = true := by
    simp [isVirtual_columnAt]
  rw [List.filter_append, List.filter_eq_self.mpr hall]
  exact List.append_nil _

/-- At the end of every way there is a property that has a column. -/
theorem Ways.exists_source (h : Ways m stack qs ls) :
    ∀ l ∈ ls, ∃ source, sourceOf m l.property = .ok source := by
  induction h with
  | nil => simp
  | values hsource _ ih => exact List.forall_mem_cons.mpr ⟨⟨_, hsource⟩, ih⟩
  | closed hsource _ _ ih => exact List.forall_mem_cons.mpr ⟨⟨_, hsource⟩, ih⟩
  | opened _ _ _ _ ihinner ih =>
    refine List.forall_mem_append.mpr ⟨?_, ih⟩
    exact List.forall_mem_map.mpr ihinner

/-- A column has to be filled if its own property has exactly one value, whatever is above it. -/
theorem isRequired_columnAt_iff (h : Ways m stack qs ls) (hl : l ∈ ls) :
    (columnAt p m path l).isRequired = true ↔ l.property.bounds = ⟨1, some 1⟩ := by
  obtain ⟨source, hsource⟩ := h.exists_source l hl
  have hvalue : ∀ datatype, (valueColumn p (pathBelow path l.chain) l.property
      datatype).isRequired = true ↔ l.property.bounds = ⟨1, some 1⟩ := fun datatype => by
    rw [valueColumn, Bool.and_eq_true, decide_eq_true_eq, decide_eq_true_eq]
    exact ⟨fun h => congr (congrArg Cardinality.mk h.1) h.2, fun h => h ▸ ⟨rfl, rfl⟩⟩
  unfold columnAt
  rw [hsource]
  cases source with
  | values datatype => exact hvalue datatype
  | object c =>
    simp only [objectColumn]
    split <;> exact hvalue (some "string")

/-- In a single table a column has to be filled if its own property has exactly one value. So
there is something to fill all these columns with if and only if no property above one of them
may be absent. -/
theorem required_columns_iff {schema : CsvSchema} (hlayout : p.config.layout = .single)
    (h : ofModel p m = .ok schema) :
    ∃ root ls t, m.rootClasses = .ok [root] ∧ Ways m [root.iri] root.properties ls ∧
      schema.content = .table t ∧
      t.columns.filter (fun c => !c.isVirtual) = ls.map (columnAt p m "") ∧
      (∀ l ∈ ls, (columnAt p m "" l).isRequired = true ↔ l.property.bounds = ⟨1, some 1⟩) ∧
      ((∀ l ∈ ls, (columnAt p m "" l).isRequired = true →
          ∀ q ∈ l.chain ++ [l.property], 1 ≤ q.bounds.min) ↔
        ∀ l ∈ ls, l.property.bounds = ⟨1, some 1⟩ → l.isOptional = false) := by
  obtain ⟨root, ls, t, hroot, hls, hcontent, hcolumns⟩ := exists_ways_of_ofModel hlayout h
  refine ⟨root, ls, t, hroot, hls, hcontent, by rw [hcolumns, filter_columns],
    fun l hl => isRequired_columnAt_iff hls hl, ?_⟩
  refine forall₂_congr fun l hl => ?_
  rw [isRequired_columnAt_iff hls hl, l.one_le_min_iff]
  exact imp_congr_right fun hbounds => and_iff_left (by rw [hbounds]; decide)

/-- If there has to be a home, there is a street to tell. -/
theorem required_columns_streetModel :
    tablePublication.config.layout = .single ∧
      ∃ schema, ofModel tablePublication (streetModel ⟨1, some 1⟩ []) = .ok schema ∧
        ∃ t, schema.content = .table t ∧
          t.columns.filter (fun c => !c.isVirtual) =
            [columnAt tablePublication (streetModel ⟨1, some 1⟩ []) ""
              ⟨[livesProperty ⟨1, some 1⟩], streetProperty⟩] ∧
          ∀ q ∈ [livesProperty ⟨1, some 1⟩, streetProperty], 1 ≤ q.bounds.min := by
  obtain ⟨schema, hschema⟩ := exists_ofModel_streetModel ⟨1, some 1⟩ []
    (by decide +kernel) (by decide +kernel)
  refine ⟨rfl, schema, hschema, ?_⟩
  obtain ⟨root, ls, t, hroot, hls, hcontent, hcolumns, hrequired, hiff⟩ :=
    required_columns_iff rfl hschema
  obtain rfl : residentClass ⟨1, some 1⟩ [] = root := by
    simpa [rootClasses_streetModel] using hroot
  obtain rfl := hls.unique (ways_streetModel .nil)
  refine ⟨t, hcontent, hcolumns, ?_⟩
  exact hiff.mpr (by decide) _ List.mem_cons_self ((hrequired _ List.mem_cons_self).mpr rfl)

/-- If there may be no home, the column of its street has to be filled all the same. -/
theorem required_column_of_optional :
    ¬ ∀ (p : Publication) (m : StructuralModel) (schema : CsvSchema) (root : StructuralClass)
      (ls : List Leaf) (t : Table), p.config.layout = .single → ofModel p m = .ok schema →
      m.rootClasses = .ok [root] → Ways m [root.iri] root.properties ls →
      schema.content = .table t → ∀ l ∈ ls, columnAt p m "" l ∈ t.columns →
      (columnAt p m "" l).isRequired = true → ∀ q ∈ l.chain ++ [l.property], 1 ≤ q.bounds.min := by
  intro h
  obtain ⟨schema, hschema⟩ := exists_ofModel_streetModel ⟨0, some 1⟩ []
    (by decide +kernel) (by decide +kernel)
  obtain ⟨root, ls, t, hroot, hls, hcontent, hcolumns⟩ := exists_ways_of_ofModel rfl hschema
  obtain rfl : residentClass ⟨0, some 1⟩ [] = root := by
    simpa [rootClasses_streetModel] using hroot
  obtain rfl := hls.unique (ways_streetModel .nil)
  have hmin := h tablePublication _ schema _ _ t rfl hschema hroot hls hcontent _ List.mem_cons_self
    (by rw [hcolumns]; simp) ((isRequired_columnAt_iff hls List.mem_cons_self).mpr rfl)
    (livesProperty ⟨0, some 1⟩) List.mem_cons_self
  exact absurd hmin (by decide)

/-! ## Names of columns -/

theorem pathBelow_append (path label : String) (chain : List StructuralProperty) :
    pathBelow path chain ++ label =
      path ++ Text.join "_" (chain.map StructuralProperty.name ++ [label]) := by
  induction chain generalizing path with
  | nil => rfl
  | cons q chain ih =>
    have hjoin : Text.join "_" (q.name :: (chain.map StructuralProperty.name ++ [label])) =
        q.name ++ "_" ++ Text.join "_" (chain.map StructuralProperty.name ++ [label]) := by
      cases chain <;> rfl
    rw [pathBelow, List.foldl_cons, ← pathBelow, ih, List.map_cons, List.cons_append, hjoin]
    simp only [String.append_assoc]

theorem classes_ne_nil_of_sourceOf {c : m.Member} (h : sourceOf m q = .ok (.object c)) :
    q.classes ≠ [] := by
  unfold sourceOf at h
  split at h
  · simp at h
  · simp at h
  · simp at h
  · exact StructuralModel.classes_ne_nil_of_range ‹_›
  · simp at h

/-- A column is named after the properties on its way. -/
theorem name_columnAt (h : Ways m stack qs ls) (hl : l ∈ ls) :
    (columnAt p m "" l).name = some (columnName l.title) := by
  obtain ⟨source, hsource⟩ := h.exists_source l hl
  have htitle : pathBelow "" l.chain ++ l.property.name = l.title := by
    rw [pathBelow_append, String.empty_append]
    rfl
  unfold columnAt
  rw [hsource, ← htitle]
  cases source with
  | values datatype => rfl
  | object c =>
    simp only [objectColumn]
    split <;> rfl

theorem columnName_injective : Function.Injective columnName :=
  Text.percentEncode_injective (by decide)

/-- A way begins with one of the properties. -/
theorem Ways.exists_from (h : Ways m stack qs ls) : ∀ l ∈ ls, ∃ q ∈ qs, l.From q := by
  have behind : ∀ {q : StructuralProperty} {qs : List StructuralProperty} {ls : List Leaf},
      (∀ l ∈ ls, ∃ q ∈ qs, l.From q) → ∀ l ∈ ls, ∃ q' ∈ q :: qs, l.From q' := fun ih l hl => by
    obtain ⟨q', hq', hfrom⟩ := ih l hl
    exact ⟨q', List.mem_cons_of_mem _ hq', hfrom⟩
  induction h with
  | nil => simp
  | values _ _ ih =>
    exact List.forall_mem_cons.mpr ⟨⟨_, List.mem_cons_self, Or.inl rfl⟩, behind ih⟩
  | closed _ _ _ ih =>
    exact List.forall_mem_cons.mpr ⟨⟨_, List.mem_cons_self, Or.inl rfl⟩, behind ih⟩
  | opened hsource _ _ _ _ ih =>
    refine List.forall_mem_append.mpr ⟨List.forall_mem_map.mpr fun l _ => ?_, behind ih⟩
    exact ⟨_, List.mem_cons_self, Or.inr ⟨classes_ne_nil_of_sourceOf hsource, l, rfl⟩⟩

/-- What tells apart ways that begin with different properties of a class, and ways that begin
with the same property if it tells apart how they go on, tells apart all ways. -/
theorem Ways.nodup_map {α : Type} {f : Leaf → α} {c : StructuralClass}
    (hdistinct : ∀ c ∈ m.classes.values, c.Distinct)
    (hunder : ∀ q l l', f (Leaf.under q l) = f (Leaf.under q l') → f l = f l')
    (hfrom : ∀ c ∈ m.classes.values, ∀ q ∈ c.properties, ∀ q' ∈ c.properties,
      q.name ≠ q'.name → ∀ l l' : Leaf, l.From q → l'.From q' → f l ≠ f l')
    (h : Ways m stack qs ls) (hc : c ∈ m.classes.values) (hqs : qs ⊆ c.properties)
    (hnames : (qs.map StructuralProperty.name).Nodup) : (ls.map f).Nodup := by
  -- Ways that begin with the first property are different from those that begin behind it.
  have apart : ∀ {q : StructuralProperty} {qs : List StructuralProperty} {stack ls}
      {c : StructuralClass}, c ∈ m.classes.values → q :: qs ⊆ c.properties →
      q.name ∉ qs.map StructuralProperty.name → Ways m stack qs ls →
      ∀ l : Leaf, l.From q → ∀ l' ∈ ls, f l ≠ f l' := by
    intro q qs stack ls c hc hqs hname hls l hl l' hl'
    obtain ⟨q', hq', hfrom'⟩ := hls.exists_from l' hl'
    refine hfrom c hc q (hqs List.mem_cons_self) q' (hqs (List.mem_cons_of_mem _ hq')) ?_ l l' hl
      hfrom'
    exact fun heq => hname (heq ▸ List.mem_map_of_mem hq')
  have column : ∀ {q : StructuralProperty} {qs : List StructuralProperty} {stack ls}
      {c : StructuralClass}, c ∈ m.classes.values → q :: qs ⊆ c.properties →
      q.name ∉ qs.map StructuralProperty.name → Ways m stack qs ls → (ls.map f).Nodup →
      ((⟨[], q⟩ :: ls).map f).Nodup := by
    intro q qs stack ls c hc hqs hname hls hnodup
    refine List.nodup_cons.mpr ⟨fun hmem => ?_, hnodup⟩
    obtain ⟨l', hl', heq⟩ := List.mem_map.mp hmem
    exact apart hc hqs hname hls _ (Or.inl rfl) l' hl' heq.symm
  induction h generalizing c with
  | nil => exact List.nodup_nil
  | values _ hls ih =>
    obtain ⟨hname, hnames⟩ := List.nodup_cons.mp hnames
    exact column hc hqs hname hls (ih hc (List.subset_of_cons_subset hqs) hnames)
  | closed _ _ hls ih =>
    obtain ⟨hname, hnames⟩ := List.nodup_cons.mp hnames
    exact column hc hqs hname hls (ih hc (List.subset_of_cons_subset hqs) hnames)
  | @opened stack q d qs inner ls hsource hleaf hinner hls ihinner ih =>
    obtain ⟨hname, hnames⟩ := List.nodup_cons.mp hnames
    have hd : d.val ∈ m.classes.values := d.property
    rw [List.map_append]
    refine List.nodup_append.mpr ⟨?_, ih hc (List.subset_of_cons_subset hqs) hnames, ?_⟩
    · have hbelow := ihinner hd (List.Subset.refl _) (hdistinct _ hd)
      rw [List.map_map]
      refine List.pairwise_map.mpr ((List.pairwise_map.mp hbelow).imp fun hne heq => hne ?_)
      exact hunder q _ _ heq
    · intro x hx y hy hxy
      obtain ⟨l, hl, rfl⟩ := List.mem_map.mp hx
      obtain ⟨l₀, hl₀, rfl⟩ := List.mem_map.mp hl
      obtain ⟨l', hl', rfl⟩ := List.mem_map.mp hy
      exact apart hc hqs hname hls _ (Or.inr ⟨classes_ne_nil_of_sourceOf hsource, l₀, rfl⟩) l' hl'
        hxy

variable {schema : CsvSchema}

/-- The columns of a single table have different names if and only if the names on their ways
are different when they are put in one text. If the properties of each class have different
names, the ways have different names, and so do the columns if no name goes on from that of an
association. -/
theorem names_of_columns (hdistinct : ∀ c ∈ m.classes.values, c.Distinct)
    (hlayout : p.config.layout = .single) (h : ofModel p m = .ok schema) :
    ∃ root ls t, m.rootClasses = .ok [root] ∧ Ways m [root.iri] root.properties ls ∧
      schema.content = .table t ∧
      t.columns.filter (fun c => !c.isVirtual) = ls.map (columnAt p m "") ∧
      (ls.map Leaf.labels).Nodup ∧
      (∀ l ∈ ls, (columnAt p m "" l).name = some (columnName l.title)) ∧
      (((t.columns.filter fun c => !c.isVirtual).map Column.name).Nodup ↔
        (ls.map Leaf.title).Nodup) ∧
      (m.Separated → ((t.columns.filter fun c => !c.isVirtual).map Column.name).Nodup) := by
  obtain ⟨root, ls, t, hroot, hls, hcontent, hcolumns⟩ := exists_ways_of_ofModel hlayout h
  have hfilter : t.columns.filter (fun c => !c.isVirtual) = ls.map (columnAt p m "") := by
    rw [hcolumns, filter_columns]
  have hmem : root ∈ m.classes.values := by
    rw [StructuralModel.rootClasses] at hroot
    obtain ⟨k, -, hk⟩ := Except.exists_of_mem_mapM hroot List.mem_cons_self
    exact StructuralModel.mem_values_of_class? (StructuralModel.class?_of_requireClass hk)
  have hnames : (ls.map (columnAt p m "")).map Column.name =
      (ls.map Leaf.title).map (some ∘ columnName) := by
    rw [List.map_map, List.map_map]
    exact List.map_congr_left fun l hl => name_columnAt hls hl
  have hiff : ((t.columns.filter fun c => !c.isVirtual).map Column.name).Nodup ↔
      (ls.map Leaf.title).Nodup := by
    rw [hfilter, hnames]
    exact List.nodup_map_iff fun _ _ heq => columnName_injective (Option.some.inj heq)
  refine ⟨root, ls, t, hroot, hls, hcontent, hfilter, ?_, fun l hl => name_columnAt hls hl, hiff,
    fun hsep => hiff.mpr ?_⟩
  · refine hls.nodup_map hdistinct (fun q l l' heq => ?_) ?_ hmem (List.Subset.refl _)
      (hdistinct _ hmem)
    · exact (List.cons.inj heq).2
    · intro c _ q _ q' _ hname l l' hl hl' heq
      have hhead := hl.head?_labels.symm.trans ((congrArg List.head? heq).trans hl'.head?_labels)
      exact hname (Option.some.inj hhead)
  · refine hls.nodup_map hdistinct (fun q l l' heq => ?_) ?_ hmem (List.Subset.refl _)
      (hdistinct _ hmem)
    · rw [Leaf.title_under, Leaf.title_under] at heq
      exact String.append_right_inj _ |>.mp heq
    · intro c hc q hq q' hq' hname l l' hl hl'
      exact hl.title_ne hl' hname (fun hclasses => hsep c hc q hq hclasses q' hq')
        fun hclasses => hsep c hc q' hq' hclasses q hq

/-- Where a person was born. -/
def birthplaceProperty : StructuralProperty := { townProperty with iri := "birthplace" }

/-- The columns for the street of a home and for a birthplace have different names. -/
theorem names_of_columns_streetModel :
    (∀ c ∈ (streetModel ⟨1, some 1⟩ [birthplaceProperty]).classes.values, c.Distinct) ∧
      tablePublication.config.layout = .single ∧
      ∃ schema, ofModel tablePublication (streetModel ⟨1, some 1⟩ [birthplaceProperty]) =
          .ok schema ∧
        ∃ t, schema.content = .table t ∧
          (t.columns.filter fun c => !c.isVirtual).map Column.name =
            [some "home_street", some "birthplace"] ∧
          ((t.columns.filter fun c => !c.isVirtual).map Column.name).Nodup := by
  have hdistinct : ∀ c ∈ (streetModel ⟨1, some 1⟩ [birthplaceProperty]).classes.values,
      c.Distinct := by decide +kernel
  obtain ⟨schema, hschema⟩ := exists_ofModel_streetModel ⟨1, some 1⟩ [birthplaceProperty]
    (by decide +kernel) (by decide +kernel)
  refine ⟨hdistinct, rfl, schema, hschema, ?_⟩
  obtain ⟨root, ls, t, hroot, hls, hcontent, hcolumns, -, -, -, hnames⟩ :=
    names_of_columns hdistinct rfl hschema
  obtain rfl : residentClass ⟨1, some 1⟩ [birthplaceProperty] = root := by
    simpa [rootClasses_streetModel] using hroot
  obtain rfl := hls.unique (ways_streetModel (.values rfl .nil))
  refine ⟨t, hcontent, ?_, hnames (by decide +kernel)⟩
  rw [hcolumns, List.map_map]
  decide +kernel

/-- A property of persons that is named as the column for the street of their home is. -/
def homeStreetProperty : StructuralProperty := { townProperty with iri := "home_street" }

/-- Two columns of one table have the same name if a property is named like the way to another
one. -/
theorem names_of_columns_collide :
    ¬ ∀ (p : Publication) (m : StructuralModel) (schema : CsvSchema) (t : Table),
      (∃ iri, m.roots = [iri]) → (∀ c ∈ m.classes.values, c.Distinct) →
      p.config.layout = .single → ofModel p m = .ok schema → schema.content = .table t →
      ((t.columns.filter fun c => !c.isVirtual).map Column.name).Nodup := by
  intro h
  have hdistinct : ∀ c ∈ (streetModel ⟨1, some 1⟩ [homeStreetProperty]).classes.values,
      c.Distinct := by decide +kernel
  obtain ⟨schema, hschema⟩ := exists_ofModel_streetModel ⟨1, some 1⟩ [homeStreetProperty]
    (by decide +kernel) (by decide +kernel)
  obtain ⟨root, ls, t, hroot, hls, hcontent, hcolumns⟩ := exists_ways_of_ofModel rfl hschema
  obtain rfl : residentClass ⟨1, some 1⟩ [homeStreetProperty] = root := by
    simpa [rootClasses_streetModel] using hroot
  obtain rfl := hls.unique (ways_streetModel (.values rfl .nil))
  have hnodup := h tablePublication _ schema t ⟨_, rfl⟩ hdistinct rfl hschema hcontent
  rw [hcolumns, filter_columns, List.map_map] at hnodup
  exact absurd hnodup (by decide +kernel)

end CsvSchema

end DataSpec
