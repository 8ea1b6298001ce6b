import DataSpec.Proofs.Config.Forms

/-!
# Settings that an artefact overrides

Settings are records of records, so each of them has a path (`Setting.path`), and a document is
read as settings exactly if each of them is found along its path (`ofJson?_eq_some_iff`). What an
object that is laid over settings does to them is therefore what it does to each path
(`override?_obj`).
-/

set_option autoImplicit false

namespace DataSpec

/-! ## Settings -/

/-- A setting. -/
inductive Setting where
  | dialect
  | rootType
  | rootGroup
  | otherType
  | otherGroup
  | layout
  | languages

namespace Setting

/-- Where a setting is written. -/
def path : Setting → List String
  | dialect => ["json_schema", "dialect"]
  | rootType => ["xml_schema", "root_class", "extract_type"]
  | rootGroup => ["xml_schema", "root_class", "extract_group"]
  | otherType => ["xml_schema", "other_classes", "extract_type"]
  | otherGroup => ["xml_schema", "other_classes", "extract_group"]
  | layout => ["csv_schema", "layout"]
  | languages => ["documentation", "languages"]

/-- What a setting may be. -/
abbrev Value : Setting → Type
  | dialect => String
  | rootType | rootGroup | otherType | otherGroup => Bool
  | layout => TableLayout
  | languages => List String

/-- What a setting is. -/
def get : (s : Setting) → GenerationConfig → s.Value
  | dialect, c => c.dialect
  | rootType, c => c.rootClass.extractType
  | rootGroup, c => c.rootClass.extractGroup
  | otherType, c => c.otherClasses.extractType
  | otherGroup, c => c.otherClasses.extractGroup
  | layout, c => c.layout
  | languages, c => c.languages

/-- The value of a setting with a written form. -/
def ofJson? : (s : Setting) → Json → Option s.Value
  | dialect => Json.str?
  | rootType | rootGroup | otherType | otherGroup => Json.bool?
  | layout => Json.named? .direct TableLayout.ofName?
  | languages => Json.list? Json.str?

end Setting

namespace GenerationConfig

/-- How it is written whether classes get definitions with names. -/
def extractionForm : Form := .record [("extract_type", .value), ("extract_group", .value)]

/-- How settings are written. -/
def form : Form := .record [("json_schema", .record [("dialect", .value)]),
  ("xml_schema", .record [("root_class", extractionForm), ("other_classes", extractionForm)]),
  ("csv_schema", .record [("layout", .value)]),
  ("documentation", .record [("languages", .value)])]

end GenerationConfig

/-- What is said about a setting in the written form of settings. -/
def Setting.read? (s : Setting) (v : Json) : Option s.Value :=
  GenerationConfig.form.read? (s.get .default) s.ofJson? s.path v

theorem XmlExtraction.ofJson?_eq_some_iff {v : Json} {x : XmlExtraction} :
    ofJson? v = some x ↔
      v.part? ["extract_type", "extract_group"] "extract_type" false Json.bool? =
        some x.extractType ∧
      v.part? ["extract_type", "extract_group"] "extract_group" false Json.bool? =
        some x.extractGroup := by
  unfold ofJson?
  cases hmembers : v.record ["extract_type", "extract_group"] with
  | none => simp [Json.part?_of_record_eq_none hmembers]
  | some members =>
    obtain ⟨a, b, rfl⟩ := List.length_eq_two.mp (Json.length_record hmembers)
    obtain ⟨t, g⟩ := x
    simp only [Json.part?_of_record_eq_some hmembers, List.zip_cons_cons, List.lookup_cons,
      beq_self_eq_true, String.reduceBEq, Option.bind_some]
    cases a.withDefault false Json.bool? <;> cases b.withDefault false Json.bool? <;> simp

namespace GenerationConfig

/-- The dialect is read as a part of the settings for JSON schemas. -/
theorem dialectOfJson?_eq : dialectOfJson? =
    Json.part? ["dialect"] "dialect" default.dialect Json.str? :=
  funext fun v => Json.part?_singleton "dialect" default.dialect Json.str? v

/-- The layout is read as a part of the settings for tables. -/
theorem layoutOfJson?_eq : layoutOfJson? =
    Json.part? ["layout"] "layout" .single (Json.named? .direct TableLayout.ofName?) :=
  funext fun v => Json.part?_singleton "layout" TableLayout.single _ v

/-- The languages are read as a part of the settings for documentation. -/
theorem languagesOfJson?_eq : languagesOfJson? =
    Json.part? ["languages"] "languages" default.languages (Json.list? Json.str?) :=
  funext fun v => Json.part?_singleton "languages" default.languages _ v

theorem xmlOfJson?_eq_some_iff {v : Json} {x : XmlExtraction × XmlExtraction} :
    xmlOfJson? v = some x ↔
      v.part? ["root_class", "other_classes"] "root_class" .default XmlExtraction.ofJson? =
        some x.1 ∧
      v.part? ["root_class", "other_classes"] "other_classes" .default XmlExtraction.ofJson? =
        some x.2 := by
  unfold xmlOfJson?
  cases hmembers : v.record ["root_class", "other_classes"] with
  | none => simp [Json.part?_of_record_eq_none hmembers]
  | some members =>
    obtain ⟨a, b, rfl⟩ := List.length_eq_two.mp (Json.length_record hmembers)
    obtain ⟨root, other⟩ := x
    simp only [Json.part?_of_record_eq_some hmembers, List.zip_cons_cons, List.lookup_cons,
      beq_self_eq_true, String.reduceBEq, Option.bind_some]
    cases a.withDefault .default XmlExtraction.ofJson? <;>
      cases b.withDefault .default XmlExtraction.ofJson? <;> simp

/-- The names of the groups of settings. -/
def groups : List String := ["json_schema", "xml_schema", "csv_schema", "documentation"]

/-- A value is the written form of settings if it has that of each group. -/
theorem ofJson?_eq_some_iff_groups {v : Json} {c : GenerationConfig} :
    ofJson? v = some c ↔
      v.part? groups "json_schema" default.dialect dialectOfJson? = some c.dialect ∧
      v.part? groups "xml_schema" (.default, .default) xmlOfJson? =
        some (c.rootClass, c.otherClasses) ∧
      v.part? groups "csv_schema" .single layoutOfJson? = some c.layout ∧
      v.part? groups "documentation" default.languages languagesOfJson? = some c.languages := by
  unfold ofJson? groups
  cases hmembers : v.record ["json_schema", "xml_schema", "csv_schema", "documentation"] with
  | none => simp [Json.part?_of_record_eq_none hmembers]
  | some members =>
    obtain ⟨json, xml, csv, documentation, rfl⟩ :
        ∃ json xml csv documentation, members = [json, xml, csv, documentation] := by
      have hlength := Json.length_record hmembers
      match members, hlength with
      | [json, xml, csv, documentation], _ => exact ⟨json, xml, csv, documentation, rfl⟩
    obtain ⟨dialect, rootClass, otherClasses, layout, languages⟩ := c
    simp only [Json.part?_of_record_eq_some hmembers, List.zip_cons_cons, List.lookup_cons,
      beq_self_eq_true, String.reduceBEq, Option.bind_some, Option.bind_eq_bind,
      Option.bind_eq_some_iff]
    constructor
    · rintro ⟨dialect', hdialect, x, hx, layout', hlayout, languages', hlanguages, heq⟩
      obtain ⟨rfl, rfl, rfl, rfl, rfl⟩ := GenerationConfig.mk.inj (Option.some.inj heq)
      exact ⟨hdialect, hx, hlayout, hlanguages⟩
    · rintro ⟨hdialect, hx, hlayout, hlanguages⟩
      exact ⟨_, hdialect, _, hx, _, hlayout, _, hlanguages, rfl⟩

/-- The settings of classes, one by one. -/
theorem part?_xml_eq_some_iff {v : Json} {name : String} {x : XmlExtraction} :
    v.part? groups "xml_schema" .default
        (Json.part? ["root_class", "other_classes"] name .default XmlExtraction.ofJson?) = some x ↔
      v.part? groups "xml_schema" false (Json.part? ["root_class", "other_classes"] name false
        (Json.part? ["extract_type", "extract_group"] "extract_type" false Json.bool?)) =
          some x.extractType ∧
      v.part? groups "xml_schema" false (Json.part? ["root_class", "other_classes"] name false
        (Json.part? ["extract_type", "extract_group"] "extract_group" false Json.bool?)) =
          some x.extractGroup := by
  have hinj : ∀ {a b : XmlExtraction}, a.extractType = b.extractType →
      a.extractGroup = b.extractGroup → a = b := by
    rintro ⟨_, _⟩ ⟨_, _⟩ rfl rfl
    rfl
  exact Json.part?_eq_some_iff_and (fun w a => Json.part?_eq_some_iff_and
    (fun w a => XmlExtraction.ofJson?_eq_some_iff) hinj) hinj

/-- A value is the written form of settings if every setting has its value there. -/
theorem ofJson?_eq_some_iff {v : Json} {c : GenerationConfig} :
    ofJson? v = some c ↔ ∀ s : Setting, s.read? v = some (s.get c) := by
  rw [ofJson?_eq_some_iff_groups, dialectOfJson?_eq, layoutOfJson?_eq, languagesOfJson?_eq,
    Json.part?_eq_some_iff_and (fun w x => xmlOfJson?_eq_some_iff) Prod.ext,
    part?_xml_eq_some_iff, part?_xml_eq_some_iff]
  constructor
  · rintro ⟨hdialect, ⟨⟨hrootType, hrootGroup⟩, hotherType, hotherGroup⟩, hlayout, hlanguages⟩ s
    cases s with
    | dialect => exact hdialect
    | rootType => exact hrootType
    | rootGroup => exact hrootGroup
    | otherType => exact hotherType
    | otherGroup => exact hotherGroup
    | layout => exact hlayout
    | languages => exact hlanguages
  · intro h
    exact ⟨h .dialect, ⟨⟨h .rootType, h .rootGroup⟩, h .otherType, h .otherGroup⟩, h .layout,
      h .languages⟩

/-! ## Written settings -/

theorem ofName?_name (l : TableLayout) : TableLayout.ofName? l.name = some l := by
  cases l <;> decide

/-- The written form of a setting. -/
def written (c : GenerationConfig) : Setting → Json
  | .dialect => .str c.dialect
  | .rootType => .bool c.rootClass.extractType
  | .rootGroup => .bool c.rootClass.extractGroup
  | .otherType => .bool c.otherClasses.extractType
  | .otherGroup => .bool c.otherClasses.extractGroup
  | .layout => .str c.layout.name
  | .languages => .strings c.languages

/-- Settings are written at their paths. -/
theorem at?_toJson (c : GenerationConfig) (s : Setting) :
    c.toJson.at? s.path = some (c.written s) := by
  cases s <;> rfl

/-- No setting is written as an object, so none is laid over member by member. -/
theorem written_ne_obj (c : GenerationConfig) (s : Setting) (members : List (String × Json)) :
    c.written s ≠ .obj members := by
  cases s <;> exact nofun

/-- A setting is read back. -/
theorem ofJson?_written (c : GenerationConfig) (s : Setting) :
    s.ofJson? (c.written s) = some (s.get c) := by
  cases s with
  | languages => exact Json.list?_strings c.languages
  | layout => exact ofName?_name c.layout
  | _ => rfl

theorem merged_toJson (c : GenerationConfig) : c.toJson.merged = c.toJson := by
  simp [toJson, XmlExtraction.toJson, Json.merged_obj_iff, Json.memberNames]

/-- Settings are read from their written form. -/
theorem ofJson?_toJson (c : GenerationConfig) : ofJson? c.toJson = some c := by
  refine ofJson?_eq_some_iff.mpr fun s => ?_
  cases s with
  | languages => exact Json.list?_strings c.languages
  | layout => exact ofName?_name c.layout
  | _ => rfl

/-! ## Settings laid over others -/

variable {c c' : GenerationConfig} {v : Json} {members : List (String × Json)}

/-- What settings are if an object is laid over them. -/
theorem override?_obj_iff : c.override? (.obj members) = some c' ↔
    ∀ s : Setting, s.read? (c.toJson.overlay (.obj members)) = some (s.get c') :=
  ofJson?_eq_some_iff

/-- An object that is laid over settings changes those to which it leads, to what it has there,
and leaves those as they are to which it does not lead through objects only. Laid over the result,
it changes nothing, and members that are unknown make no difference. -/
theorem override?_obj (hm : (Json.obj members).merged = .obj members)
    (h : c.override? (.obj members) = some c') :
    (∀ (s : Setting) v, (Json.obj members).at? s.path = some v → s.ofJson? v = some (s.get c')) ∧
    (∀ s : Setting, (Json.obj members).at? s.path = none →
      (Json.obj members).Passable s.path → s.get c' = s.get c) ∧
    c'.override? (.obj members) = some c' ∧
    c.override? .null = some c ∧
    (∀ members', (Json.obj members').merged = .obj members' →
      form.known (.obj members') = form.known (.obj members) →
        c.override? (.obj members') = some c') := by
  have hread := override?_obj_iff.mp h
  have hoverlay := Json.merged_overlay c.merged_toJson hm
  refine ⟨fun s v hv => ?_, fun s hnone hpass => ?_, ?_, rfl, fun members' hm' hknown => ?_⟩
  · have hat := Json.at?_overlay_of_some hm (c.at?_toJson s) (c.written_ne_obj s) hv
    exact Form.read?_of_at? hoverlay hat (hread s)
  · have hat := (Json.at?_overlay_of_none hm hnone hpass).trans (c.at?_toJson s)
    have hsame := (Form.read?_of_at? hoverlay hat (hread s)).symm.trans (c.ofJson?_written s)
    exact Option.some.inj hsame
  · refine override?_obj_iff.mpr fun s => ?_
    exact Form.read?_overlay_again c.merged_toJson c'.merged_toJson hm (c.at?_toJson s)
      (c.written_ne_obj s) (c'.at?_toJson s) (c'.written_ne_obj s) (hread s)
      (ofJson?_eq_some_iff.mp c'.ofJson?_toJson s)
  · refine override?_obj_iff.mpr fun s => ?_
    rw [Setting.read?, ← Form.read?_overlay_known c.merged_toJson hm', hknown,
      Form.read?_overlay_known c.merged_toJson hm]
    exact hread s

/-- Root classes get types, and two members are unknown. -/
def rootTypes : List (String × Json) :=
  [("xml_schema", .obj [("root_class", .obj [("extract_type", .bool true), ("comment", .null)])]),
    ("comment", .str "types for roots")]

/-- The settings under which root classes get types. -/
def typed : GenerationConfig :=
  ⟨default.dialect, ⟨true, false⟩, .default, .single, default.languages⟩

/-- Types for roots are asked for once or twice, with unknown members or without them : the settings
are the same. -/
theorem override?_rootTypes :
    (Json.obj rootTypes).merged = .obj rootTypes ∧
    default.override? (.obj rootTypes) = some typed ∧
    typed.override? (.obj rootTypes) = some typed ∧
    default.override? (.obj [("xml_schema",
      .obj [("root_class", .obj [("extract_type", .bool true)])])]) = some typed := by
  have hm : (Json.obj rootTypes).merged = .obj rootTypes := rfl
  have h : default.override? (.obj rootTypes) = some typed := rfl
  obtain ⟨-, -, hagain, -, hknown⟩ := override?_obj hm h
  exact ⟨hm, h, hagain, hknown _ rfl rfl⟩

end GenerationConfig

end DataSpec
