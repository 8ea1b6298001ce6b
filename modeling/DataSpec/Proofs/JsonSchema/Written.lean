import DataSpec.Proofs.JsonSchema.Objects

/-!
# Schemas and their documents

A document says all that a schema says (`toJson_injective`). All kinds of definitions are
written into one object, and several of them as a type alone, so what a definition is has to be
found out from the members that are there : a member that only one kind has tells the kind, and
what it holds are the parts, which are known by induction.

Of properties with the same name a document has the last one only, so the schemas must not have
any (`JsonSchema.Unambiguous`).
-/

set_option autoImplicit false

namespace DataSpec

namespace Json

theorem str_injective : Function.Injective str := fun _ _ h => str.inj h

theorem nat_toNat_injective : Function.Injective fun n : UInt32 => nat n.toNat :=
  fun _ _ h => UInt32.toNat_inj.mp (Int.ofNat_inj.mp (int.inj h))

theorem strings_injective : Function.Injective strings := fun _ _ h =>
  List.map_injective_iff.mpr str_injective (arr.inj h)

end Json

namespace JsonSchema

variable {ρ : Type} {d d' : Definition String} {s s' : Shape String}

/-- Whether no object in a definition has two properties of the same name. -/
def Definition.Unambiguous (d : Definition ρ) : Prop :=
  ∀ e, Inside d e → ∀ properties required, e.shape = .object properties required →
    (properties.map Prod.fst).Nodup

/-- The same of a shape. -/
structure Shape.Unambiguous (s : Shape ρ) : Prop where
  names : ∀ properties required, s = .object properties required →
    (properties.map Prod.fst).Nodup
  parts : ∀ d ∈ s.parts, d.Unambiguous

theorem Definition.unambiguous_iff {d : Definition ρ} :
    d.Unambiguous ↔ d.shape.Unambiguous := by
  constructor
  · exact fun h => ⟨h d (.refl d), fun _ hpart e he => h e (.part hpart he)⟩
  · intro h e he
    cases he with
    | refl => exact h.names
    | part hpart he => exact h.parts _ hpart e he

theorem Shape.unambiguous_of_isLeaf {s : Shape ρ} (h : s.isLeaf = true) : s.Unambiguous where
  names properties required heq := by simp [heq, isLeaf] at h
  parts d hd := by cases s <;> simp [isLeaf, parts] at h hd

/-! ## Words -/

@[simp]
theorem member?_textMember (name : String) (t : Option String) :
    Json.member? name (Json.textMember name t) = t.map .str := by
  cases t <;> simp [Json.textMember, Json.member?]

@[simp]
theorem member?_countMember (name : String) (n : Option UInt32) :
    Json.member? name (countMember name n) = n.map fun n => .nat n.toNat := by
  cases n <;> simp [countMember, Json.member?]

/-- A shape is stated with none of the members that a definition or a schema has beside it. -/
theorem member?_members_eq_none {name : String}
    (h : name ∈ ["title", "description", "$schema", "$id", "$defs"]) (s : Shape String) :
    Json.member? name s.members = none := by
  simp only [List.mem_cons, List.not_mem_nil, or_false] at h
  rcases h with rfl | rfl | rfl | rfl | rfl <;> cases s <;>
    simp [Shape.members, Json.member?, typeMember]

/-- The words of a definition, and what states its shape. -/
theorem eq_of_members_eq (h : d.members = d'.members) : d.title = d'.title ∧
    d.description = d'.description ∧ d.shape.members = d'.shape.members := by
  obtain ⟨title, description, shape⟩ := d
  obtain ⟨title', description', shape'⟩ := d'
  have htitle := congrArg (Json.member? "title") h
  have hdescription := congrArg (Json.member? "description") h
  simp only [Definition.members, Json.member?_append, member?_textMember,
    Json.member?_textMember_of_ne, member?_members_eq_none, List.mem_cons, ne_eq,
    String.reduceEq, not_false_eq_true, true_or, or_true, Option.or_none, Option.none_or]
    at htitle hdescription
  obtain rfl := Option.map_injective Json.str_injective htitle
  obtain rfl := Option.map_injective Json.str_injective hdescription
  exact ⟨rfl, rfl, List.append_cancel_left h⟩

/-! ## Shapes -/

theorem member?_minItems (s : Shape String) : Json.member? "minItems" s.members =
    match s with
    | .array _ min _ => min.map fun n => .nat n.toNat
    | _ => none := by
  cases s <;> simp [Shape.members, Json.member?, typeMember]

theorem member?_maxItems (s : Shape String) : Json.member? "maxItems" s.members =
    match s with
    | .array _ _ max => max.map fun n => .nat n.toNat
    | _ => none := by
  cases s <;> simp [Shape.members, Json.member?, typeMember]

theorem member?_ref (s : Shape String) : Json.member? "$ref" s.members =
    match s with
    | .ref target => some (.str target)
    | _ => none := by
  cases s <;> simp [Shape.members, Json.member?, typeMember]

/-- Names that are needed are stated in order, and none is stated if there are none. -/
theorem required_injective : Function.Injective fun required : List String =>
    if required.isEmpty then none else some (Json.strings required) := by
  intro required required' h
  cases required <;> cases required' <;> simp at h ⊢
  exact List.cons.inj (Json.strings_injective h)

/-- Only an object has properties. -/
theorem eq_object_of_members_eq {properties : List (String × Definition String)}
    {required : List String} (h : (Shape.object properties required).members = s.members) :
    ∃ properties', s = .object properties' required ∧
      Json.mergeMembers (propertyMembers properties) =
        Json.mergeMembers (propertyMembers properties') := by
  have hproperties := congrArg (Json.member? "properties") h
  have hrequired := congrArg (Json.member? "required") h
  rw [member?_properties, member?_properties] at hproperties
  rw [member?_required, member?_required] at hrequired
  cases s <;> simp only [reduceCtorEq] at hproperties
  case object properties' required' =>
    obtain rfl := required_injective hrequired
    exact ⟨properties', rfl, Json.obj.inj (Option.some.inj hproperties)⟩

/-- Only an array has items. -/
theorem eq_array_of_members_eq {items : Definition String} {min max : Option UInt32}
    (h : (Shape.array items min max).members = s.members) :
    ∃ items', s = .array items' min max ∧ items.members = items'.members := by
  have hitems := congrArg (Json.member? "items") h
  have hmin := congrArg (Json.member? "minItems") h
  have hmax := congrArg (Json.member? "maxItems") h
  rw [member?_items, member?_items] at hitems
  rw [member?_minItems, member?_minItems] at hmin
  rw [member?_maxItems, member?_maxItems] at hmax
  cases s <;> simp only [reduceCtorEq] at hitems
  case array items' min' max' =>
    obtain rfl := Option.map_injective Json.nat_toNat_injective hmin
    obtain rfl := Option.map_injective Json.nat_toNat_injective hmax
    exact ⟨items', rfl, Json.obj.inj (Option.some.inj hitems)⟩

/-- Only a choice has alternatives. -/
theorem eq_anyOf_of_members_eq {alternatives : List (Definition String)}
    (h : (Shape.anyOf alternatives).members = s.members) :
    ∃ alternatives', s = .anyOf alternatives' ∧
      documents alternatives = documents alternatives' := by
  have halternatives := congrArg (Json.member? "anyOf") h
  rw [member?_anyOf, member?_anyOf] at halternatives
  cases s <;> simp only [reduceCtorEq] at halternatives
  case anyOf alternatives' =>
    exact ⟨alternatives', rfl, Json.arr.inj (Option.some.inj halternatives)⟩

/-- The type that a shape states. -/
def Shape.type? : Shape ρ → Option String
  | .object _ _ | .languageMap => some "object"
  | .array _ _ _ => some "array"
  | .text _ => some "string"
  | .integer => some "integer"
  | .number => some "number"
  | .boolean => some "boolean"
  | .anyOf _ | .ref _ | .any => none

theorem member?_type (s : Shape String) :
    Json.member? "type" s.members = s.type?.map .str := by
  cases s <;> simp [Shape.members, Json.member?, typeMember, Shape.type?]

theorem member?_format (s : Shape String) : Json.member? "format" s.members =
    match s with
    | .text format => format.map .str
    | _ => none := by
  cases s <;> simp [Shape.members, Json.member?, typeMember]

/-- A shape without parts is known by its type, and by what its own members hold. -/
theorem eq_of_members_eq_of_isLeaf (hleaf : s.isLeaf = true) (h : s.members = s'.members) :
    s = s' := by
  have htype := congrArg (Json.member? "type") h
  have hformat := congrArg (Json.member? "format") h
  have hlanguages := congrArg (Json.member? "additionalProperties") h
  have href := congrArg (Json.member? "$ref") h
  have hanyOf := congrArg (Json.member? "anyOf") h
  rw [member?_type, member?_type] at htype
  rw [member?_format, member?_format] at hformat
  rw [member?_additionalProperties, member?_additionalProperties] at hlanguages
  rw [member?_ref, member?_ref] at href
  rw [member?_anyOf, member?_anyOf] at hanyOf
  clear h
  have htype := Option.map_injective Json.str_injective htype
  cases s <;> simp only [Shape.isLeaf, Bool.false_eq_true] at hleaf <;> cases s' <;>
    simp only [Shape.type?, Option.some.injEq, String.reduceEq, reduceCtorEq]
      at htype hformat hlanguages href hanyOf ⊢
  case text.text => rw [Option.map_injective Json.str_injective hformat]
  case ref.ref => rw [Json.str_injective href]

theorem memberNames_propertyMembers (properties : List (String × Definition String)) :
    Json.memberNames (propertyMembers properties) = properties.map Prod.fst := by
  rw [propertyMembers_eq_map, Json.memberNames, List.map_map]
  rfl

/-! ## Trees -/

mutual

/-- A definition is determined by the members that state it. -/
theorem Definition.members_injective : ∀ {d d' : Definition String}, d.Unambiguous →
    d'.Unambiguous → d.members = d'.members → d = d'
  | ⟨title, description, shape⟩, ⟨title', description', shape'⟩, hd, hd', h => by
    obtain ⟨htitle, hdescription, hmembers⟩ := eq_of_members_eq h
    obtain rfl : title = title' := htitle
    obtain rfl : description = description' := hdescription
    have hshape : shape = shape' := Shape.members_injective
      (Definition.unambiguous_iff.mp hd) (Definition.unambiguous_iff.mp hd') hmembers
    rw [hshape]

/-- So is a shape. -/
theorem Shape.members_injective : ∀ {s s' : Shape String}, s.Unambiguous → s'.Unambiguous →
    s.members = s'.members → s = s'
  | .object properties required, s', hs, hs', h => by
    obtain ⟨properties', rfl, hmerged⟩ := eq_object_of_members_eq h
    rw [Json.mergeMembers_eq_self (memberNames_propertyMembers _ ▸ hs.names _ _ rfl),
      Json.mergeMembers_eq_self (memberNames_propertyMembers _ ▸ hs'.names _ _ rfl)] at hmerged
    have hproperties : properties = properties' := propertyMembers_injective
      (fun e he => hs.parts _ (List.mem_map_of_mem he))
      (fun e he => hs'.parts _ (List.mem_map_of_mem he)) hmerged
    rw [hproperties]
  | .array items min max, s', hs, hs', h => by
    obtain ⟨items', rfl, hmembers⟩ := eq_array_of_members_eq h
    have hitems : items = items' := Definition.members_injective
      (hs.parts items List.mem_cons_self) (hs'.parts items' List.mem_cons_self) hmembers
    rw [hitems]
  | .anyOf alternatives, s', hs, hs', h => by
    obtain ⟨alternatives', rfl, hdocuments⟩ := eq_anyOf_of_members_eq h
    have halternatives : alternatives = alternatives' :=
      documents_injective hs.parts hs'.parts hdocuments
    rw [halternatives]
  | .text _, _, _, _, h | .integer, _, _, _, h | .number, _, _, _, h | .boolean, _, _, _, h
  | .languageMap, _, _, _, h | .ref _, _, _, _, h | .any, _, _, _, h =>
    eq_of_members_eq_of_isLeaf rfl h

/-- So are properties, in order. -/
theorem propertyMembers_injective : ∀ {ps ps' : List (String × Definition String)},
    (∀ e ∈ ps, e.2.Unambiguous) → (∀ e ∈ ps', e.2.Unambiguous) →
    propertyMembers ps = propertyMembers ps' → ps = ps'
  | [], [], _, _, _ => rfl
  | [], _ :: _, _, _, h | _ :: _, [], _, _, h => by simp [propertyMembers] at h
  | (name, d) :: rest, (name', d') :: rest', hps, hps', h => by
    obtain ⟨hhead, htail⟩ := List.cons.inj h
    obtain ⟨rfl, hmembers⟩ := Prod.mk.inj hhead
    have hd : d = d' := Definition.members_injective (hps _ List.mem_cons_self)
      (hps' _ List.mem_cons_self) (Json.obj.inj hmembers)
    have hrest : rest = rest' := propertyMembers_injective (List.forall_mem_cons.mp hps).2
      (List.forall_mem_cons.mp hps').2 htail
    rw [hd, hrest]

/-- So are alternatives, in order. -/
theorem documents_injective : ∀ {ds ds' : List (Definition String)},
    (∀ d ∈ ds, d.Unambiguous) → (∀ d ∈ ds', d.Unambiguous) →
    documents ds = documents ds' → ds = ds'
  | [], [], _, _, _ => rfl
  | [], _ :: _, _, _, h | _ :: _, [], _, _, h => by simp [documents] at h
  | d :: rest, d' :: rest', hds, hds', h => by
    obtain ⟨hmembers, htail⟩ := List.cons.inj h
    have hd : d = d' := Definition.members_injective (hds _ List.mem_cons_self)
      (hds' _ List.mem_cons_self) (Json.obj.inj hmembers)
    have hrest : rest = rest' := documents_injective (List.forall_mem_cons.mp hds).2
      (List.forall_mem_cons.mp hds').2 htail
    rw [hd, hrest]

end

/-! ## Schemas -/

end JsonSchema

/-- Whether no object in a schema has two properties of the same name. -/
structure JsonSchema.Unambiguous {ρ : Type} (s : JsonSchema ρ) : Prop where
  root : s.root.Unambiguous
  defs : ∀ d ∈ s.defs.values, d.Unambiguous

namespace JsonSchema

theorem member?_defsMember (name : String) (defs : SortedMap String (Definition String)) :
    Json.member? name (defsMember defs) =
      if name = "$defs" ∧ defs.isEmpty = false then some (.obj (propertyMembers defs.toList))
      else none := by
  unfold defsMember
  split
  · simp [*, Json.member?]
  · simp [*, Json.member?, eq_comm]

/-- Named definitions are stated in the order of their names, and none is if there are none. -/
theorem defs_injective {defs defs' : SortedMap String (Definition String)}
    (hdefs : ∀ d ∈ defs.values, d.Unambiguous) (hdefs' : ∀ d ∈ defs'.values, d.Unambiguous)
    (h : Json.member? "$defs" (defsMember defs) = Json.member? "$defs" (defsMember defs')) :
    defs = defs' := by
  have hlist : propertyMembers defs.toList = propertyMembers defs'.toList := by
    have hempty : ∀ {defs : SortedMap String (Definition String)}, defs.isEmpty = true →
        propertyMembers defs.toList = [] := by
      intro defs hdefs
      rw [SortedMap.toList, List.isEmpty_iff.mp hdefs, propertyMembers]
    rw [member?_defsMember, member?_defsMember] at h
    cases hd : defs.isEmpty <;> cases hd' : defs'.isEmpty <;> simp [hd, hd'] at h
    · exact h
    · rw [hempty hd, hempty hd']
  refine SortedMap.ext_toList (propertyMembers_injective ?_ ?_ hlist)
  · exact fun e he => hdefs _ (List.mem_map_of_mem he)
  · exact fun e he => hdefs' _ (List.mem_map_of_mem he)

/-- The root of a schema is stated with none of the members that the schema has beside it. -/
theorem member?_root {name : String} (h : name ∈ ["$schema", "$id", "$defs"]) (s : JsonSchema) :
    Json.member? name s.root.members = none := by
  simp only [List.mem_cons, List.not_mem_nil, or_false] at h
  rw [member?_members, member?_members_eq_none]
  all_goals rcases h with rfl | rfl | rfl <;> simp

theorem get?_dialect (s : JsonSchema) : s.toJson.get? "$schema" = s.dialect.map .str := by
  simp [toJson, Json.get?, member?_root, member?_defsMember]

theorem get?_id (s : JsonSchema) : s.toJson.get? "$id" = s.id.map .str := by
  simp [toJson, Json.get?, member?_root, member?_defsMember]

theorem get?_defs (s : JsonSchema) :
    s.toJson.get? "$defs" = Json.member? "$defs" (defsMember s.defs) := by
  simp [toJson, Json.get?, member?_root]

/-- A schema is determined by its document. -/
theorem toJson_injective {s s' : JsonSchema} (hs : s.Unambiguous) (hs' : s'.Unambiguous)
    (h : s.toJson = s'.toJson) : s = s' := by
  have hdialect : s.dialect = s'.dialect :=
    Option.map_injective Json.str_injective (by rw [← get?_dialect, ← get?_dialect, h])
  have hid : s.id = s'.id :=
    Option.map_injective Json.str_injective (by rw [← get?_id, ← get?_id, h])
  have hdefs : s.defs = s'.defs :=
    defs_injective hs.defs hs'.defs (by rw [← get?_defs, ← get?_defs, h])
  have hroot : s.root = s'.root := by
    have hmembers := Json.obj.inj h
    rw [hdialect, hid, hdefs] at hmembers
    exact Definition.members_injective hs.root hs'.root
      (List.append_cancel_left (List.append_cancel_right hmembers))
  obtain ⟨dialect, id, root, defs⟩ := s
  obtain ⟨dialect', id', root', defs'⟩ := s'
  rw [JsonSchema.mk.injEq]
  exact ⟨hdialect, hid, hroot, hdefs⟩

/-! ## Persons and addresses -/

/-- A person has a name, and perhaps an address. -/
def personDefinition : Definition String :=
  ⟨some "Person", none, .object [("name", .plain (.text none)),
    ("home", .plain (.ref "#/$defs/home"))] ["name"]⟩

/-- An address has up to three residents. -/
def addressDefinition : Definition String :=
  .plain (.object
    [("residents", .plain (.array (.plain (.ref "#/$defs/person")) none (some 3)))] [])

/-- A schema of persons, with definitions that were made in some order. -/
def residentSchema (defs : List (String × Definition String)) : JsonSchema where
  dialect := none
  id := some "https://e.com/residents.json"
  root := .plain (.ref "#/$defs/person")
  defs := .ofList defs

theorem unambiguous_personDefinition : personDefinition.Unambiguous := by
  refine Definition.unambiguous_iff.mpr ⟨fun properties required h => ?_, fun d hd => ?_⟩
  · obtain ⟨rfl, -⟩ := Shape.object.inj h
    decide
  · simp only [personDefinition, Shape.parts, List.map_cons, List.map_nil, List.mem_cons,
      List.not_mem_nil, or_false] at hd
    rcases hd with rfl | rfl <;>
      exact Definition.unambiguous_iff.mpr (Shape.unambiguous_of_isLeaf rfl)

theorem unambiguous_addressDefinition : addressDefinition.Unambiguous := by
  refine Definition.unambiguous_iff.mpr ⟨fun properties required h => ?_, fun d hd => ?_⟩
  · obtain ⟨rfl, -⟩ := Shape.object.inj h
    decide
  · obtain rfl := List.mem_singleton.mp hd
    refine Definition.unambiguous_iff.mpr ⟨nofun, fun d hd => ?_⟩
    obtain rfl := List.mem_singleton.mp hd
    exact Definition.unambiguous_iff.mpr (Shape.unambiguous_of_isLeaf rfl)

theorem unambiguous_residentSchema {defs : List (String × Definition String)}
    (h : ∀ e ∈ defs, e.2 = personDefinition ∨ e.2 = addressDefinition) :
    (residentSchema defs).Unambiguous where
  root := Definition.unambiguous_iff.mpr (Shape.unambiguous_of_isLeaf rfl)
  defs d hd := by
    obtain ⟨k, hk⟩ := SortedMap.mem_values_iff.mp hd
    obtain rfl | rfl := h _ (SortedMap.mem_of_get?_ofList hk)
    · exact unambiguous_personDefinition
    · exact unambiguous_addressDefinition

/-- The order in which definitions are made is not seen. -/
theorem toJson_injective_residents :
    (residentSchema [("person", personDefinition), ("home", addressDefinition)]).Unambiguous ∧
    (residentSchema [("home", addressDefinition), ("person", personDefinition)]).Unambiguous ∧
    (residentSchema [("person", personDefinition), ("home", addressDefinition)]).toJson =
      (residentSchema [("home", addressDefinition), ("person", personDefinition)]).toJson ∧
    residentSchema [("person", personDefinition), ("home", addressDefinition)] =
      residentSchema [("home", addressDefinition), ("person", personDefinition)] := by
  have h : (residentSchema
      [("person", personDefinition), ("home", addressDefinition)]).Unambiguous :=
    unambiguous_residentSchema (by simp)
  have h' : (residentSchema
      [("home", addressDefinition), ("person", personDefinition)]).Unambiguous :=
    unambiguous_residentSchema (by simp)
  exact ⟨h, h', rfl, toJson_injective h h' rfl⟩

end JsonSchema

end DataSpec
