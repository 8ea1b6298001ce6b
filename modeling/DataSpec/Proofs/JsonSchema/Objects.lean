import DataSpec.JsonSchema.Printer
import DataSpec.Proofs.Json.Members
import DataSpec.Proofs.JsonSchema.Naming
import DataSpec.Proofs.JsonSchema.Opening
import DataSpec.Proofs.Structural.Names

/-!
# Objects of schemas

A definition of objects is written for a class : it has a property for each of the class, in
order, and needs those that the class needs (`OfClass`). So it is with all definitions that are
inside the root and inside the named definitions of the schema of a model
(`describes_ofModel`), because the names that are known while classes are open stand for such
definitions as well.

In the document of a schema an object is a value with a member "properties" that can be reached
from the document as validators reach it (`Subschema`). `exists_states_of_subschema`
leads from such a value back to a definition.
-/

set_option autoImplicit false

namespace DataSpec

namespace JsonSchema

variable {ρ σ : Type} {m : StructuralModel} {p : Publication}

/-! ## Definitions inside others -/

/-- The definitions that a shape consists of. -/
def Shape.parts : Shape ρ → List (Definition ρ)
  | .object properties _ => properties.map Prod.snd
  | .array items _ _ => [items]
  | .anyOf alternatives => alternatives
  | _ => []

/-- Whether a definition is another one or somewhere inside it. -/
inductive Inside : Definition ρ → Definition ρ → Prop
  | refl (d : Definition ρ) : Inside d d
  | part {d d' e : Definition ρ} (hpart : d' ∈ d.shape.parts) (h : Inside d' e) : Inside d e

/-- Whether a shape has no parts, and is not one of objects. -/
def Shape.isLeaf : Shape ρ → Bool
  | .object _ _ | .array _ _ _ | .anyOf _ => false
  | _ => true

/-- Whether a definition, if it is one of objects, has the properties of a class. -/
def OfClass (m : StructuralModel) (d : Definition ρ) : Prop :=
  ∀ properties required, d.shape = .object properties required → ∃ c ∈ m.classes.values,
    properties.map Prod.fst = c.names ∧ required = requiredNames c.properties

/-- Whether all objects inside a definition have the properties of classes. -/
def Describes (m : StructuralModel) (d : Definition ρ) : Prop := ∀ e, Inside d e → OfClass m e

/-- The parts of what describes a model describe it. -/
theorem Describes.part {d d' : Definition ρ} (h : Describes m d) (hpart : d' ∈ d.shape.parts) :
    Describes m d' := fun e he => h e (.part hpart he)

/-- A definition describes a model if its parts do and it is not itself an object of another
form. -/
theorem describes_of_parts {d : Definition ρ} (h : OfClass m d)
    (hparts : ∀ d' ∈ d.shape.parts, Describes m d') : Describes m d := by
  intro e he
  cases he with
  | refl => exact h
  | part hpart he => exact hparts _ hpart e he

/-- A definition without parts describes no object. -/
theorem describes_of_leaf {d : Definition ρ} (h : d.shape.isLeaf = true) : Describes m d := by
  refine describes_of_parts (fun properties required heq => ?_) fun d' hd' => ?_
  · simp [heq, Shape.isLeaf] at h
  · cases hs : d.shape <;> simp [hs, Shape.isLeaf, Shape.parts] at h hd'

/-- What is said of objects is no matter of words. -/
theorem describes_annotate {d : Definition ρ} (h : Describes m d)
    (title description : Option String) : Describes m (d.annotate title description) :=
  describes_of_parts (h d (.refl d)) fun _ hd => h.part hd

/-- An array describes what its items do. -/
theorem describes_array {d : Definition ρ} (h : Describes m d) (min max : Option UInt32) :
    Describes m (.plain (.array d min max)) :=
  describes_of_parts (by intro _ _ heq; cases heq) fun _ hd => List.mem_singleton.mp hd ▸ h

/-- Alternatives describe what each of them does. -/
theorem describes_anyOf {ds : List (Definition ρ)} (h : ∀ d ∈ ds, Describes m d) :
    Describes m (.anyOf ds) := by
  unfold Definition.anyOf
  split
  · exact h _ List.mem_cons_self
  · exact describes_of_parts (by intro _ _ heq; cases heq) h

/-! ## Definitions of classes -/

theorem describes_datatypeShape (iri : Option Iri) :
    Describes (ρ := ρ) m (.plain (datatypeShape iri)) := by
  refine describes_of_leaf ?_
  unfold datatypeShape
  split
  · rfl
  · split <;> rfl

/-- A property describes what its values do. -/
theorem describes_ofProperty {q : StructuralProperty} {value : Definition Reference}
    (h : Describes m value) : Describes m (ofProperty p q value) := by
  unfold ofProperty
  refine describes_annotate ?_ _ _
  split
  · exact describes_array h _ _
  · exact h

/-- Whether all named definitions describe objects of classes. -/
def Naming.Describes (m : StructuralModel) (s : Naming) : Prop :=
  ∀ name d, s.defs.get? name = some d → JsonSchema.Describes m d

/-- A reference to a class that is open describes no object, and adds no definition. -/
theorem describes_refer {s s' : Naming} {c : StructuralClass} {d : Definition Reference}
    (hs : s.Describes m) (h : s.refer c = (d, s')) : Describes m d ∧ s'.Describes m := by
  unfold Naming.refer at h
  cases hn : ({ s with recursive := s.recursive.add c.iri } : Naming).nameOf c with
  | mk name s₁ =>
    rw [hn] at h
    obtain ⟨rfl, rfl⟩ := Prod.mk.inj h
    obtain ⟨-, -, -, -, hdefs⟩ := Naming.nameOf_cases hn
    exact ⟨describes_of_leaf rfl, fun name d hd => hs name d (hdefs ▸ hd)⟩

/-- A class that is closed is described where it stands or among the named definitions. -/
theorem describes_close {s s' : Naming} {c : StructuralClass} {d d' : Definition Reference}
    (hs : s.Describes m) (hd : Describes m d) (h : s.close c d = (d', s')) :
    Describes m d' ∧ s'.Describes m := by
  unfold Naming.close at h
  split at h
  · cases hn : s.nameOf c with
    | mk name s₁ =>
      rw [hn] at h
      obtain ⟨rfl, rfl⟩ := Prod.mk.inj h
      obtain ⟨-, -, -, -, hdefs⟩ := Naming.nameOf_cases hn
      refine ⟨describes_of_leaf rfl, fun name' e he => ?_⟩
      rw [SortedMap.get?_insert, hdefs] at he
      split at he
      · exact Option.some.inj he ▸ hd
      · exact hs name' e he
  · obtain ⟨rfl, rfl⟩ := Prod.mk.inj h
    exact ⟨hd, hs⟩

/-- An opening of classes that writes definitions of their objects. -/
def Tells (m : StructuralModel) (opening : Opening) : Prop :=
  ∀ {s key d s'}, s.Describes m → opening s key = .ok (d, s') →
    Describes m d ∧ s'.Describes m

section Steps

variable {opening : Opening} (ho : Tells m opening)
include ho

/-- The classes of a range are described if each class is. -/
theorem describes_classesWith : ∀ {keys : List Iri} {s s' ds}, s.Describes m →
    classesWith opening s keys = .ok (ds, s') → (∀ d ∈ ds, Describes m d) ∧ s'.Describes m
  | [], s, s', ds, hs, h => by
    obtain ⟨rfl, rfl⟩ := Prod.mk.inj (Except.ok.inj h)
    exact ⟨nofun, hs⟩
  | key :: rest, s, s', ds, hs, h => by
    obtain ⟨⟨d, s₁⟩, hd, h⟩ := Except.bind_eq_ok.mp h
    obtain ⟨⟨ds', s₂⟩, hds, h⟩ := Except.bind_eq_ok.mp h
    obtain ⟨rfl, rfl⟩ := Prod.mk.inj (Except.ok.inj h)
    obtain ⟨hd, hs₁⟩ := ho hs hd
    obtain ⟨hds, hs₂⟩ := describes_classesWith hs₁ hds
    exact ⟨List.forall_mem_cons.mpr ⟨hd, hds⟩, hs₂⟩

/-- The values of a property are described if its classes are. -/
theorem describes_valuesWith {r : PropertyRange} {s s' : Naming}
    {ds : List (Definition Reference)} (hs : s.Describes m)
    (h : valuesWith opening s r = .ok (ds, s')) : (∀ d ∈ ds, Describes m d) ∧ s'.Describes m := by
  cases r with
  | datatypes iris =>
    obtain ⟨rfl, rfl⟩ := Prod.mk.inj (Except.ok.inj h)
    refine ⟨fun d hd => ?_, hs⟩
    obtain ⟨iri, -, rfl⟩ := List.mem_map.mp hd
    exact describes_datatypeShape iri
  | classes iris => exact describes_classesWith ho hs h

/-- Properties are written in order, each under its name. -/
theorem describes_propertiesWith : ∀ {qs : List StructuralProperty} {s s' ps}, s.Describes m →
    propertiesWith p opening s qs = .ok (ps, s') →
      ps.map Prod.fst = qs.map StructuralProperty.name ∧ (∀ e ∈ ps, Describes m e.2) ∧
        s'.Describes m
  | [], s, s', ps, hs, h => by
    obtain ⟨rfl, rfl⟩ := Prod.mk.inj (Except.ok.inj h)
    exact ⟨rfl, nofun, hs⟩
  | q :: rest, s, s', ps, hs, h => by
    obtain ⟨r, -, h⟩ := Except.bind_eq_ok.mp h
    obtain ⟨⟨ds, s₁⟩, hds, h⟩ := Except.bind_eq_ok.mp h
    obtain ⟨⟨ps', s₂⟩, hps, h⟩ := Except.bind_eq_ok.mp h
    obtain ⟨rfl, rfl⟩ := Prod.mk.inj (Except.ok.inj h)
    obtain ⟨hds, hs₁⟩ := describes_valuesWith ho hs hds
    obtain ⟨hnames, hps, hs₂⟩ := describes_propertiesWith hs₁ hps
    exact ⟨congrArg (q.name :: ·) hnames,
      List.forall_mem_cons.mpr ⟨describes_ofProperty (describes_anyOf hds), hps⟩, hs₂⟩

/-- A class that is opened is an object with its properties. -/
theorem describes_openedWith {s s' : Naming} {c : StructuralClass} {d : Definition Reference}
    (hc : c ∈ m.classes.values) (hs : s.Describes m)
    (h : openedWith p opening s c = .ok (d, s')) : Describes m d ∧ s'.Describes m := by
  obtain ⟨⟨ps, s₁⟩, hps, hclose⟩ := Except.map_eq_ok.mp h
  obtain ⟨hnames, hps, hs₁⟩ := describes_propertiesWith ho hs hps
  refine describes_close hs₁ (describes_annotate (describes_of_parts ?_ ?_) _ _) hclose
  · intro properties required heq
    obtain ⟨rfl, rfl⟩ := Shape.object.inj heq
    exact ⟨c, hc, hnames, rfl⟩
  · intro d' hd'
    obtain ⟨e, he, rfl⟩ := List.mem_map.mp hd'
    exact hps e he

end Steps

/-- A class is told as an identifier, by reference or as an object. -/
theorem describes_classWith {objects : Naming → m.Member → Except ModelError _}
    (ho : ∀ {s c d s'}, s.Describes m → objects s c = .ok (d, s') →
      Describes m d ∧ s'.Describes m) : Tells m (classWith p m objects) := by
  intro s key d s' hs h
  obtain ⟨c, -, h⟩ := Except.bind_eq_ok.mp h
  split at h
  · obtain ⟨rfl, rfl⟩ := Prod.mk.inj (Except.ok.inj h)
    exact ⟨describes_of_leaf rfl, hs⟩
  · split at h
    · obtain ⟨rfl, rfl⟩ := Prod.mk.inj (Except.ok.inj h)
      exact ⟨describes_of_leaf rfl, hs⟩
    · exact ho hs h

/-- Opening a class writes definitions of objects of classes. -/
theorem tells_defineClass (stack : List Iri) : Tells m (defineClass p m stack) := by
  rw [defineClass_eq]
  refine describes_classWith fun {s c d s'} hs h => ?_
  split at h
  · exact describes_refer hs (Except.ok.inj h)
  · exact describes_openedWith (tells_defineClass (c.val.iri :: stack)) c.property hs h
termination_by m.closedCount stack
decreasing_by exact StructuralModel.closedCount_cons_lt c.property ‹_›

/-! ## Schemas of models -/

theorem mapPropertyRefs_eq_map (f : ρ → σ) (properties : List (String × Definition ρ)) :
    mapPropertyRefs f properties = properties.map fun e => (e.1, e.2.mapRefs f) := by
  induction properties with
  | nil => rfl
  | cons e rest ih => rw [mapPropertyRefs, ih, List.map_cons]

/-- References are replaced in one definition after the other. -/
theorem mapListRefs_eq_map (f : ρ → σ) (ds : List (Definition ρ)) :
    mapListRefs f ds = ds.map (Definition.mapRefs f) := by
  induction ds with
  | nil => rfl
  | cons d rest ih => rw [mapListRefs, ih, List.map_cons]

/-- The shape of a definition is that of before with its references replaced. -/
theorem Definition.shape_mapRefs (f : ρ → σ) (d : Definition ρ) :
    (d.mapRefs f).shape = d.shape.mapRefs f := by
  cases d
  rfl

/-- The parts of a shape are those of before with their references replaced. -/
theorem Shape.parts_mapRefs (f : ρ → σ) (s : Shape ρ) :
    (s.mapRefs f).parts = s.parts.map (Definition.mapRefs f) := by
  cases s <;> simp [Shape.mapRefs, Shape.parts, mapPropertyRefs_eq_map, mapListRefs_eq_map]

/-- An object of a class is still one when references are replaced. -/
theorem OfClass.mapRefs {d : Definition ρ} (h : OfClass m d) (f : ρ → σ) :
    OfClass m (d.mapRefs f) := by
  intro properties required heq
  rw [Definition.shape_mapRefs] at heq
  cases hs : d.shape <;> simp only [hs, Shape.mapRefs, reduceCtorEq] at heq
  case object properties' required' =>
    obtain ⟨rfl, rfl⟩ := Shape.object.inj heq
    obtain ⟨c, hc, hnames, hrequired⟩ := h _ _ hs
    refine ⟨c, hc, ?_, hrequired⟩
    rw [mapPropertyRefs_eq_map, List.map_map]
    exact hnames

/-- What is inside a definition whose references were changed is so changed. -/
theorem exists_of_inside_mapRefs {f : ρ → σ} {d' e : Definition σ} (h : Inside d' e) :
    ∀ {d : Definition ρ}, d' = d.mapRefs f → ∃ e', Inside d e' ∧ e = e'.mapRefs f := by
  induction h with
  | refl d' => exact fun heq => ⟨_, .refl _, heq⟩
  | part hpart _ ih =>
    rintro d rfl
    rw [Definition.shape_mapRefs, Shape.parts_mapRefs] at hpart
    obtain ⟨d₁, hd₁, rfl⟩ := List.mem_map.mp hpart
    obtain ⟨e', he', rfl⟩ := ih rfl
    exact ⟨e', .part hd₁ he', rfl⟩

/-- What describes a model still does when references are replaced. -/
theorem Describes.mapRefs {d : Definition ρ} (h : Describes m d) (f : ρ → σ) :
    Describes m (d.mapRefs f) := by
  intro e he
  obtain ⟨e', he', rfl⟩ := exists_of_inside_mapRefs he rfl
  exact (h e' he').mapRefs f

/-- All objects in the schema of a model have the properties of classes. -/
theorem describes_ofModel {schema : JsonSchema} (h : ofModel p m = .ok schema) :
    Describes m schema.root ∧ ∀ name d, schema.defs.get? name = some d → Describes m d := by
  rw [ofModel_eq] at h
  obtain ⟨-, -, h⟩ := Except.bind_eq_ok.mp h
  obtain ⟨⟨ds, s⟩, hds, h⟩ := Except.bind_eq_ok.mp h
  obtain rfl := Except.ok.inj h
  obtain ⟨hds, hs⟩ := describes_classesWith (tells_defineClass []) (s := .empty)
    (fun name d hd => by simp [Naming.empty] at hd) hds
  refine ⟨(describes_anyOf hds).mapRefs _, fun name d hd => ?_⟩
  rw [JsonSchema.mapRefs, SortedMap.get?_mapValues] at hd
  obtain ⟨d', hd', rfl⟩ := Option.map_eq_some_iff.mp hd
  exact (hs name d' hd').mapRefs _

/-! ## Documents -/

/-- The document of a definition. -/
def Definition.document (d : Definition String) : Json := .obj d.members

/-- The values of the members of an object. -/
def memberValues : Option Json → List Json
  | some (.obj members) => members.map Prod.snd
  | _ => []

/-- The items of an array. -/
def arrayItems : Option Json → List Json
  | some (.arr items) => items
  | _ => []

/-- The schemas that the document of a schema consists of. -/
def schemaParts (v : Json) : List Json :=
  memberValues (v.get? "properties") ++ memberValues (v.get? "$defs") ++
    arrayItems (v.get? "anyOf") ++ (v.get? "items").toList ++
    (v.get? "additionalProperties").toList

/-- Whether a value is the document of a schema or somewhere inside it, as a schema. -/
inductive Subschema : Json → Json → Prop
  | refl (v : Json) : Subschema v v
  | part {v w u : Json} (hpart : w ∈ schemaParts v) (h : Subschema w u) : Subschema v u

/-- The names of the members that matter to what a schema describes. -/
def keywords : List String := ["properties", "required", "anyOf", "items", "additionalProperties"]

/-- Whether a value states a definition, and named definitions with it, of objects of classes. -/
structure States (m : StructuralModel) (v : Json) (d : Definition String) : Prop where
  describes : Describes m d
  get? : ∀ name ∈ keywords, v.get? name = Json.member? name d.shape.members
  defs : ∀ w ∈ memberValues (v.get? "$defs"), ∃ d', Describes m d' ∧ w = d'.document

/-- The words of a definition are under other names. -/
theorem member?_members {name : String} (ht : "title" ≠ name) (hd : "description" ≠ name)
    (d : Definition String) : Json.member? name d.members = Json.member? name d.shape.members := by
  obtain ⟨title, description, shape⟩ := d
  rw [Definition.members, Json.member?_append, Json.member?_append,
    Json.member?_textMember_of_ne ht, Json.member?_textMember_of_ne hd]
  rfl

section Keywords

variable {name : String}

@[simp]
theorem member?_countMember_of_ne {name' : String} (h : name' ≠ name) (n : Option UInt32) :
    Json.member? name (countMember name' n) = none := by
  cases n with
  | none => rfl
  | some n => rw [countMember, Json.member?, if_neg h, Json.member?]

@[simp]
theorem member?_requiredMember_of_ne (h : "required" ≠ name) (names : List String) :
    Json.member? name (requiredMember names) = none := by
  unfold requiredMember
  split
  · rfl
  · rw [Json.member?, if_neg h, Json.member?]

/-- Only objects have the keyword `properties`. -/
theorem member?_properties (s : Shape String) : Json.member? "properties" s.members =
    match s with
    | .object properties _ => some (.obj (Json.mergeMembers (propertyMembers properties)))
    | _ => none := by
  cases s <;> simp [Shape.members, Json.member?, typeMember]

/-- Only objects that need some property have the keyword `required`. -/
theorem member?_required (s : Shape String) : Json.member? "required" s.members =
    match s with
    | .object _ required => if required.isEmpty then none else some (Json.strings required)
    | _ => none := by
  cases s
  case object properties required =>
    cases required <;> simp [Shape.members, Json.member?, typeMember, requiredMember]
  all_goals simp [Shape.members, Json.member?, typeMember]

/-- Only alternatives have the keyword `anyOf`. -/
theorem member?_anyOf (s : Shape String) : Json.member? "anyOf" s.members =
    match s with
    | .anyOf alternatives => some (.arr (documents alternatives))
    | _ => none := by
  cases s <;> simp [Shape.members, Json.member?, typeMember]

/-- Only arrays have the keyword `items`. -/
theorem member?_items (s : Shape String) : Json.member? "items" s.members =
    match s with
    | .array items _ _ => some items.document
    | _ => none := by
  cases s <;> simp [Shape.members, Json.member?, typeMember, Definition.document]

/-- Only texts by language have the keyword `additionalProperties`. -/
theorem member?_additionalProperties (s : Shape String) :
    Json.member? "additionalProperties" s.members =
    match s with
    | .languageMap => some (Definition.plain (.text none)).document
    | _ => none := by
  cases s
  case languageMap => rfl
  all_goals simp [Shape.members, Json.member?, typeMember]

/-- Only the whole schema has definitions. -/
theorem member?_defs (s : Shape String) : Json.member? "$defs" s.members = none := by
  cases s <;> simp [Shape.members, Json.member?, typeMember]

end Keywords

/-- A definition is stated by the document that is written for it. -/
theorem states_document {d : Definition String} (h : Describes m d) : States m d.document d where
  describes := h
  get? name hname := by
    refine member?_members ?_ ?_ d <;> rintro rfl <;> simp [keywords] at hname
  defs w hw := by
    have hnone : d.document.get? "$defs" = none := by
      rw [Definition.document, Json.get?, member?_members (by decide) (by decide),
        member?_defs]
    simp [hnone, memberValues] at hw

theorem propertyMembers_eq_map (properties : List (String × Definition String)) :
    propertyMembers properties = properties.map fun e => (e.1, e.2.document) := by
  induction properties with
  | nil => rfl
  | cons e rest ih => rw [propertyMembers, ih]; rfl

/-- Alternatives are written one by one. -/
theorem documents_eq_map (ds : List (Definition String)) :
    documents ds = ds.map Definition.document := by
  induction ds with
  | nil => rfl
  | cons d rest ih => rw [documents, ih]; rfl

/-- The schemas in a stated definition state definitions. -/
theorem States.part {v w : Json} {d : Definition String} (h : States m v d)
    (hw : w ∈ schemaParts v) : ∃ d', States m w d' := by
  have hpart : ∃ d', Describes m d' ∧ w = d'.document := by
    simp only [schemaParts, List.mem_append] at hw
    rcases hw with (((hw | hw) | hw) | hw) | hw
    · rw [h.get? _ (by decide), member?_properties] at hw
      cases hs : d.shape <;> simp only [hs, memberValues, List.not_mem_nil] at hw
      case object properties required =>
        obtain ⟨e, he, rfl⟩ := List.mem_map.mp hw
        have he := Json.mem_of_mem_mergeMembers he
        rw [propertyMembers_eq_map] at he
        obtain ⟨e', he', rfl⟩ := List.mem_map.mp he
        exact ⟨e'.2, h.describes.part (by rw [hs]; exact List.mem_map_of_mem he'), rfl⟩
    · exact h.defs w hw
    · rw [h.get? _ (by decide), member?_anyOf] at hw
      cases hs : d.shape <;> simp only [hs, arrayItems, List.not_mem_nil] at hw
      case anyOf alternatives =>
        rw [documents_eq_map] at hw
        obtain ⟨d', hd', rfl⟩ := List.mem_map.mp hw
        exact ⟨d', h.describes.part (by rw [hs]; exact hd'), rfl⟩
    · rw [h.get? _ (by decide), member?_items] at hw
      cases hs : d.shape <;> simp only [hs, Option.toList, List.not_mem_nil] at hw
      case array items min max =>
        exact ⟨items, h.describes.part (by rw [hs]; exact List.mem_cons_self),
          List.mem_singleton.mp hw⟩
    · rw [h.get? _ (by decide), member?_additionalProperties] at hw
      cases hs : d.shape <;> simp only [hs, Option.toList, List.not_mem_nil] at hw
      case languageMap => exact ⟨_, describes_of_leaf rfl, List.mem_singleton.mp hw⟩
  obtain ⟨d', hd', rfl⟩ := hpart
  exact ⟨d', states_document hd'⟩

/-- The document of the schema of a model states its root. -/
theorem states_toJson {schema : JsonSchema} (h : ofModel p m = .ok schema) :
    States m schema.toJson schema.root := by
  obtain ⟨hroot, hdefs⟩ := describes_ofModel h
  have get? : ∀ name, "$schema" ≠ name → "$id" ≠ name → "title" ≠ name → "description" ≠ name →
      schema.toJson.get? name = (Json.member? name schema.root.shape.members).or
        (Json.member? name (defsMember schema.defs)) := by
    intro name hs hi ht hd
    rw [toJson, Json.get?, Json.member?_append, Json.member?_append, Json.member?_append,
      Json.member?_textMember_of_ne hs, Json.member?_textMember_of_ne hi, member?_members ht hd]
    rfl
  refine ⟨hroot, fun name hname => ?_, fun w hw => ?_⟩
  · have hdefs : Json.member? name (defsMember schema.defs) = none := by
      unfold defsMember
      split
      · rfl
      · rw [Json.member?, if_neg, Json.member?]
        rintro rfl
        simp [keywords] at hname
    rw [get?, hdefs, Option.or_none] <;> rintro rfl <;> simp [keywords] at hname
  · rw [get? _ (by decide) (by decide) (by decide) (by decide), member?_defs, Option.none_or,
      defsMember] at hw
    split at hw
    · simp [Json.member?, memberValues] at hw
    · rw [Json.member?, if_pos rfl, propertyMembers_eq_map] at hw
      simp only [memberValues, List.map_map] at hw
      obtain ⟨⟨name, d⟩, hd, rfl⟩ := List.mem_map.mp hw
      exact ⟨d, hdefs name d (SortedMap.mem_toList_iff.mp hd), rfl⟩

/-- All schemas in the document of a model state definitions of objects of classes. -/
theorem exists_states_of_subschema {v w : Json} (h : Subschema v w) :
    ∀ {d}, States m v d → ∃ d', States m w d' := by
  induction h with
  | refl v => exact fun hd => ⟨_, hd⟩
  | part hpart _ ih =>
    intro d hd
    obtain ⟨d', hd'⟩ := hd.part hpart
    exact ih hd'

end JsonSchema

end DataSpec
