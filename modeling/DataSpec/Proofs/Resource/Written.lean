import DataSpec.Proofs.Json.Decode
import DataSpec.Resource.Basic

/-!
# Written resources

The written form of a resource says all about it (`Resource.ofJson?_toJson`), and so do those of
its attributes and of every shape of value (`AttributeValue.ofJson?_toJson`), whether they are read
from where they stand or out of a buffer. None of them has more than a few levels, so each can be
read back from its text, too (`plain_toJson`).
-/

set_option autoImplicit false

namespace DataSpec

/-! ## Values -/

namespace LanguageText

/-- Texts in languages are read back. -/
theorem ofJson?_toJson (t : LanguageText) : ofJson? t.toJson = some t :=
  Json.map?_obj (q := id) (fun _ => rfl) fun _ => rfl

theorem plain_toJson (t : LanguageText) (room : Nat) : Json.Plain (room + 1) t.toJson :=
  Json.plain_map (q := id) .str

end LanguageText

namespace Cardinality

/-- A bound is a number of 32 bits. -/
theorem bound?_nat (n : UInt32) : bound? (.nat n.toNat) = some n := by
  rw [bound?, Json.natBelow?_nat n.toNat_lt, Option.map_some, UInt32.ofNat_toNat]

/-- A cardinality is read from its two members. -/
theorem ofJson?_of_record {v a b : Json} {c : Cardinality}
    (hrecord : v.record ["min", "max"] = some [.given a, .given b]) (hmin : bound? a = some c.min)
    (hmax : Json.option? bound? b = some c.max) : ofJson? v = some c := by
  simp only [ofJson?, hrecord, Json.Member.required_given, Json.Member.optional_given, hmin, hmax]

/-- Bounds are read back, with no upper bound written as `null`. -/
theorem ofJson?_toJson (c : Cardinality) : ofJson? c.toJson = some c := by
  have hmax : Json.option? bound? (Json.orNull (c.max.map fun max => .nat max.toNat)) =
      some c.max :=
    Json.option?_orNull (fun _ => nofun) bound?_nat
  refine ofJson?_of_record ?_ (bound?_nat c.min) hmax
  rw [toJson, Json.record_obj (by simp [Json.memberNames])]
  simp [Json.member?]

theorem plain_toJson (c : Cardinality) (room : Nat) : Json.Plain (room + 1) c.toJson := by
  have hmin : c.min.toNat < UInt64.size := Nat.lt_trans c.min.toNat_lt (by decide)
  have hmax : Json.Plain room (Json.orNull (c.max.map fun max => .nat max.toNat)) :=
    Json.plain_orNull fun max => Json.plain_nat (Nat.lt_trans max.toNat_lt (by decide))
  exact .obj (by simp [Json.plain_nat hmin, hmax])

end Cardinality

namespace AttributeValue

/-- The content of a value is read by its shape. -/
theorem ofContent?_content (v : AttributeValue) : ofContent? v.shape v.content = some v := by
  cases v with
  | text s => rfl
  | languageText t => rw [shape, content, ofContent?, LanguageText.ofJson?_toJson, Option.map_some]
  | iri i => rfl
  | iriList is => rw [shape, content, ofContent?, Json.list?_strings, Option.map_some]
  | integer n =>
    have hint : Json.int64? (.int n.toInt) = some n.toInt := by
      rw [Json.int64?, Json.int?, Option.filter_some_pos]
      simp only [Bool.and_eq_true, decide_eq_true_eq]
      exact ⟨n.minValue_le_toInt, n.toInt_le⟩
    rw [shape, content, ofContent?, hint, Option.map_some, Int64.ofInt_toInt]
  | flag b => rfl
  | cardinality c => rw [shape, content, ofContent?, Cardinality.ofJson?_toJson, Option.map_some]

/-- A value is written with the name of its shape, and with its content. -/
theorem record_toJson (v : AttributeValue) : v.toJson.record ["type", "value"] =
    some [.given (.str v.shape.name), .given v.content] := by
  rw [toJson, Json.record_obj (by simp [Json.memberNames])]
  simp [Json.member?]

/-- A value is read back, out of a buffer or not, because its shape stands first. -/
theorem ofJson?_toJson (origin : Json.Origin) (v : AttributeValue) :
    ofJson? origin v.toJson = some v := by
  have hleads : v.toJson.leads "value" "type" = false := by simp [toJson, Json.leads]
  have hshape : shapeOf? origin v.toJson (.str v.shape.name) = some v.shape := Shape.ofName?_name _
  rw [ofJson?, record_toJson]
  simp [hshape, hleads, ofContent?_content]

/-- No value is written as `null`, so `null` is free to stand for none. -/
theorem toJson_ne_null (v : AttributeValue) : v.toJson ≠ .null := nofun

theorem plain_content (v : AttributeValue) (room : Nat) : Json.Plain (room + 1) v.content := by
  cases v with
  | text s => exact .str s
  | languageText t => exact t.plain_toJson room
  | iri i => exact .str i
  | iriList is => exact Json.plain_strings is
  | integer n => exact .int n.minValue_le_toInt (Int.lt_trans n.toInt_lt (by decide))
  | flag b => exact .bool b
  | cardinality c => exact c.plain_toJson room

theorem plain_toJson (v : AttributeValue) (room : Nat) : Json.Plain (room + 2) v.toJson :=
  .obj (by simp [Json.Plain.str, v.plain_content room])

end AttributeValue

/-! ## Resources -/

namespace Attributes

/-- Attributes are read back from the names of their keys. -/
theorem ofJson?_toJson (origin : Json.Origin) (as : Attributes) :
    ofJson? origin as.toJson = some as :=
  Json.map?_obj AttributeKey.ofName?_name (AttributeValue.ofJson?_toJson origin)

theorem plain_toJson (as : Attributes) (room : Nat) : Json.Plain (room + 3) as.toJson :=
  Json.plain_map fun v => v.plain_toJson room

end Attributes

namespace Resource

/-- A resource has three members. -/
theorem record_toJson (r : Resource) : r.toJson.record ["iri", "types", "attributes"] =
    some [.given (.str r.iri), .given (.arr (r.kinds.map fun k => .str k.name)),
      .given r.attributes.toJson] := by
  rw [toJson, Json.record_obj (by simp [Json.memberNames])]
  simp [Json.member?]

/-- Resources are read back. -/
theorem ofJson?_toJson (r : Resource) : ofJson? r.toJson = some r := by
  have hkinds : Json.list? (Json.named? .direct Kind.ofName?)
      (.arr (r.kinds.map fun k => .str k.name)) = some r.kinds :=
    Json.list?_map fun k _ => Kind.ofName?_name k
  rw [ofJson?, record_toJson]
  simp [hkinds, Attributes.ofJson?_toJson]

/-- A resource is written with four levels at most. -/
theorem plain_toJson (r : Resource) (room : Nat) : Json.Plain (room + 4) r.toJson := by
  have hkinds : Json.Plain (room + 3) (.arr (r.kinds.map fun k => .str k.name)) :=
    Json.plain_list fun k => .str k.name
  exact .obj (by simp [Json.Plain.str, hkinds, Attributes.plain_toJson r.attributes room])

end Resource

namespace ResourceMap

/-- Maps of resources are read back. -/
theorem ofJson?_toJson (m : ResourceMap) : ofJson? m.toJson = some m :=
  Json.map?_obj (q := id) (fun _ => rfl) Resource.ofJson?_toJson

theorem plain_toJson (m : ResourceMap) (room : Nat) : Json.Plain (room + 5) m.toJson :=
  Json.plain_map (q := id) fun r => r.plain_toJson room

end ResourceMap

end DataSpec
