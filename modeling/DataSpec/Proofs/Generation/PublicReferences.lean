import DataSpec.Proofs.Generation.References
import DataSpec.Proofs.Text.PublicUrl
import DataSpec.Proofs.XmlSchema.Imports

/-!
# References between published documents

A JSON schema refers to the document of a class of another schema, and an XML schema says where
the schemas are that it imports. Both do so by the relative path from one public URL to the other.
Read as a reference, it leads to the other document if and only if both are published on one host
and their paths part at names (`meaning_references_iff`), so never to another host
(`not_meaning_reference`).
-/

set_option autoImplicit false

namespace DataSpec

open UriReference

/-- The references of JSON schemas and the places of imports of XML schemas lead from a published
document to the other document if and only if this is on the same host and the paths of both part
at names. -/
theorem meaning_references_iff {p : Publication} {own : PublicUrl}
    (hown : p.artefact.publicUrl = own.text) :
    (∀ m key c way, m.class? key = some c → c.isCodelist = false →
      JsonSchema.elsewhere? p m c = some way →
      (∀ stack s, JsonSchema.defineClass p m stack s key =
        .ok (JsonSchema.ofClass p c (.ref (.document way)), s)) ∧
      ∃ b, p.specifications.published? .jsonSchema c = some b ∧
        ∀ foreign : PublicUrl, b.publicUrl = foreign.text →
          (meaning own.text way = b.publicUrl ↔ own.Reaches foreign)) ∧
    ∀ (x : XmlSchema.Source) schema i, x.publication = p → XmlSchema.ofModel x = .ok schema →
      i ∈ schema.imports →
      ∃ c ∈ XmlSchema.met x.model, ∃ b, p.specifications.published? .xmlSchema c.val = some b ∧
        ∀ foreign : PublicUrl, b.publicUrl = foreign.text →
          (meaning own.text i.location = b.publicUrl ↔ own.Reaches foreign) := by
  constructor
  · intro m key c way hc hl he
    obtain ⟨b, hb, -, -, hway⟩ := published?_of_elsewhere he
    refine ⟨fun stack s => JsonSchema.defineClass_of_elsewhere hc hl he, b, hb, ?_⟩
    intro foreign hforeign
    rw [hway, hown, hforeign]
    exact PublicUrl.meaning_relativePath_iff own foreign
  · rintro x schema i rfl hschema hi
    obtain ⟨specification, hfirst⟩ := (XmlSchema.mem_imports_iff hschema).mp hi
    obtain ⟨c, hc, himport⟩ := List.exists_of_findSome?_eq_some hfirst
    obtain ⟨-, location, hlocation, rfl⟩ := XmlSchema.importAs?_eq_some himport
    obtain ⟨b, hb, hway⟩ := Option.map_eq_some_iff.mp hlocation
    refine ⟨c, hc, b, hb, fun foreign hforeign => ?_⟩
    rw [show (x.importOf c.val location).location = location from rfl, ← hway, hown, hforeign]
    exact PublicUrl.meaning_relativePath_iff own foreign

/-! ## Orders and their addresses -/

/-- Where a shop publishes orders. -/
def ordersUrl : PublicUrl :=
  ⟨"https", "e.com", ["shop", "orders.json"], by decide, by decide, by decide, by decide,
    by decide, by decide, by decide⟩

/-- Where a city publishes its directory, on the host of the shop or on another one. -/
def directoryUrl (elsewhere : Bool) : PublicUrl :=
  ⟨"https", if elsewhere then "e.org" else "e.com", ["city", "directory.json"], by decide,
    by decide, by decide, by cases elsewhere <;> decide, by decide,
    by cases elsewhere <;> decide, by cases elsewhere <;> decide⟩

/-- Orders of the shop, published among the documents of both. -/
def ordersPublication (elsewhere : Bool) : Publication :=
  ⟨.ofList [publisher "shop" "orders" ordersUrl.text,
    publisher "city" "directory" (directoryUrl elsewhere).text],
    schemaArtefact "orders" ordersUrl.text, .default⟩

theorem elsewhere?_ordersPublication (elsewhere : Bool) :
    ∃ c, shopModel.class? "address" = some c ∧ c.isCodelist = false ∧
      JsonSchema.elsewhere? (ordersPublication elsewhere) shopModel c =
        some (Text.relativePath ordersUrl.text (directoryUrl elsewhere).text) ∧
      (ordersPublication elsewhere).specifications.published? .jsonSchema c =
        some (schemaArtefact "directory" (directoryUrl elsewhere).text) :=
  ⟨{ addressClass "orders" with specification := some "city" }, by decide, by decide,
    by cases elsewhere <;> rfl, by cases elsewhere <;> rfl⟩

/-- On one host, the reference leads to the directory. -/
theorem meaning_references_city :
    (ordersPublication false).artefact.publicUrl = ordersUrl.text ∧
      meaning ordersUrl.text (Text.relativePath ordersUrl.text (directoryUrl false).text) =
        (directoryUrl false).text := by
  have hown : (ordersPublication false).artefact.publicUrl = ordersUrl.text := rfl
  obtain ⟨c, hc, hl, he, hb⟩ := elsewhere?_ordersPublication false
  obtain ⟨-, b, hb', hmeans⟩ := (meaning_references_iff hown).1 _ _ c _ hc hl he
  obtain rfl := Option.some.inj (hb.symm.trans hb')
  refine ⟨hown, (hmeans (directoryUrl false) rfl).mpr ⟨rfl, rfl, ?_⟩⟩
  exact ⟨[], ["shop"], ["city", "directory.json"], "orders.json", rfl, rfl, by simp [Text.Apart],
    by decide, by decide, .inl ⟨by decide, by decide⟩, by simp⟩

/-- A reference does not lead to a document that is published on another host. -/
theorem not_meaning_reference :
    ¬ ∀ (p : Publication) (m : StructuralModel) (c : StructuralClass) (b : Artefact) (way : String)
      (own foreign : PublicUrl), p.artefact.publicUrl = own.text → b.publicUrl = foreign.text →
      p.specifications.published? .jsonSchema c = some b →
      JsonSchema.elsewhere? p m c = some way → meaning own.text way = b.publicUrl := by
  intro h
  obtain ⟨c, -, -, he, hb⟩ := elsewhere?_ordersPublication true
  have hmeans : meaning ordersUrl.text
      (Text.relativePath ordersUrl.text (directoryUrl true).text) = (directoryUrl true).text :=
    h (ordersPublication true) shopModel c _ _ ordersUrl (directoryUrl true) rfl rfl hb he
  have hreaches := (PublicUrl.meaning_relativePath_iff ordersUrl (directoryUrl true)).mp hmeans
  exact absurd hreaches.2.1 (by decide)

end DataSpec
