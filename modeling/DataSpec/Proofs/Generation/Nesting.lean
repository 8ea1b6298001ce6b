import DataSpec.Proofs.CsvSchema.Nesting
import DataSpec.Proofs.JsonSchema.Nesting
import DataSpec.Proofs.XmlSchema.Nesting

/-!
# How deep documents are nested

Whatever cycles a model has, the expansions that open a class or a range only on a stack which
does not hold it, and has room for it below a limit, are complete : with the number of classes
as the limit, and for XML the number of different keys of roots and ranges, they never come
to what is done beyond it (`ofModelWithin_eq_ofModel`).
-/

set_option autoImplicit false

namespace DataSpec

open StructuralModel in
/-- No document is nested deeper than its model has classes or, for XML, keys of roots and
ranges, and nothing is opened inside itself. -/
theorem ofModelWithin_eq_ofModel (p : Publication) (m : StructuralModel)
    (x : XmlSchema.Source) :
    (∀ beyond, JsonSchema.ofModelWithin p m beyond m.classes.size = JsonSchema.ofModel p m) ∧
    (∀ beyond, XmlSchema.ofModelWithin x beyond x.model.openKeys.dedup.length =
      XmlSchema.ofModel x) ∧
    ∀ beyondColumns beyondParts,
      CsvSchema.ofModelWithin p m beyondColumns beyondParts m.classes.size =
        CsvSchema.ofModel p m :=
  ⟨fun beyond => JsonSchema.ofModelWithin_eq beyond length_dedup_classKeys_le,
    fun beyond => XmlSchema.ofModelWithin_eq beyond (Nat.le_refl _),
    fun beyondColumns beyondParts =>
      CsvSchema.ofModelWithin_eq beyondColumns beyondParts length_dedup_classKeys_le⟩

end DataSpec
