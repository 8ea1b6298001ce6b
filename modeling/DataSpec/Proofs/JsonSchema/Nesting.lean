import DataSpec.Proofs.JsonSchema.Opening
import DataSpec.Proofs.Structural.Openings

/-!
# How deep classes are nested in JSON schemas

`objectsWithin` opens a class only if the stack has room for it below a limit and does not hold
it yet; where that is not so, it does whatever it is told to do. With room for all classes of
the model it is the same as `defineClass`, whatever it is told (`defineClassWithin_eq`).
-/

set_option autoImplicit false

namespace DataSpec.JsonSchema

variable {p : Publication} {m : StructuralModel} {limit : Nat}

/-- What is done with the objects of a class. -/
abbrev Objects (m : StructuralModel) :=
  Naming → m.Member → Except ModelError (Definition Reference × Naming)

/-- The definition of the objects of a class, if the class is opened only if it fits. -/
def objectsWithin (p : Publication) (beyond : List Iri → Objects m) (limit : Nat)
    (stack : List Iri) : Objects m := fun s c =>
  if c.val.iri ∈ stack then .ok (s.refer c.val)
  else if _h : Fits limit stack c.val.iri then
    openedWith p (classWith p m (objectsWithin p beyond limit (c.val.iri :: stack))) s c.val
  else beyond stack s c
termination_by limit - stack.length
decreasing_by
  have hlt : stack.length < limit := _h.2
  rw [List.length_cons]
  omega

/-- The schema of a model, if a class is opened only if it fits. -/
def ofModelWithin (p : Publication) (m : StructuralModel) (beyond : List Iri → Objects m)
    (limit : Nat) : Except ModelError JsonSchema :=
  ofModelWith p m (classWith p m (objectsWithin p beyond limit []))

/-- With room for all classes, it makes no difference what is done beyond the limit. -/
theorem defineClassWithin_eq {stack : List Iri} (beyond : List Iri → Objects m)
    (hl : m.classKeys.dedup.length ≤ limit) (hs : Stacked m.classKeys stack) :
    classWith p m (objectsWithin p beyond limit stack) = defineClass p m stack := by
  rw [defineClass_eq]
  congr 1
  funext s c
  have hc := StructuralModel.mem_classKeys c
  rw [objectsWithin]
  split
  · rfl
  · rename_i hnot
    have hfits := hs.fits hc hnot hl
    rw [dif_pos hfits, defineClassWithin_eq beyond hl (hs.push hc hnot)]
termination_by limit - stack.length
decreasing_by
  have hlt : stack.length < limit := hfits.2
  rw [List.length_cons]
  omega

theorem ofModelWithin_eq (beyond : List Iri → Objects m)
    (hl : m.classKeys.dedup.length ≤ limit) : ofModelWithin p m beyond limit = ofModel p m := by
  rw [ofModel_eq, ofModelWithin, defineClassWithin_eq beyond hl .nil]

/-- So a limit is enough to see what a schema is like. -/
theorem exists_ofModel {P : JsonSchema → Bool} (beyond : List Iri → Objects m) (limit : Nat)
    (hl : m.classKeys.dedup.length ≤ limit)
    (h : (ofModelWithin p m beyond limit).toOption.any P = true) :
    ∃ schema, ofModel p m = .ok schema ∧ P schema = true := by
  rw [ofModelWithin_eq beyond hl] at h
  cases hschema : ofModel p m with
  | error e => simp [hschema, Except.toOption] at h
  | ok schema => exact ⟨schema, rfl, by simpa [hschema, Except.toOption] using h⟩

end DataSpec.JsonSchema
