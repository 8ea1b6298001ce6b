import DataSpec.Proofs.Structural.Openings
import DataSpec.Proofs.XmlSchema.Opening

/-!
# How deep ranges are nested

`typeWithin` opens a range only if the stack has room for it below a limit and does not hold
it yet; where that is not so, it does whatever it is told to do. The limit ends its recursion,
so nothing is assumed of the model. With room for all keys of roots and associations it is the
same as `typeOf`, whatever it is told (`typeWithin_eq`) : no range is opened twice, and never
more of them than there are keys.
-/

set_option autoImplicit false

namespace DataSpec

namespace XmlSchema

variable {x : Source} {limit : Nat}

/-! ## Ranges that matter -/

section Congruence

variable {opening opening' : Opening x}

/-- Whether the ranges of associations are opened alike. -/
def Alike (opening opening' : Opening x) : Prop :=
  ∀ s r, StructuralModel.classList r.val ∈ x.model.openings → opening s r = opening' s r

/-- The type of a property depends only on how ranges are opened. -/
theorem featureType_congr (h : Alike opening opening') (s : Parts) (p : x.model.Feature) :
    featureType opening s p = featureType opening' s p := by
  unfold featureType
  split
  · rfl
  · rfl
  · rename_i iris hp
    cases hr : StructuralModel.rangeOf p with
    | error e => rfl
    | ok r =>
      simp only [bind, Except.bind, h s r (StructuralModel.mem_openings_of_rangeOf hp hr)]

/-- The contents of a class depend only on how ranges are opened. -/
theorem contentsWith_congr (h : Alike opening opening') (s : Parts) (ps : List x.model.Feature) :
    contentsWith opening s ps = contentsWith opening' s ps := by
  induction ps generalizing s with
  | nil => rfl
  | cons p rest ih => simp only [contentsWith, featureType_congr h, ih]

/-- What a class consists of depends only on how ranges are opened. -/
theorem itemWith_congr (h : Alike opening opening') (s : Parts) (role : Role)
    (c : x.model.Member) : itemWith opening s role c = itemWith opening' s role c := by
  simp only [itemWith, contentsWith_congr h]

/-- The extensions of a type depend only on how ranges are opened. -/
theorem extendWith_congr (h : Alike opening opening') (s : Parts) (top : String)
    (cs : List x.model.Member) : extendWith opening s top cs = extendWith opening' s top cs := by
  induction cs generalizing s with
  | nil => rfl
  | cons c rest ih => simp only [extendWith, itemWith_congr h, ih]

/-- What a range consists of depends only on how ranges are opened. -/
theorem bodyWith_congr (h : Alike opening opening') (s : Parts) (cs : List x.model.Member) :
    bodyWith opening s cs = bodyWith opening' s cs := by
  simp only [bodyWith, hierarchyWith, itemWith_congr h, extendWith_congr h]

/-- The elements for roots depend only on how ranges are opened when each root is. -/
theorem rootElementsWith_congr {opening opening' : List String → Opening x} {s : Parts} :
    ∀ {cs : List x.model.Member},
      (∀ c ∈ cs, Alike (opening [rangeKey [c.val]]) (opening' [rangeKey [c.val]])) →
        rootElementsWith opening s cs = rootElementsWith opening' s cs
  | [], _ => rfl
  | c :: rest, h => by
    have hrest (s : Parts) := rootElementsWith_congr (s := s) fun c hc =>
      h c (List.mem_cons_of_mem _ hc)
    simp only [rootElementsWith, rootElementWith, itemWith_congr (h c List.mem_cons_self), hrest]

end Congruence

/-! ## A limit -/

/-- The type of a range, in an expansion that opens it only if it fits. -/
def typeWithin (x : Source) (beyond : List String → Opening x) (limit : Nat)
    (stack : List String) : Opening x := fun s r =>
  let cs := StructuralModel.classList r.val
  if rangeKey cs ∈ stack then
    .ok (.named (x.localName (rangeName cs)),
      { s with recursive := s.recursive.add (rangeKey cs) })
  else if _h : Fits limit stack (rangeKey cs) then
    (bodyWith (typeWithin x beyond limit (rangeKey cs :: stack)) s r.val).map
      fun (b, s) => closeRange x s cs b
  else beyond stack s r
termination_by limit - stack.length
decreasing_by
  have hlt : stack.length < limit := _h.2
  rw [List.length_cons]
  omega

/-- The schema of a model, in an expansion that opens a root class or a range only if it
fits. -/
def ofModelWithin (x : Source) (beyond : List String → Opening x) (limit : Nat) :
    Except ModelError XmlSchema :=
  ofModelWith x fun stack =>
    match stack with
    | [key] => if Fits limit [] key then typeWithin x beyond limit [key] else beyond []
    | stack => typeWithin x beyond limit stack

/-- With room for all keys, it makes no difference what is done beyond the limit. -/
theorem typeWithin_eq {stack : List String} (beyond : List String → Opening x)
    (hl : x.model.openKeys.dedup.length ≤ limit) (hs : Stacked x.model.openKeys stack) :
    Alike (typeWithin x beyond limit stack) (typeOf x stack) := by
  intro s r hr
  have hk : rangeKey (StructuralModel.classList r.val) ∈ x.model.openKeys :=
    List.mem_map_of_mem hr
  rw [typeWithin, typeOf_eq]
  split
  · rfl
  · rename_i hnot
    have hfits := hs.fits hk hnot hl
    rw [dif_pos hfits, bodyWith_congr (typeWithin_eq beyond hl (hs.push hk hnot))]
termination_by limit - stack.length
decreasing_by
  have hlt : stack.length < limit := hfits.2
  rw [List.length_cons]
  omega

/-- A schema is the same with a limit as large as the number of ranges. -/
theorem ofModelWithin_eq (beyond : List String → Opening x)
    (hl : x.model.openKeys.dedup.length ≤ limit) : ofModelWithin x beyond limit = ofModel x := by
  rw [ofModel_eq, ofModelWithin, ofModelWith, ofModelWith]
  cases hroots : x.model.members x.model.roots with
  | error e => rfl
  | ok cs =>
    have hcongr : ∀ c ∈ cs,
        Alike (if Fits limit [] (rangeKey [c.val]) then typeWithin x beyond limit [rangeKey [c.val]]
          else beyond []) (typeOf x [rangeKey [c.val]]) := by
      intro c hc
      have hk : rangeKey [c.val] ∈ x.model.openKeys :=
        List.mem_map_of_mem (StructuralModel.mem_openings_of_root hroots hc)
      rw [if_pos (Stacked.nil.fits hk List.not_mem_nil hl)]
      exact typeWithin_eq beyond hl (Stacked.nil.push hk List.not_mem_nil)
    simp only [bind, Except.bind]
    rw [rootElementsWith_congr hcongr]

/-- So a limit is enough to see what a schema is like. -/
theorem exists_ofModel {P : XmlSchema → Bool} (beyond : List String → Opening x) (limit : Nat)
    (hl : x.model.openKeys.dedup.length ≤ limit)
    (h : (ofModelWithin x beyond limit).toOption.any P = true) :
    ∃ schema, ofModel x = .ok schema ∧ P schema = true := by
  rw [ofModelWithin_eq beyond hl] at h
  cases hschema : ofModel x with
  | error e => simp [hschema, Except.toOption] at h
  | ok schema => exact ⟨schema, rfl, by simpa [hschema, Except.toOption] using h⟩

end XmlSchema

end DataSpec
