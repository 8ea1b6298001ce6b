import DataSpec.Proofs.Except
import DataSpec.XmlSchema.Expansion

/-!
# Between two openings of ranges

The functions that expand a model into an XML schema call each other, but a range is the only
thing that is opened. With what becomes of a range as a parameter (`Opening`), the others are
plain recursions over lists : `contentsWith`, `itemWith`, `extendWith` and `bodyWith`. They
give `contentsOf`, `itemOf`, `extendAll` and `bodyOf` back if ranges are opened as `typeOf`
opens them (`contentsOf_eq` and so on), and `typeOf_eq` is the one recursion that is left. What
holds of a whole expansion is proved for one level of it, and then by the ranges that are not
open yet.
-/

set_option autoImplicit false

namespace DataSpec.XmlSchema

variable {x : Source}

/-- What becomes of a range, given the parts that are there. -/
abbrev Opening (x : Source) := Parts → x.model.Range → Except ModelError (ElementType × Parts)

/-- The type of the values of a property. -/
def featureType (opening : Opening x) (s : Parts) (p : x.model.Feature) :
    Except ModelError (ElementType × Parts) :=
  match p.val.range with
  | .error e => .error e
  | .ok (.datatypes ds) =>
    .ok (x.datatypesType ds,
      { s with usesLangString := s.usesLangString || ds.any Source.isLangString })
  | .ok (.classes _) => do
    let r ← StructuralModel.rangeOf p
    if r.val.all fun c => !c.val.isCodelist then opening s r
    else if r.val.all fun c => c.val.isCodelist then .ok (.named (.xs "anyURI"), s)
    else .error (.mixedRange p.val.iri)

/-- The parts of a type for properties. -/
def contentsWith (opening : Opening x) (s : Parts) :
    List x.model.Feature → Except ModelError (List Content × Parts)
  | [] => .ok ([], s)
  | p :: rest => do
    let (type, s) ← featureType opening s p
    let (contents, s) ← contentsWith opening s rest
    return (contentOf p.val type :: contents, s)

/-- What a class consists of. -/
def itemWith (opening : Opening x) (s : Parts) (role : Role) (c : x.model.Member) :
    Except ModelError (Item × Parts) :=
  if x.model.isForeign c.val then
    let (name, s) := x.nameOf s c.val
    .ok (.group name, s)
  else do
    let (contents, s) ← contentsWith opening s (role.features c)
    return closeClass x s role c.val contents

/-- Add the types of classes that extend another type, `top` if they have no parent. -/
def extendWith (opening : Opening x) (s : Parts) (top : String) :
    List x.model.Member → Except ModelError Parts
  | [] => .ok s
  | c :: rest => do
    let (item, s) ← itemWith opening s .extension c
    let base ← baseName x.model top c.val
    extendWith opening (s.addType c.val.name false (.extension (x.localName base) [.once item]))
      top rest

/-- What several classes consist of, given those of them that have no parent. -/
def hierarchyWith (opening : Opening x) (s : Parts) (cs : List x.model.Member) :
    List x.model.Member → Except ModelError (Body × Parts)
  | [top] => do
    let (item, s) ← itemWith opening s .value top
    let s ← extendWith opening s top.val.name (cs.filter fun c => c.val.iri ≠ top.val.iri)
    return (⟨item, some top.val.name, false⟩, s)
  | roots => do
    let name := joinedName (StructuralModel.classList roots)
    let s ← extendWith opening s name cs
    return (⟨.sequence [iriContent], some name, true⟩, s)

/-- What a range consists of. -/
def bodyWith (opening : Opening x) (s : Parts) :
    List x.model.Member → Except ModelError (Body × Parts)
  | [c] => do
    let (item, s) ← itemWith opening s .value c
    return (⟨item, if x.otherClasses.extractType then some c.val.name else none, false⟩, s)
  | cs => do hierarchyWith opening s cs (← tops (cs.map fun c => c.val.iri) cs)

/-- The element of a root class. -/
def rootElementWith (opening : List String → Opening x) (s : Parts) (c : x.model.Member) :
    Except ModelError (Element × Parts) := do
  let key := rangeKey [c.val]
  let (item, s) ← itemWith (opening [key]) s .root c
  let s := if s.recursive.contains key then s.addType c.val.name false item else s
  let (name, s) := x.nameOf s c.val
  let note := noteOf c.val.cim c.val.label c.val.description
  let (type, s) := extractRoot x s name.name ⟨none, false, note, item⟩
  return (⟨name, some type, none⟩, s)

/-- The elements of root classes. -/
def rootElementsWith (opening : List String → Opening x) (s : Parts) :
    List x.model.Member → Except ModelError (List Element × Parts)
  | [] => .ok ([], s)
  | c :: rest => do
    let (e, s) ← rootElementWith opening s c
    let (es, s) ← rootElementsWith opening s rest
    return (e :: es, s)

/-! ## The ranges of an expansion -/

/-- The contents of a class have ranges that are opened by `typeOf`. -/
theorem contentsOf_eq (stack : List String) (s : Parts) (ps : List x.model.Feature) :
    contentsOf x stack s ps = contentsWith (typeOf x stack) s ps := by
  induction ps generalizing s with
  | nil => rw [contentsOf, contentsWith]
  | cons p rest ih =>
    rw [contentsOf, contentsWith, featureType]
    simp only [ih]
    cases p.val.range with
    | error e => rfl
    | ok r =>
      cases r with
      | datatypes ds =>
        simp only [bind, Except.bind]
        cases contentsWith (typeOf x stack) _ rest <;> rfl
      | classes iris =>
        cases StructuralModel.rangeOf p with
        | error e => rfl
        | ok r =>
          simp only [bind, Except.bind]
          split
          · rename_i h
            rw [h]
          · rename_i h
            rw [h]
            simp only
            cases contentsWith (typeOf x stack) _ rest <;> rfl

/-- A class has ranges that are opened by `typeOf`. -/
theorem itemOf_eq (stack : List String) (s : Parts) (role : Role) (c : x.model.Member) :
    itemOf x stack s role c = itemWith (typeOf x stack) s role c := by
  rw [itemOf, itemWith, contentsOf_eq]
  split
  · rfl
  · cases contentsWith (typeOf x stack) s (role.features c) <;> rfl

/-- The extensions of a type have ranges that are opened by `typeOf`. -/
theorem extendAll_eq (stack : List String) (s : Parts) (top : String)
    (cs : List x.model.Member) :
    extendAll x stack s top cs = extendWith (typeOf x stack) s top cs := by
  induction cs generalizing s with
  | nil => rw [extendAll, extendWith]
  | cons c rest ih =>
    rw [extendAll, extendWith, itemOf_eq]
    cases itemWith (typeOf x stack) s .extension c with
    | error e => rfl
    | ok a =>
      simp only [ih]
      cases baseName x.model top c.val <;> rfl

/-- A range consists of classes whose ranges are opened by `typeOf`. -/
theorem bodyOf_eq (stack : List String) (s : Parts) (cs : List x.model.Member) :
    bodyOf x stack s cs = bodyWith (typeOf x stack) s cs := by
  rcases cs with _ | ⟨c, _ | ⟨c', rest⟩⟩
  case cons.nil =>
    rw [bodyOf, bodyWith, itemOf_eq]
    cases itemWith (typeOf x stack) s .value c <;> rfl
  all_goals
    rw [bodyOf, bodyWith]
    · cases tops _ _ with
      | error e => rfl
      | ok roots =>
        rcases roots with _ | ⟨top, _ | ⟨top', roots⟩⟩
        case cons.nil =>
          simp only [itemOf_eq, extendAll_eq, bind, Except.bind, hierarchyWith]
          cases itemWith (typeOf x stack) s .value top with
          | error e => rfl
          | ok a =>
            simp only
            cases extendWith (typeOf x stack) _ _ _ <;> rfl
        all_goals
          simp only [extendAll_eq, bind, Except.bind, hierarchyWith]
          cases extendWith (typeOf x stack) _ _ _ <;> rfl
    all_goals simp

/-- A range that is open has a name, any other is opened. -/
theorem typeOf_eq (stack : List String) (s : Parts) (r : x.model.Range) :
    typeOf x stack s r =
      if rangeKey (StructuralModel.classList r.val) ∈ stack then
        .ok (.named (x.localName (rangeName (StructuralModel.classList r.val))),
          { s with recursive := s.recursive.add (rangeKey (StructuralModel.classList r.val)) })
      else (bodyWith (typeOf x (rangeKey (StructuralModel.classList r.val) :: stack)) s r.val).map
        fun (b, s) => closeRange x s (StructuralModel.classList r.val) b := by
  rw [typeOf]
  split
  · rfl
  · rw [bodyOf_eq]
    cases bodyWith _ s r.val <;> rfl

/-- The elements of roots have ranges that are opened by `typeOf`. -/
theorem rootElements_eq (s : Parts) (cs : List x.model.Member) :
    rootElements x s cs = rootElementsWith (typeOf x) s cs := by
  induction cs generalizing s with
  | nil => rfl
  | cons c rest ih =>
    have hroot : rootElement x s c = rootElementWith (typeOf x) s c := by
      rw [rootElement, rootElementWith, itemOf_eq]
      cases itemWith (typeOf x [rangeKey [c.val]]) s .root c <;> rfl
    rw [rootElements, rootElementsWith, hroot]
    cases rootElementWith (typeOf x) s c with
    | error e => rfl
    | ok a =>
      simp only [ih, bind, Except.bind]
      cases rootElementsWith (typeOf x) _ rest <;> rfl

/-- The schema that comes of elements and of the parts that are collected with them. -/
def assemble (x : Source) (elements : List Element) (s : Parts) : XmlSchema where
  uri := x.model.xmlNamespace
  qualifier := x.model.xmlPrefix
  imports := s.imports.values
  definesLangString := s.usesLangString
  groups := s.groups.toList.map fun e => ⟨e.1, e.2⟩
  types := s.types.values
  elements

/-- The schema of a model. -/
def ofModelWith (x : Source) (opening : List String → Opening x) : Except ModelError XmlSchema := do
  let roots ← x.model.members x.model.roots
  let (elements, s) ← rootElementsWith opening .empty roots
  return assemble x elements s

/-- A schema is assembled from the elements of its roots. -/
theorem ofModel_eq (x : Source) : ofModel x = ofModelWith x (typeOf x) := by
  unfold ofModel ofModelWith
  simp only [rootElements_eq]
  rfl

/-- A schema is assembled from the elements of the roots and the parts they have left. -/
theorem exists_assemble_of_ofModel {schema : XmlSchema} (h : ofModel x = .ok schema) :
    ∃ roots elements s, x.model.members x.model.roots = .ok roots ∧
      rootElementsWith (typeOf x) .empty roots = .ok (elements, s) ∧
      schema = assemble x elements s := by
  rw [ofModel_eq] at h
  obtain ⟨roots, hroots, h⟩ := Except.bind_eq_ok.mp h
  obtain ⟨⟨elements, s⟩, helements, h⟩ := Except.bind_eq_ok.mp h
  exact ⟨roots, elements, s, hroots, helements, (Except.ok.inj h).symm⟩

end DataSpec.XmlSchema
