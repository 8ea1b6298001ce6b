import DataSpec.Proofs.XmlSchema.Groups

/-!
# Which schemas are imported

A schema has one import for each specification, that of the class of it which is met first.
Which classes of other schemas are met, and in which order, does not depend on what has been
written : `met` lists them as a walk over the model finds them. Each function of the expansion
`Meets` what the functions that it calls meet, and opening a range meets what is met inside it
(`meets_typeOf`). So the imports of a schema are those of the classes in this list
(`mem_imports_iff`), and the name of each class is in the namespace of the import of its
specification (`itemOf_of_met`).
-/

set_option autoImplicit false

namespace DataSpec.XmlSchema

open StructuralModel (classList rangeOf)

/-! ## Classes of other schemas -/

section Met

variable {m : StructuralModel}

/-- The classes of other schemas that are met in the type of a property, if `inRange` gives those
that are met in a range. -/
def metInFeature (inRange : m.Range → List m.Member) (p : m.Feature) : List m.Member :=
  match p.val.range, rangeOf p with
  | .ok (.classes _), .ok r => if r.val.all fun c => !c.val.isCodelist then inRange r else []
  | _, _ => []

/-- The classes of other schemas that are met where a class is written out. -/
def metInClass (inRange : m.Range → List m.Member) (role : Role) (c : m.Member) :
    List m.Member :=
  if m.isForeign c.val then [c] else (role.features c).flatMap (metInFeature inRange)

/-- The classes of other schemas that are met in a range, `stack` being the keys of the ranges
that are open. -/
def metInRange (m : StructuralModel) (stack : List String) (r : m.Range) : List m.Member :=
  if _h : rangeKey (classList r.val) ∈ stack then []
  else (rolesOf r.val).flatMap fun e =>
    metInClass (metInRange m (rangeKey (classList r.val) :: stack)) e.1 e.2
termination_by m.closedRanges stack
decreasing_by exact StructuralModel.closedRanges_cons_lt _ (by assumption)

/-- The classes of other schemas that are met in the element of a root class, where the class is
named in the end. -/
def metInRoot (m : StructuralModel) (c : m.Member) : List m.Member :=
  metInClass (metInRange m [rangeKey [c.val]]) .root c ++ if m.isForeign c.val then [c] else []

/-- The classes of other schemas that are met in a schema. -/
def met (m : StructuralModel) : List m.Member :=
  ((m.members m.roots).toOption.getD []).flatMap (metInRoot m)

/-- Whether all of several classes belong to other schemas. -/
def Foreign (m : StructuralModel) (cs : List m.Member) : Prop :=
  ∀ c ∈ cs, m.isForeign c.val = true

/-- What is met in a property belongs to other schemas, if what is met in ranges does. -/
theorem foreign_metInFeature {inRange : m.Range → List m.Member}
    (h : ∀ r, Foreign m (inRange r)) (p : m.Feature) : Foreign m (metInFeature inRange p) := by
  unfold metInFeature
  split
  · split
    · exact h _
    · exact List.forall_mem_nil _
  · exact List.forall_mem_nil _

/-- What is met in a class belongs to other schemas, if what is met in ranges does. -/
theorem foreign_metInClass {inRange : m.Range → List m.Member}
    (h : ∀ r, Foreign m (inRange r)) (role : Role) (c : m.Member) :
    Foreign m (metInClass inRange role c) := by
  unfold metInClass
  split
  · exact List.forall_mem_singleton.mpr ‹_›
  · exact List.forall_mem_flatMap.mpr fun p _ => foreign_metInFeature h p

/-- What is met in a range belongs to other schemas. -/
theorem foreign_metInRange (stack : List String) (r : m.Range) :
    Foreign m (metInRange m stack r) := by
  rw [metInRange]
  split
  · exact List.forall_mem_nil _
  · exact List.forall_mem_flatMap.mpr fun e _ =>
      foreign_metInClass (fun r => foreign_metInRange _ r) e.1 e.2
termination_by m.closedRanges stack
decreasing_by exact StructuralModel.closedRanges_cons_lt _ (by assumption)

/-- Only classes of other schemas are met. -/
theorem foreign_met (m : StructuralModel) : Foreign m (met m) := by
  refine List.forall_mem_flatMap.mpr fun c _ => List.forall_mem_append.mpr ⟨?_, ?_⟩
  · exact foreign_metInClass (foreign_metInRange _) .root c
  · split
    · exact List.forall_mem_singleton.mpr ‹_›
    · exact List.forall_mem_nil _

end Met

variable {x : Source} {s s' s'' : Parts} {stack : List String} {specification : Iri}

/-! ## Imports -/

/-- The import that a class asks for on behalf of a specification. -/
def Source.importAs? (x : Source) (specification : Iri) (c : StructuralClass) : Option Import :=
  if c.specification = some specification then
    (x.publication.reference? .xmlSchema c).map (x.importOf c)
  else none

/-- The import that the first of several classes asks for on behalf of a specification. -/
def Source.firstImport? (x : Source) (cs : List x.model.Member) (specification : Iri) :
    Option Import :=
  cs.findSome? fun c => x.importAs? specification c.val

/-- Parts with the imports of others, and those that some classes ask for. -/
def Meets (s s' : Parts) (cs : List x.model.Member) : Prop :=
  ∀ specification, s'.imports.get? specification =
    (s.imports.get? specification).or (x.firstImport? cs specification)

/-- Where imports stay the same nothing was met. -/
theorem Meets.nothing (h : s'.imports = s.imports) : Meets (x := x) s s' [] := by
  intro specification
  rw [h, Source.firstImport?, List.findSome?_nil, Option.or_none]

/-- What is met first comes first. -/
theorem Meets.trans {cs cs' : List x.model.Member} (h : Meets s s' cs) (h' : Meets s' s'' cs') :
    Meets s s'' (cs ++ cs') := fun specification => by
  rw [h', h, Source.firstImport?, Source.firstImport?, Source.firstImport?,
    List.findSome?_append, Option.or_assoc]

theorem Meets.of_imports_eq {cs : List x.model.Member} (h : Meets s s' cs)
    (heq : s''.imports = s'.imports) : Meets s s'' cs := fun specification => by
  rw [heq, h]

/-- A class of another schema is named after the import of its specification, which may be
new. -/
theorem importFor?_eq (s : Parts) (c : StructuralClass) : x.importFor? s c =
    c.specification.bind fun specification =>
      ((s.imports.get? specification).or (x.importAs? specification c)).map fun i =>
        (i, { s with imports := if s.imports.contains specification then s.imports
          else s.imports.insert specification i }) := by
  unfold Source.importFor?
  cases hspecification : c.specification with
  | none => rfl
  | some specification =>
    simp only [Option.bind_some]
    cases hi : s.imports.get? specification with
    | some i => simp [SortedMap.contains, hi]
    | none =>
      have hnone : s.imports.contains specification = false := by simp [SortedMap.contains, hi]
      simp [Source.importAs?, hspecification, hnone, Function.comp_def]

/-- A class is not imported for another specification than its own. -/
theorem importAs?_of_ne {c : StructuralClass} (h : c.specification ≠ some specification) :
    x.importAs? specification c = none := if_neg h

/-- An import is made from the class, and from the document that publishes it. -/
theorem importAs?_eq_some {c : StructuralClass} {i : Import}
    (h : x.importAs? specification c = some i) : c.specification = some specification ∧
      ∃ location, x.publication.reference? .xmlSchema c = some location ∧
        x.importOf c location = i := by
  unfold Source.importAs? at h
  split at h
  · exact ⟨‹_›, Option.map_eq_some_iff.mp h⟩
  · simp at h

/-- Naming a class of another schema is meeting it. -/
theorem meets_nameOf (s : Parts) {c : x.model.Member} (hf : x.model.isForeign c.val = true) :
    Meets s (x.nameOf s c.val).2 [c] := by
  intro specification
  have hfirst : x.firstImport? [c] specification = x.importAs? specification c.val := by
    cases h : x.importAs? specification c.val <;> simp [Source.firstImport?, h]
  rw [hfirst, Source.nameOf, if_pos hf, importFor?_eq]
  cases hspecification : c.val.specification with
  | none =>
    have hnone : x.importAs? specification c.val = none :=
      importAs?_of_ne (by simp [hspecification])
    simp [hnone]
  | some specification' =>
    rw [Option.bind_some]
    by_cases hsame : specification' = specification
    · subst hsame
      cases hi : s.imports.get? specification' with
      | some i => simp [SortedMap.contains, hi]
      | none =>
        cases himport : x.importAs? specification' c.val <;>
          simp [SortedMap.contains, SortedMap.get?_insert, hi]
    · have hother : x.importAs? specification c.val = none :=
        importAs?_of_ne fun h => hsame (Option.some.inj (hspecification.symm.trans h))
      cases hi : (s.imports.get? specification').or (x.importAs? specification' c.val) with
      | none => simp [hother]
      | some i =>
        rw [hother, Option.or_none, Option.map_some]
        simp only
        split
        · rfl
        · rw [SortedMap.get?_insert, if_neg fun h => hsame h.symm]

/-- A class of another schema is named with the prefix of what is imported for its specification,
whether by it or before. -/
theorem name_nameOf {c : StructuralClass} {i : Import} (hf : x.model.isForeign c = true)
    (hspecification : c.specification = some specification)
    (hi : (s.imports.get? specification).or (x.importAs? specification c) = some i) :
    (x.nameOf s c).1 = ⟨i.qualifier, c.name⟩ := by
  rw [Source.nameOf, if_pos hf, importFor?_eq, hspecification, Option.bind_some, hi]
  rfl

/-! ## What is met -/

section Steps

/-- An opening of ranges that meets what `inRange` gives. -/
def OpeningMeets (opening : Opening x) (inRange : x.model.Range → List x.model.Member) : Prop :=
  ∀ s r t s', opening s r = .ok (t, s') → Meets s s' (inRange r)

variable {opening : Opening x} {inRange : x.model.Range → List x.model.Member}
  (ho : OpeningMeets opening inRange)
include ho

/-- A property meets what its range does. -/
theorem meets_featureType {p : x.model.Feature} {t : ElementType}
    (h : featureType opening s p = .ok (t, s')) : Meets s s' (metInFeature inRange p) := by
  unfold featureType at h
  unfold metInFeature
  split at h
  · simp at h
  · rename_i ds hp
    obtain ⟨rfl, rfl⟩ := Prod.mk.inj (Except.ok.inj h)
    simp only [hp]
    exact Meets.nothing rfl
  · rename_i iris hp
    obtain ⟨r, hr, h⟩ := Except.bind_eq_ok.mp h
    simp only [hp, hr]
    split at h
    · rename_i hall
      rw [if_pos hall]
      exact ho _ _ _ _ h
    · rename_i hall
      rw [if_neg hall]
      split at h
      · obtain ⟨rfl, rfl⟩ := Prod.mk.inj (Except.ok.inj h)
        exact Meets.nothing rfl
      · simp at h

/-- Properties meet in turn what each of them does. -/
theorem meets_contentsWith :
    ∀ {ps : List x.model.Feature} {s s' cs}, contentsWith opening s ps = .ok (cs, s') →
      Meets s s' (ps.flatMap (metInFeature inRange))
  | [], s, s', cs, h => by
    obtain ⟨rfl, rfl⟩ := Prod.mk.inj (Except.ok.inj h)
    exact Meets.nothing rfl
  | p :: rest, s, s', cs, h => by
    obtain ⟨⟨t, s₁⟩, ht, h⟩ := Except.bind_eq_ok.mp h
    obtain ⟨⟨cs', s₂⟩, hrest, h⟩ := Except.bind_eq_ok.mp h
    obtain ⟨rfl, rfl⟩ := Prod.mk.inj (Except.ok.inj h)
    exact (meets_featureType ho ht).trans (meets_contentsWith hrest)

/-- A class meets itself if it is of another schema, and else what its properties do. -/
theorem meets_itemWith {role : Role} {c : x.model.Member} {item : Item}
    (h : itemWith opening s role c = .ok (item, s')) :
    Meets s s' (metInClass inRange role c) := by
  unfold itemWith at h
  unfold metInClass
  split at h
  · rename_i hforeign
    rw [if_pos hforeign]
    obtain ⟨rfl, rfl⟩ := Prod.mk.inj (Except.ok.inj h)
    exact meets_nameOf s hforeign
  · rename_i hown
    rw [if_neg hown]
    obtain ⟨⟨cs, s₁⟩, hcs, h⟩ := Except.bind_eq_ok.mp h
    have himports : s'.imports = s₁.imports := by
      have h := Except.ok.inj h
      unfold closeClass at h
      split at h <;> obtain ⟨rfl, rfl⟩ := Prod.mk.inj h <;> rfl
    exact (meets_contentsWith ho hcs).of_imports_eq himports

/-- Extensions of a type meet what their classes do. -/
theorem meets_extendWith {top : String} :
    ∀ {cs : List x.model.Member} {s s' : Parts}, extendWith opening s top cs = .ok s' →
      Meets s s' (cs.flatMap (metInClass inRange .extension))
  | [], s, s', h => by
    obtain rfl := Except.ok.inj h
    exact Meets.nothing rfl
  | c :: rest, s, s', h => by
    obtain ⟨⟨item, s₁⟩, hitem, h⟩ := Except.bind_eq_ok.mp h
    obtain ⟨base, -, h⟩ := Except.bind_eq_ok.mp h
    have hrest := meets_extendWith h
    exact Meets.trans ((meets_itemWith ho hitem).of_imports_eq rfl) hrest

/-- Several classes meet what they do in their roles. -/
theorem meets_bodyWith {cs : List x.model.Member} {b : Body}
    (h : bodyWith opening s cs = .ok (b, s')) :
    Meets s s' ((rolesOf cs).flatMap fun e => metInClass inRange e.1 e.2) := by
  rcases bodyWith_cases h with ⟨c, item, rfl, hitem, -⟩ |
    ⟨-, -, ⟨top, item, s₁, rest, hroles, hitem, hextend, -⟩ | ⟨hroles, hextend, -⟩⟩
  · simpa [rolesOf] using meets_itemWith ho hitem
  · rw [hroles]
    simpa [List.flatMap_map] using (meets_itemWith ho hitem).trans (meets_extendWith ho hextend)
  · rw [hroles]
    simpa [List.flatMap_map] using meets_extendWith ho hextend

end Steps

/-- No import is added when a range is closed. -/
theorem imports_closeRange (s : Parts) (cs : List StructuralClass) (b : Body) :
    (closeRange x s cs b).2.imports = s.imports := by
  unfold closeRange
  cases b.name.or (if s.recursive.contains (rangeKey cs) then some (rangeName cs) else none) <;> rfl

/-- Opening a range meets what is met in it. -/
theorem meets_typeOf (stack : List String) :
    OpeningMeets (typeOf x stack) (metInRange x.model stack) := by
  intro s r t s' h
  rw [typeOf_eq] at h
  rw [metInRange]
  split at h
  · rename_i hopen
    obtain ⟨rfl, rfl⟩ := Prod.mk.inj (Except.ok.inj h)
    rw [dif_pos hopen]
    exact Meets.nothing rfl
  · rename_i hclosed
    rw [dif_neg hclosed]
    obtain ⟨⟨b, s₁⟩, hbody, hclose⟩ := Except.map_eq_ok.mp h
    have ho : OpeningMeets (typeOf x (rangeKey (classList r.val) :: stack)) _ := meets_typeOf _
    have himports : s'.imports = s₁.imports := by
      have himports := imports_closeRange (x := x) s₁ (classList r.val) b
      rwa [show closeRange x s₁ (classList r.val) b = (t, s') from hclose] at himports
    exact (meets_bodyWith ho hbody).of_imports_eq himports
termination_by x.model.closedRanges stack
decreasing_by exact StructuralModel.closedRanges_cons_lt _ (by assumption)

/-! ## Whole schemas -/

/-- No import is added when the type of a root gets a name. -/
theorem imports_extractRoot (s : Parts) (name : String) (t : ComplexType) :
    (extractRoot x s name t).2.imports = s.imports := by
  rw [extractRoot_eq, namedRoot, groupedRoot]
  split <;> split <;> rfl

theorem meets_rootElementWith {c : x.model.Member} {e : Element}
    (h : rootElementWith (typeOf x) s c = .ok (e, s')) : Meets s s' (metInRoot x.model c) := by
  obtain ⟨item, s₁, t, hitem, -, rfl⟩ := rootElementWith_eq_ok h
  have hclass := (meets_itemWith (meets_typeOf _) hitem).of_imports_eq
    (imports_closeRange (x := x) s₁ [c.val] ⟨item, none, false⟩)
  have hname : ∀ s, Meets s (x.nameOf s c.val).2 (if x.model.isForeign c.val then [c] else []) := by
    intro s
    split
    · exact meets_nameOf s ‹_›
    · rw [Source.nameOf, if_neg ‹_›]
      exact Meets.nothing rfl
  exact (hclass.trans (hname _)).of_imports_eq (imports_extractRoot _ _ _)

/-- Roots meet in turn what each of them does. -/
theorem meets_rootElementsWith :
    ∀ {cs : List x.model.Member} {s s' es}, rootElementsWith (typeOf x) s cs = .ok (es, s') →
      Meets s s' (cs.flatMap (metInRoot x.model))
  | [], s, s', es, h => by
    obtain ⟨rfl, rfl⟩ := Prod.mk.inj (Except.ok.inj h)
    exact Meets.nothing rfl
  | c :: rest, s, s', es, h => by
    obtain ⟨⟨e, s₁⟩, he, h⟩ := Except.bind_eq_ok.mp h
    obtain ⟨⟨es', s₂⟩, hes, h⟩ := Except.bind_eq_ok.mp h
    obtain ⟨rfl, rfl⟩ := Prod.mk.inj (Except.ok.inj h)
    exact (meets_rootElementWith he).trans (meets_rootElementsWith hes)

/-- The imports of a schema are those that classes were the first of their specification to ask
for. -/
theorem mem_imports_iff {schema : XmlSchema} (h : ofModel x = .ok schema) {i : Import} :
    i ∈ schema.imports ↔ ∃ specification, x.firstImport? (met x.model) specification = some i := by
  obtain ⟨roots, elements, s, hroots, helements, rfl⟩ := exists_assemble_of_ofModel h
  have hmet : met x.model = roots.flatMap (metInRoot x.model) := by
    rw [met, hroots]
    rfl
  have himports : ∀ specification,
      s.imports.get? specification = x.firstImport? (met x.model) specification := by
    intro specification
    rw [meets_rootElementsWith helements, ← hmet]
    exact Option.none_or
  simp only [← himports]
  exact SortedMap.mem_values_iff

/-- Where a class of another schema is written out, with the imports of the classes before it, it
is a group in the namespace that the schema imports for its specification. -/
theorem itemOf_of_met {pre post : List x.model.Member} {c : x.model.Member}
    (hmet : met x.model = pre ++ c :: post) (hf : x.model.isForeign c.val = true)
    (hspecification : c.val.specification = some specification)
    (hp : (x.publication.reference? .xmlSchema c.val).isSome = true) :
    ∃ i, x.firstImport? (met x.model) specification = some i ∧
      ∀ stack s role,
        (∀ specification, s.imports.get? specification = x.firstImport? pre specification) →
        ∃ s', x.nameOf s c.val = (⟨i.qualifier, c.val.name⟩, s') ∧
          itemOf x stack s role c = .ok (.group ⟨i.qualifier, c.val.name⟩, s') := by
  obtain ⟨location, hlocation⟩ := Option.isSome_iff_exists.mp hp
  have himport : x.importAs? specification c.val = some (x.importOf c.val location) := by
    rw [Source.importAs?, if_pos hspecification, hlocation]
    rfl
  have hfirst : x.firstImport? (met x.model) specification =
      (x.firstImport? pre specification).or (x.importAs? specification c.val) := by
    rw [hmet, Source.firstImport?, List.findSome?_append, List.findSome?_cons, himport]
    rfl
  obtain ⟨i, hi⟩ : ∃ i, x.firstImport? (met x.model) specification = some i := by
    rw [hfirst, himport]
    cases x.firstImport? pre specification <;> exact ⟨_, rfl⟩
  refine ⟨i, hi, fun stack s role hs => ⟨(x.nameOf s c.val).2, ?_⟩⟩
  have hname := name_nameOf hf hspecification (by rw [hs, ← hfirst, hi])
  rw [itemOf, if_pos hf, ← hname]
  exact ⟨rfl, rfl⟩

end DataSpec.XmlSchema
