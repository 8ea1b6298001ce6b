import DataSpec.Structural.Nesting

/-!
# Ranges of classes

An association leads to the classes of its range. `StructuralModel.rangeOf` looks them
up; a range is known by its key, which lists the identifiers of its classes. As for
classes in `DataSpec.Structural.Nesting`, no range is opened twice, and the number of
those that are not open (`closedRanges`) gets smaller with every level
(`closedRanges_cons_lt`).
-/

set_option autoImplicit false

namespace DataSpec

/-- What identifies a list of classes as a range. -/
def rangeKey (cs : List StructuralClass) : String := Text.join " " (cs.map StructuralClass.iri)

namespace StructuralModel

/-- The properties of all classes. -/
def properties (m : StructuralModel) : List StructuralProperty :=
  m.classes.values.flatMap StructuralClass.properties

/-- A property of a class of a model. -/
abbrev Feature (m : StructuralModel) := { p : StructuralProperty // p ∈ m.properties }

variable {m : StructuralModel}

/-- The properties of a class. -/
def Member.features (c : m.Member) : List m.Feature :=
  c.val.properties.attachWith (· ∈ m.properties) fun _ hp =>
    List.mem_flatMap.mpr ⟨c.val, c.property, hp⟩

/-- The properties of a class that it does not inherit. -/
def Member.ownFeatures (c : m.Member) : List m.Feature :=
  (m.ownProperties c.val).attachWith (· ∈ m.properties) fun _ hp =>
    List.mem_flatMap.mpr ⟨c.val, c.property, (List.mem_filter.mp hp).1⟩

/-- The classes with the given identifiers. -/
def members (m : StructuralModel) : List Iri → Except ModelError (List m.Member)
  | [] => .ok []
  | iri :: rest =>
    match m.member iri with
    | .error e => .error e
    | .ok c => (members m rest).map (c :: ·)

/-- The classes without the proof that they are in the model. -/
def classList (cs : List m.Member) : List StructuralClass := cs.map Subtype.val

/-- The key of the range of a property whose classes are all in the model. -/
def rangeKey? (m : StructuralModel) (p : StructuralProperty) : Option String :=
  (m.members p.classes).toOption.map fun cs => rangeKey (classList cs)

/-- The keys of all ranges. -/
def rangeKeys (m : StructuralModel) : List String := m.properties.filterMap m.rangeKey?

/-- The range of a property. -/
abbrev Range (m : StructuralModel) :=
  { cs : List m.Member // rangeKey (classList cs) ∈ m.rangeKeys }

/-- The range of a property of the model. -/
def rangeOf (p : m.Feature) : Except ModelError m.Range :=
  match h : m.members p.val.classes with
  | .error e => .error e
  | .ok cs => .ok ⟨cs, List.mem_filterMap.mpr ⟨p.val, p.property, by
      simp [rangeKey?, h, Except.toOption]⟩⟩

/-- The number of ranges that are not open. -/
def closedRanges (m : StructuralModel) (stack : List String) : Nat :=
  (m.rangeKeys.filter (· ∉ stack)).length

/-- Opening a range leaves fewer that are not open. -/
theorem closedRanges_cons_lt (r : m.Range) {stack : List String}
    (h : rangeKey (classList r.val) ∉ stack) :
    m.closedRanges (rangeKey (classList r.val) :: stack) < m.closedRanges stack :=
  length_filter_not_mem_cons_lt r.property h

end StructuralModel

end DataSpec
