import DataSpec.JsonSchema.Inlining
import DataSpec.Proofs.Except

/-!
# Between two openings of classes

Of the functions that write the definitions of a model only `defineClass` opens a class. With
what becomes of a class as a parameter (`Opening`), definitions of properties are a plain
recursion (`propertiesWith`), and a class that is neither a codelist nor described elsewhere is
left to another function (`classWith`). `defineClass_eq` is the one recursion that is left.
-/

set_option autoImplicit false

namespace DataSpec.JsonSchema

variable {p : Publication} {m : StructuralModel}

/-- What becomes of a class, given the names that are known. -/
abbrev Opening := Naming → Iri → Except ModelError (Definition Reference × Naming)

/-- The definitions of classes. -/
def classesWith (opening : Opening) (s : Naming) :
    List Iri → Except ModelError (List (Definition Reference) × Naming)
  | [] => .ok ([], s)
  | key :: rest => do
    let (d, s) ← opening s key
    let (ds, s) ← classesWith opening s rest
    return (d :: ds, s)

/-- The definitions of what a property leads to. -/
def valuesWith (opening : Opening) (s : Naming) :
    PropertyRange → Except ModelError (List (Definition Reference) × Naming)
  | .datatypes iris => .ok (iris.map fun iri => .plain (datatypeShape iri), s)
  | .classes iris => classesWith opening s iris

/-- The names and the definitions of properties. -/
def propertiesWith (p : Publication) (opening : Opening) (s : Naming) :
    List StructuralProperty →
      Except ModelError (List (String × Definition Reference) × Naming)
  | [] => .ok ([], s)
  | q :: rest => do
    let r ← q.range
    let (ds, s) ← valuesWith opening s r
    let (qs, s) ← propertiesWith p opening s rest
    return ((q.name, ofProperty p q (.anyOf ds)) :: qs, s)

/-- The definition of a class, `objects` being that of its objects where they are written
out. -/
def classWith (p : Publication) (m : StructuralModel)
    (objects : Naming → m.Member → Except ModelError (Definition Reference × Naming)) :
    Opening := fun s key => do
  let c ← m.member key
  if c.val.isCodelist then return (ofClass p c.val (.text (some "iri")), s)
  else
    match elsewhere? p m c.val with
    | some target => return (ofClass p c.val (.ref (.document target)), s)
    | none => objects s c

/-- The definition of the objects of a class that is opened. -/
def openedWith (p : Publication) (opening : Opening) (s : Naming) (c : StructuralClass) :
    Except ModelError (Definition Reference × Naming) :=
  (propertiesWith p opening s c.properties).map fun (properties, s) =>
    s.close c (ofClass p c (.object properties (requiredNames c.properties)))

/-! ## The classes of a model -/

/-- The classes of a range are described in turn. -/
theorem defineClasses_eq (stack : List Iri) (s : Naming) (keys : List Iri) :
    defineClasses p m stack s keys = classesWith (defineClass p m stack) s keys := by
  induction keys generalizing s with
  | nil => rw [defineClasses, classesWith]
  | cons key rest ih =>
    rw [defineClasses, classesWith]
    simp only [ih]
    cases defineClass p m stack s key with
    | error e => rfl
    | ok a =>
      simp only [bind, Except.bind]
      cases classesWith (defineClass p m stack) _ rest <;> rfl

/-- The properties of a class are described in turn. -/
theorem defineProperties_eq (stack : List Iri) (s : Naming) (qs : List StructuralProperty) :
    defineProperties p m stack s qs = propertiesWith p (defineClass p m stack) s qs := by
  induction qs generalizing s with
  | nil => rw [defineProperties, propertiesWith]
  | cons q rest ih =>
    rw [defineProperties, propertiesWith]
    simp only [ih, defineClasses_eq]
    cases q.range with
    | error e => rfl
    | ok r =>
      have hvalues : (match r with
          | .datatypes iris => .ok (iris.map fun iri => .plain (datatypeShape iri), s)
          | .classes iris => classesWith (defineClass p m stack) s iris) =
            valuesWith (defineClass p m stack) s r := by
        cases r <;> rfl
      simp only [bind, Except.bind, ← hvalues]
      cases r with
      | datatypes iris =>
        simp only
        cases propertiesWith p (defineClass p m stack) _ rest <;> rfl
      | classes iris =>
        simp only
        cases classesWith (defineClass p m stack) s iris with
        | error e => rfl
        | ok a =>
          simp only
          cases propertiesWith p (defineClass p m stack) _ rest <;> rfl

/-- A class that is open is met by its name, any other is opened. -/
theorem defineClass_eq (stack : List Iri) :
    defineClass p m stack = classWith p m fun s c =>
      if c.val.iri ∈ stack then .ok (s.refer c.val)
      else openedWith p (defineClass p m (c.val.iri :: stack)) s c.val := by
  funext s key
  rw [defineClass, classWith]
  cases m.member key with
  | error e => rfl
  | ok c =>
    simp only [bind, Except.bind]
    split
    · rfl
    · cases elsewhere? p m c.val with
      | some target => rfl
      | none =>
        simp only
        split
        · rfl
        · rw [openedWith, defineProperties_eq]
          cases propertiesWith p _ s c.val.properties <;> rfl

/-- The schema of a model with what becomes of its root classes as a parameter. -/
def ofModelWith (p : Publication) (m : StructuralModel) (opening : Opening) :
    Except ModelError JsonSchema := do
  let _ ← m.rootClasses
  let (roots, s) ← classesWith opening .empty m.roots
  let url := p.artefact.publicUrl
  let schema : JsonSchema Reference := {
    dialect := some p.config.dialect
    id := if url.isEmpty then none else some url
    root := .anyOf roots
    defs := s.defs }
  return schema.mapRefs Reference.text

/-- A schema describes the roots while no class is open. -/
theorem ofModel_eq (p : Publication) (m : StructuralModel) :
    ofModel p m = ofModelWith p m (defineClass p m []) := by
  unfold ofModel ofModelWith draft
  rw [defineClasses_eq]
  cases m.rootClasses with
  | error e => rfl
  | ok roots =>
    simp only [bind, Except.bind]
    cases classesWith (defineClass p m []) .empty m.roots <;> rfl

end DataSpec.JsonSchema
