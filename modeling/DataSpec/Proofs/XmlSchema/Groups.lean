import DataSpec.Proofs.XmlSchema.References

/-!
# Which groups a schema defines

A class becomes a group if it is written out as the value of a property and the settings ask for
groups of such classes, or if it is a root and they ask for groups of roots. Where it is described
otherwise, as the extension of another class or by reference, it does not. `Names` says which
names a class and all that is written out inside it would give to groups, given the ranges that
are open.

Each function of the expansion `Adds` what the functions that it calls add, and opening a range
adds what is named inside it (`adds_typeOf`), by the ranges that are not open. So the groups of a
schema are those of its roots and those that are named on the way from them (`group_ofModel_iff`).
-/

set_option autoImplicit false

namespace DataSpec

namespace StructuralModel

/-- A class is among the classes with some identifiers if it has one of them. -/
theorem mem_of_members {m : StructuralModel} {c : m.Member} {iri : Iri} :
    ∀ {iris : List Iri} {cs : List m.Member}, m.members iris = .ok cs → iri ∈ iris →
      m.member iri = .ok c → c ∈ cs
  | first :: rest, cs, h, hiri, hc => by
    rw [members] at h
    split at h
    · simp at h
    · rename_i c' hc'
      obtain ⟨cs', hrest, rfl⟩ := Except.map_eq_ok.mp h
      rcases List.mem_cons.mp hiri with rfl | hiri
      · obtain rfl := Except.ok.inj (hc.symm.trans hc')
        exact List.mem_cons_self
      · exact List.mem_cons_of_mem _ (mem_of_members hrest hiri hc)

end StructuralModel

namespace XmlSchema

open StructuralModel (classList rangeOf)

variable {x : Source} {stack : List String} {s s' s'' : Parts} {name : String}

/-! ## What is written out -/

/-- The classes of a range that are written out, each in its role : a single class and the only
class without a parent are values, the others extend other classes. -/
def rolesOf {m : StructuralModel} : List m.Member → List (Role × m.Member)
  | [c] => [(.value, c)]
  | cs =>
    match cs.filter fun c => c.val.inheritsFrom.isEmpty with
    | [top] =>
      (.value, top) :: (cs.filter fun c => c.val.iri ≠ top.val.iri).map fun c => (.extension, c)
    | _ => cs.map fun c => (.extension, c)

/-- The name of the type of several classes is that of the only one without a parent, or it is
joined from the names of all without one. -/
theorem rangeName_classList {m : StructuralModel} {cs : List m.Member}
    (hseveral : ∀ c, cs = [c] → False) : rangeName (classList cs) =
      topName (classList (cs.filter fun c => c.val.inheritsFrom.isEmpty)) := by
  rcases cs with _ | ⟨c, _ | ⟨c', cs⟩⟩
  · rfl
  · exact absurd rfl (hseveral c)
  · simp [rangeName, classList]

/-- What a range consists of : a single class is written out. Of several classes, the only one
without a parent is, and the others extend it; if there is no such class, they all extend another
type. -/
theorem bodyWith_cases {opening : Opening x} {cs : List x.model.Member} {b : Body}
    (h : bodyWith opening s cs = .ok (b, s')) :
    (∃ c item, cs = [c] ∧ itemWith opening s .value c = .ok (item, s') ∧
      b = ⟨item, if x.otherClasses.extractType then some c.val.name else none, false⟩) ∨
    (∀ c, cs = [c] → False) ∧
      (∀ c ∈ cs, ∀ parent ∈ c.val.inheritsFrom, parent ∈ cs.map fun c => c.val.iri) ∧
      ((∃ top item s₁ rest, rolesOf cs = (.value, top) :: rest.map (fun c => (.extension, c)) ∧
          itemWith opening s .value top = .ok (item, s₁) ∧
          extendWith opening s₁ (rangeName (classList cs)) rest = .ok s' ∧
          b = ⟨item, some (rangeName (classList cs)), false⟩) ∨
        rolesOf cs = cs.map (fun c => (.extension, c)) ∧
          extendWith opening s (rangeName (classList cs)) cs = .ok s' ∧
          b = ⟨.sequence [iriContent], some (rangeName (classList cs)), true⟩) := by
  unfold bodyWith at h
  split at h
  · rename_i c
    obtain ⟨⟨item, s₁⟩, hitem, h⟩ := Except.bind_eq_ok.mp h
    obtain ⟨rfl, rfl⟩ := Prod.mk.inj (Except.ok.inj h)
    exact Or.inl ⟨c, item, rfl, hitem, rfl⟩
  · rename_i hseveral
    obtain ⟨roots, hroots, h⟩ := Except.bind_eq_ok.mp h
    obtain ⟨hfilter, hparents⟩ := tops_eq_ok hroots
    refine Or.inr ⟨hseveral, hparents, ?_⟩
    rw [rangeName_classList hseveral, rolesOf.eq_2 _ hseveral, ← hfilter]
    unfold hierarchyWith at h
    split at h
    · rename_i top
      obtain ⟨⟨item, s₁⟩, hitem, h⟩ := Except.bind_eq_ok.mp h
      obtain ⟨s₂, hextend, h⟩ := Except.bind_eq_ok.mp h
      obtain ⟨rfl, rfl⟩ := Prod.mk.inj (Except.ok.inj h)
      exact Or.inl ⟨top, item, s₁, _, rfl, hitem, hextend, rfl⟩
    · rename_i hnone
      obtain ⟨s₁, hextend, h⟩ := Except.bind_eq_ok.mp h
      obtain ⟨rfl, rfl⟩ := Prod.mk.inj (Except.ok.inj h)
      rw [topName_classList hnone]
      refine Or.inr ⟨?_, hextend, rfl⟩
      split
      · exact (hnone _ rfl).elim
      · rfl

/-- Whether a property is described by the types of a range of classes. -/
structure Opens {m : StructuralModel} (p : m.Feature) (r : m.Range) : Prop where
  classes : ∃ iris, p.val.range = .ok (.classes iris)
  range : rangeOf p = .ok r
  plain : ∀ c ∈ r.val, c.val.isCodelist = false

/-- The names that groups would have when a class is written out in a role while some ranges are
open. -/
inductive Names (m : StructuralModel) : List String → Role → m.Member → String → Prop
  /-- The class itself, as a value. -/
  | own {stack : List String} {c : m.Member} :
    m.isForeign c.val = false → Names m stack .value c c.val.name
  /-- A class that is written out inside it, in a range that is not open yet. -/
  | inside {stack : List String} {role role' : Role} {c c' : m.Member} {p : m.Feature}
    {r : m.Range} {name : String} :
    m.isForeign c.val = false → p ∈ role.features c → Opens p r →
    rangeKey (classList r.val) ∉ stack → (role', c') ∈ rolesOf r.val →
    Names m (rangeKey (classList r.val) :: stack) role' c' name → Names m stack role c name

/-! ## What is added -/

/-- Parts that have the groups of others and those with certain names. -/
def Adds (s s' : Parts) (P : String → Prop) : Prop :=
  ∀ name, s'.groups.contains name = true ↔ s.groups.contains name = true ∨ P name

theorem Adds.nothing (h : s'.groups = s.groups) : Adds s s' fun _ => False := by
  intro name
  rw [h, or_false]

theorem Adds.trans {P Q : String → Prop} (h : Adds s s' P) (h' : Adds s' s'' Q) :
    Adds s s'' fun name => P name ∨ Q name := fun name => by
  rw [h', h, or_assoc]

theorem Adds.congr {P Q : String → Prop} (h : Adds s s' P) (hPQ : ∀ name, P name ↔ Q name) :
    Adds s s' Q := fun name => by
  rw [h, hPQ]

theorem adds_addGroup (s : Parts) (name : String) (contents : List Content) :
    Adds s (s.addGroup name contents) fun other => other = name := by
  intro other
  simp [Parts.addGroup, or_comm]

theorem Adds.of_groups_eq {P : String → Prop} (h : Adds s s' P) (heq : s''.groups = s'.groups) :
    Adds s s'' P := fun name => by
  rw [heq, h]

/-- A class is called by its name, wherever it is described, and that adds imports only. -/
theorem exists_nameOf (s : Parts) (c : StructuralClass) :
    (x.nameOf s c).1.name = c.name ∧ ∃ imports, (x.nameOf s c).2 = { s with imports } := by
  unfold Source.nameOf
  split
  · split
    · rename_i i s' h
      obtain ⟨specification, -, h⟩ := Option.bind_eq_some_iff.mp h
      split at h
      · obtain ⟨rfl, rfl⟩ := Prod.mk.inj (Option.some.inj h)
        exact ⟨rfl, _, rfl⟩
      · obtain ⟨location, -, h⟩ := Option.map_eq_some_iff.mp h
        obtain ⟨rfl, rfl⟩ := Prod.mk.inj h
        exact ⟨rfl, _, rfl⟩
    · exact ⟨rfl, _, rfl⟩
  · exact ⟨rfl, _, rfl⟩

theorem groups_nameOf (s : Parts) (c : StructuralClass) :
    (x.nameOf s c).2.groups = s.groups := by
  obtain ⟨-, imports, h⟩ := exists_nameOf (x := x) s c
  rw [h]

section Steps

/-- The names that a class adds when it is written out in a role, if ranges add `P`. -/
def Around (x : Source) (P : x.model.Range → String → Prop) (role : Role) (c : x.model.Member)
    (name : String) : Prop :=
  x.model.isForeign c.val = false ∧
    ((∃ p ∈ role.features c, ∃ r, Opens p r ∧ P r name) ∨
      role = .value ∧ x.otherClasses.extractGroup = true ∧ name = c.val.name)

/-- An opening of ranges that adds `P`. -/
def OpeningAdds (opening : Opening x) (P : x.model.Range → String → Prop) : Prop :=
  ∀ s r t s', opening s r = .ok (t, s') → Adds s s' (P r)

variable {opening : Opening x} {P : x.model.Range → String → Prop} (ho : OpeningAdds opening P)
include ho

/-- A property adds what the range that it opens does. -/
theorem adds_featureType {p : x.model.Feature} {t : ElementType}
    (h : featureType opening s p = .ok (t, s')) :
    Adds s s' fun name => ∃ r, Opens p r ∧ P r name := by
  unfold featureType at h
  split at h
  · simp at h
  · rename_i ds hp
    obtain ⟨rfl, rfl⟩ := Prod.mk.inj (Except.ok.inj h)
    refine (Adds.nothing rfl).congr fun name => iff_of_false not_false ?_
    rintro ⟨r, hopens, -⟩
    obtain ⟨iris, hiris⟩ := hopens.classes
    simp [hp] at hiris
  · rename_i iris hp
    obtain ⟨r, hr, h⟩ := Except.bind_eq_ok.mp h
    have only : ∀ {r'}, Opens p r' → r' = r := fun hopens =>
      Except.ok.inj (hopens.range.symm.trans hr)
    split at h
    · rename_i hall
      have hopens : Opens p r := ⟨⟨iris, hp⟩, hr, by simpa using hall⟩
      refine (ho _ _ _ _ h).congr fun name => ⟨fun hP => ⟨r, hopens, hP⟩, ?_⟩
      rintro ⟨r', hopens', hP⟩
      obtain rfl := only hopens'
      exact hP
    · rename_i hall
      split at h
      · obtain ⟨rfl, rfl⟩ := Prod.mk.inj (Except.ok.inj h)
        refine (Adds.nothing rfl).congr fun name => iff_of_false not_false ?_
        rintro ⟨r', hopens, -⟩
        obtain rfl := only hopens
        exact hall (by simpa using hopens.plain)
      · simp at h

/-- Properties add what each of them does. -/
theorem adds_contentsWith :
    ∀ {ps : List x.model.Feature} {s s' cs}, contentsWith opening s ps = .ok (cs, s') →
      Adds s s' fun name => ∃ p ∈ ps, ∃ r, Opens p r ∧ P r name
  | [], s, s', cs, h => by
    obtain ⟨rfl, rfl⟩ := Prod.mk.inj (Except.ok.inj h)
    exact (Adds.nothing rfl).congr fun name => by simp
  | p :: rest, s, s', cs, h => by
    obtain ⟨⟨t, s₁⟩, ht, h⟩ := Except.bind_eq_ok.mp h
    obtain ⟨⟨cs', s₂⟩, hrest, h⟩ := Except.bind_eq_ok.mp h
    obtain ⟨rfl, rfl⟩ := Prod.mk.inj (Except.ok.inj h)
    exact ((adds_featureType ho ht).trans (adds_contentsWith hrest)).congr fun name => by simp

/-- A class adds what its properties do, and its own name if it is a value. -/
theorem adds_itemWith {role : Role} {c : x.model.Member} {item : Item}
    (h : itemWith opening s role c = .ok (item, s')) : Adds s s' (Around x P role c) := by
  unfold itemWith at h
  split at h
  · rename_i hforeign
    obtain ⟨rfl, rfl⟩ := Prod.mk.inj (Except.ok.inj h)
    refine (Adds.nothing (groups_nameOf s c.val)).congr fun name => iff_of_false not_false ?_
    rintro ⟨hown, -⟩
    simp [hown] at hforeign
  · rename_i hown
    have hown := Bool.eq_false_iff.mpr hown
    obtain ⟨⟨cs, s₁⟩, hcs, h⟩ := Except.bind_eq_ok.mp h
    have hcontents := adds_contentsWith ho hcs
    have h := Except.ok.inj h
    unfold closeClass at h
    split at h
    · rename_i hgroup
      rw [Bool.and_eq_true, decide_eq_true_eq] at hgroup
      obtain ⟨rfl, rfl⟩ := Prod.mk.inj h
      exact (hcontents.trans (adds_addGroup _ _ _)).congr fun name => by
        simp [Around, hown, hgroup]
    · rename_i hgroup
      obtain ⟨rfl, rfl⟩ := Prod.mk.inj h
      refine hcontents.congr fun name => ?_
      rw [Around, and_iff_right hown]
      refine ⟨Or.inl, fun hname => hname.resolve_right ?_⟩
      rintro ⟨hrole, hextract, -⟩
      exact hgroup (by simp [hrole, hextract])

/-- Extensions of a type add what their classes do. -/
theorem adds_extendWith {top : String} :
    ∀ {cs : List x.model.Member} {s s' : Parts}, extendWith opening s top cs = .ok s' →
      Adds s s' fun name => ∃ c ∈ cs, Around x P .extension c name
  | [], s, s', h => by
    obtain rfl := Except.ok.inj h
    exact (Adds.nothing rfl).congr fun name => by simp
  | c :: rest, s, s', h => by
    obtain ⟨⟨item, s₁⟩, hitem, h⟩ := Except.bind_eq_ok.mp h
    obtain ⟨base, -, h⟩ := Except.bind_eq_ok.mp h
    have hitem : Adds s (s₁.addType c.val.name false (.extension (x.localName base) [.once item]))
        (Around x P .extension c) := (adds_itemWith ho hitem).of_groups_eq rfl
    exact (hitem.trans (adds_extendWith h)).congr fun name => by simp

/-- Several classes add what they do in their roles. -/
theorem adds_bodyWith {cs : List x.model.Member} {b : Body}
    (h : bodyWith opening s cs = .ok (b, s')) :
    Adds s s' fun name => ∃ e ∈ rolesOf cs, Around x P e.1 e.2 name := by
  rcases bodyWith_cases h with ⟨c, item, rfl, hitem, -⟩ |
    ⟨-, -, ⟨top, item, s₁, rest, hroles, hitem, hextend, -⟩ | ⟨hroles, hextend, -⟩⟩
  · exact (adds_itemWith ho hitem).congr fun name => by simp [rolesOf]
  · rw [hroles]
    exact ((adds_itemWith ho hitem).trans (adds_extendWith ho hextend)).congr fun name => by simp
  · rw [hroles]
    exact (adds_extendWith ho hextend).congr fun name => by
      simp only [List.mem_map, exists_exists_and_eq_and]

end Steps

/-! ## What is named -/

/-- What a class names, if ranges that are not open name what is written out in them. -/
theorem names_iff {m : StructuralModel} {role : Role} {c : m.Member} :
    Names m stack role c name ↔ m.isForeign c.val = false ∧
      ((∃ p ∈ role.features c, ∃ r, Opens p r ∧ rangeKey (classList r.val) ∉ stack ∧
          ∃ e ∈ rolesOf r.val, Names m (rangeKey (classList r.val) :: stack) e.1 e.2 name) ∨
        role = .value ∧ name = c.val.name) := by
  constructor
  · intro h
    cases h with
    | own hown => exact ⟨hown, Or.inr ⟨rfl, rfl⟩⟩
    | inside hown hp hopens hclosed he h =>
      exact ⟨hown, Or.inl ⟨_, hp, _, hopens, hclosed, _, he, h⟩⟩
  · rintro ⟨hown, ⟨p, hp, r, hopens, hclosed, ⟨role', c'⟩, he, h⟩ | ⟨rfl, rfl⟩⟩
    · exact .inside hown hp hopens hclosed he h
    · exact .own hown

/-- The names that a range adds when it is met while some ranges are open. -/
def NamesIn (x : Source) (stack : List String) (r : x.model.Range) (name : String) : Prop :=
  rangeKey (classList r.val) ∉ stack ∧ ∃ e ∈ rolesOf r.val, x.otherClasses.extractGroup = true ∧
    Names x.model (rangeKey (classList r.val) :: stack) e.1 e.2 name

/-- What a class adds is what it names, if groups are asked for. -/
theorem around_namesIn {role : Role} {c : x.model.Member} :
    Around x (NamesIn x stack) role c name ↔
      x.otherClasses.extractGroup = true ∧ Names x.model stack role c name := by
  rw [names_iff, Around]
  simp only [NamesIn]
  constructor
  · rintro ⟨hown, ⟨p, hp, r, hopens, hclosed, e, he, hextract, h⟩ | ⟨hrole, hextract, hname⟩⟩
    · exact ⟨hextract, hown, Or.inl ⟨p, hp, r, hopens, hclosed, e, he, h⟩⟩
    · exact ⟨hextract, hown, Or.inr ⟨hrole, hname⟩⟩
  · rintro ⟨hextract, hown, ⟨p, hp, r, hopens, hclosed, e, he, h⟩ | ⟨hrole, hname⟩⟩
    · exact ⟨hown, Or.inl ⟨p, hp, r, hopens, hclosed, e, he, hextract, h⟩⟩
    · exact ⟨hown, Or.inr ⟨hrole, hextract, hname⟩⟩

theorem groups_closeRange (s : Parts) (cs : List StructuralClass) (b : Body) :
    (closeRange x s cs b).2.groups = s.groups := by
  unfold closeRange
  cases b.name.or (if s.recursive.contains (rangeKey cs) then some (rangeName cs) else none) <;> rfl

/-- Opening a range adds what is named in it. -/
theorem adds_typeOf (stack : List String) : OpeningAdds (typeOf x stack) (NamesIn x stack) := by
  intro s r t s' h
  rw [typeOf_eq] at h
  split at h
  · rename_i hopen
    obtain ⟨rfl, rfl⟩ := Prod.mk.inj (Except.ok.inj h)
    exact (Adds.nothing rfl).congr fun name =>
      iff_of_false not_false fun hnames => hnames.1 hopen
  · rename_i hclosed
    obtain ⟨⟨b, s₁⟩, hbody, hclose⟩ := Except.map_eq_ok.mp h
    have ho : OpeningAdds (typeOf x (rangeKey (classList r.val) :: stack)) _ := adds_typeOf _
    have hgroups : s'.groups = s₁.groups := by
      have hgroups := groups_closeRange (x := x) s₁ (classList r.val) b
      rwa [show closeRange x s₁ (classList r.val) b = (t, s') from hclose] at hgroups
    refine ((adds_bodyWith ho hbody).of_groups_eq hgroups).congr fun name => ?_
    simp only [around_namesIn, NamesIn, hclosed, not_false_eq_true, true_and]
termination_by x.model.closedRanges stack
decreasing_by exact StructuralModel.closedRanges_cons_lt _ (by assumption)

/-! ## Whole schemas -/

/-- A name that the description of a root class gives to a group. -/
def NamedAt (x : Source) (c : x.model.Member) (name : String) : Prop :=
  x.rootClass.extractGroup = true ∧ name = c.val.name ∨
    x.otherClasses.extractGroup = true ∧ Names x.model [rangeKey [c.val]] .root c name

/-- A root adds its name if the settings ask for it. -/
theorem adds_extractRoot (s : Parts) (name : String) (t : ComplexType) :
    Adds s (extractRoot x s name t).2 fun other =>
      x.rootClass.extractGroup = true ∧ other = name := by
  have hnamed : (extractRoot x s name t).2.groups = (groupedRoot x s name t).2.groups := by
    rw [extractRoot_eq, namedRoot]
    split <;> rfl
  refine Adds.of_groups_eq ?_ hnamed
  unfold groupedRoot
  split
  · rename_i hextract
    exact (adds_addGroup _ _ _).congr fun other => by simp [hextract]
  · rename_i hextract
    exact (Adds.nothing rfl).congr fun other => by simp [hextract]

/-- A root class is expanded, closed like the range of it alone, named and extracted. -/
theorem rootElementWith_eq_ok {opening : List String → Opening x} {c : x.model.Member}
    {e : Element} (h : rootElementWith opening s c = .ok (e, s')) :
    ∃ item s₁ t, itemWith (opening [rangeKey [c.val]]) s .root c = .ok (item, s₁) ∧
      t.item = item ∧
      s' = (extractRoot x (x.nameOf (closeRange x s₁ [c.val] ⟨item, none, false⟩).2 c.val).2
        c.val.name t).2 := by
  obtain ⟨⟨item, s₁⟩, hitem, h⟩ := Except.bind_eq_ok.mp h
  have hclose : (if s₁.recursive.contains (rangeKey [c.val]) then
      s₁.addType c.val.name false item else s₁) =
      (closeRange x s₁ [c.val] ⟨item, none, false⟩).2 := by
    unfold closeRange
    by_cases hmet : s₁.recursive.contains (rangeKey [c.val]) = true <;> simp [hmet, rangeName]
  simp only [hclose] at h
  refine ⟨item, s₁, ⟨none, false, noteOf c.val.cim c.val.label c.val.description, item⟩, hitem, rfl,
    ?_⟩
  rw [← (exists_nameOf (x := x) (closeRange x s₁ [c.val] ⟨item, none, false⟩).2 c.val).1]
  exact (congrArg Prod.snd (Except.ok.inj h)).symm

theorem adds_rootElementWith {c : x.model.Member} {e : Element}
    (h : rootElementWith (typeOf x) s c = .ok (e, s')) : Adds s s' (NamedAt x c) := by
  obtain ⟨item, s₁, t, hitem, -, rfl⟩ := rootElementWith_eq_ok h
  have hgroups := (groups_nameOf (x := x) _ c.val).trans
    (groups_closeRange (x := x) s₁ [c.val] ⟨item, none, false⟩)
  have hitem := adds_itemWith (adds_typeOf [rangeKey [c.val]]) hitem
  refine ((hitem.of_groups_eq hgroups).trans (adds_extractRoot _ _ _)).congr fun name => ?_
  rw [around_namesIn, NamedAt, or_comm]

/-- Roots add what each of them does. -/
theorem adds_rootElementsWith :
    ∀ {cs : List x.model.Member} {s s' es}, rootElementsWith (typeOf x) s cs = .ok (es, s') →
      Adds s s' fun name => ∃ c ∈ cs, NamedAt x c name
  | [], s, s', es, h => by
    obtain ⟨rfl, rfl⟩ := Prod.mk.inj (Except.ok.inj h)
    exact (Adds.nothing rfl).congr fun name => by simp
  | c :: rest, s, s', es, h => by
    obtain ⟨⟨e, s₁⟩, he, h⟩ := Except.bind_eq_ok.mp h
    obtain ⟨⟨es', s₂⟩, hes, h⟩ := Except.bind_eq_ok.mp h
    obtain ⟨rfl, rfl⟩ := Prod.mk.inj (Except.ok.inj h)
    exact ((adds_rootElementWith he).trans (adds_rootElementsWith hes)).congr fun name => by simp

/-- The groups of a schema are those of the roots and those that are named on the way from
them. -/
theorem group_ofModel_iff {schema : XmlSchema} (h : ofModel x = .ok schema) :
    (∃ g ∈ schema.groups, g.name = name) ↔
      ∃ iri ∈ x.model.roots, ∃ c, x.model.member iri = .ok c ∧ NamedAt x c name := by
  obtain ⟨roots, elements, s, hroots, helements, rfl⟩ := exists_assemble_of_ofModel h
  have hgroups : (∃ g ∈ (assemble x elements s).groups, g.name = name) ↔
      s.groups.contains name = true := by
    rw [← SortedMap.mem_keys_iff]
    simp [assemble, SortedMap.keys, SortedMap.toList]
  rw [hgroups, adds_rootElementsWith helements]
  constructor
  · rintro (hempty | ⟨c, hc, hnamed⟩)
    · simp [Parts.empty] at hempty
    · obtain ⟨iri, hiri, hmember⟩ := StructuralModel.exists_of_mem_members hroots hc
      exact ⟨iri, hiri, c, hmember, hnamed⟩
  · rintro ⟨iri, hiri, c, hmember, hnamed⟩
    exact Or.inr ⟨c, StructuralModel.mem_of_members hroots hiri hmember, hnamed⟩

end XmlSchema

end DataSpec
