import DataSpec.Proofs.XmlSchema.Groups

/-!
# What is written out on the way

An expansion writes out the root classes, the classes of the ranges of their properties, and so on,
as long as a range is not open yet (`Written`). Each of its functions leaves what is there and
calls others on the way : so if a whole schema is made, each class that is written out was
expanded at some point (`ran_of_written`), each range of a property that is rendered was closed
if it was not open (`closed_of_rendered`), and what was added then is there in the end.
-/

set_option autoImplicit false

namespace DataSpec.XmlSchema

open StructuralModel (classList rangeOf)

/-! ## Classes and properties -/

/-- The classes that are written out, in which role, and the keys of the ranges that are open
there. -/
inductive Written (m : StructuralModel) : List String → Role → m.Member → Prop
  | root {iri : Iri} {c : m.Member} : iri ∈ m.roots → m.member iri = .ok c →
    Written m [rangeKey [c.val]] .root c
  | inside {stack : List String} {role role' : Role} {c c' : m.Member} {p : m.Feature}
    {r : m.Range} : Written m stack role c → m.isForeign c.val = false → p ∈ role.features c →
    Opens p r → rangeKey (classList r.val) ∉ stack → (role', c') ∈ rolesOf r.val →
    Written m (rangeKey (classList r.val) :: stack) role' c'

/-- Whether a property is written out while some ranges are open. -/
def Rendered (m : StructuralModel) (stack : List String) (p : m.Feature) : Prop :=
  ∃ role c, Written m stack role c ∧ m.isForeign c.val = false ∧ p ∈ role.features c

/-- What is open is a root class or the range of a property. -/
theorem Written.opened {m : StructuralModel} {stack : List String} {role : Role} {c : m.Member}
    (h : Written m stack role c) : ∀ key ∈ stack,
      (∃ iri ∈ m.roots, ∃ c, m.member iri = .ok c ∧ key = rangeKey [c.val]) ∨
        ∃ stack' p r, Rendered m stack' p ∧ Opens p r ∧ rangeKey (classList r.val) ∉ stack' ∧
          key = rangeKey (classList r.val) := by
  induction h with
  | root hiri hc => exact List.forall_mem_singleton.mpr (Or.inl ⟨_, hiri, _, hc, rfl⟩)
  | inside hw hown hp hopens hclosed _ ih =>
    have hp : Rendered m _ _ := ⟨_, _, hw, hown, hp⟩
    exact List.forall_mem_cons.mpr ⟨Or.inr ⟨_, _, _, hp, hopens, hclosed, rfl⟩, ih⟩

variable {x : Source} {s s' s'' : Parts} {stack : List String}

/-! ## Growing parts -/

theorem grown_nameOf (s : Parts) (c : StructuralClass) : Grown s (x.nameOf s c).2 := by
  obtain ⟨-, imports, h⟩ := exists_nameOf (x := x) s c
  rw [h]
  exact ⟨id, id, id, id⟩

theorem grown_closeClass (s : Parts) (role : Role) (c : StructuralClass) (cs : List Content) :
    Grown s (closeClass x s role c cs).2 := by
  unfold closeClass
  split
  · exact grown_addGroup _ _ _
  · exact .refl _

theorem grown_closeRange (s : Parts) (cs : List StructuralClass) (b : Body) :
    Grown s (closeRange x s cs b).2 := by
  unfold closeRange
  cases b.name.or (if s.recursive.contains (rangeKey cs) then some (rangeName cs) else none) with
  | none => exact .refl _
  | some name => exact grown_addType _ _ _

section Steps

/-- An opening of ranges that only adds to the parts. -/
def Grows (opening : Opening x) : Prop :=
  ∀ s r t s', opening s r = .ok (t, s') → Grown s s'

variable {opening : Opening x} (ho : Grows opening)
include ho

theorem grown_featureType {p : x.model.Feature} {t : ElementType}
    (h : featureType opening s p = .ok (t, s')) : Grown s s' := by
  unfold featureType at h
  split at h
  · simp at h
  · obtain ⟨-, rfl⟩ := Prod.mk.inj (Except.ok.inj h)
    exact ⟨id, id, id, fun h => by simp [h]⟩
  · obtain ⟨r, -, h⟩ := Except.bind_eq_ok.mp h
    split at h
    · exact ho _ _ _ _ h
    · split at h
      · obtain ⟨-, rfl⟩ := Prod.mk.inj (Except.ok.inj h)
        exact .refl s
      · simp at h

/-- All properties are written out, one after the other. -/
theorem grown_contentsWith : ∀ {ps : List x.model.Feature} {s cs s'},
    contentsWith opening s ps = .ok (cs, s') → Grown s s' ∧
      ∀ p ∈ ps, ∃ s₁ t s₂, featureType opening s₁ p = .ok (t, s₂) ∧ Grown s₂ s'
  | [], s, cs, s', h => by
    obtain ⟨-, rfl⟩ := Prod.mk.inj (Except.ok.inj h)
    exact ⟨.refl s, List.forall_mem_nil _⟩
  | p :: rest, s, cs, s', h => by
    obtain ⟨⟨t, s₁⟩, ht, h⟩ := Except.bind_eq_ok.mp h
    obtain ⟨⟨cs', s₂⟩, hrest, h⟩ := Except.bind_eq_ok.mp h
    obtain ⟨-, rfl⟩ := Prod.mk.inj (Except.ok.inj h)
    obtain ⟨hgrown, hps⟩ := grown_contentsWith hrest
    exact ⟨(grown_featureType ho ht).trans hgrown,
      List.forall_mem_cons.mpr ⟨⟨s, t, s₁, ht, hgrown⟩, hps⟩⟩

/-- A class of the schema itself is written out with all its properties. -/
theorem grown_itemWith {role : Role} {c : x.model.Member} {item : Item}
    (h : itemWith opening s role c = .ok (item, s')) : Grown s s' ∧
      (x.model.isForeign c.val = false → ∀ p ∈ role.features c,
        ∃ s₁ t s₂, featureType opening s₁ p = .ok (t, s₂) ∧ Grown s₂ s') := by
  unfold itemWith at h
  split at h
  · rename_i hforeign
    obtain ⟨-, rfl⟩ := Prod.mk.inj (Except.ok.inj h)
    exact ⟨grown_nameOf s c.val, fun hown => by simp [hown] at hforeign⟩
  · obtain ⟨⟨cs, s₁⟩, hcs, h⟩ := Except.bind_eq_ok.mp h
    obtain ⟨hgrown, hps⟩ := grown_contentsWith ho hcs
    have hclose : Grown s₁ s' := by
      rw [← show (closeClass x s₁ role c.val cs).2 = s' from congrArg Prod.snd (Except.ok.inj h)]
      exact grown_closeClass _ _ _ _
    refine ⟨hgrown.trans hclose, fun _ p hp => ?_⟩
    obtain ⟨s₂, t, s₃, ht, hp⟩ := hps p hp
    exact ⟨s₂, t, s₃, ht, hp.trans hclose⟩

/-- All classes are written out and get types that extend others. -/
theorem grown_extendWith {top : String} :
    ∀ {cs : List x.model.Member} {s s' : Parts}, extendWith opening s top cs = .ok s' →
      Grown s s' ∧ ∀ c ∈ cs, ∃ s₁ item s₂, itemWith opening s₁ .extension c = .ok (item, s₂) ∧
        Grown s₂ s' ∧ s'.types.contains c.val.name = true ∧
        ∃ base, baseName x.model top c.val = .ok base
  | [], s, s', h => by
    obtain rfl := Except.ok.inj h
    exact ⟨.refl s, List.forall_mem_nil _⟩
  | c :: rest, s, s', h => by
    obtain ⟨⟨item, s₁⟩, hitem, h⟩ := Except.bind_eq_ok.mp h
    obtain ⟨base, hbase, h⟩ := Except.bind_eq_ok.mp h
    obtain ⟨hgrown, hrest⟩ := grown_extendWith h
    have hadd := (grown_addType s₁ c.val.name _).trans hgrown
    refine ⟨(grown_itemWith ho hitem).1.trans hadd, List.forall_mem_cons.mpr ⟨?_, hrest⟩⟩
    exact ⟨s, item, s₁, hitem, hadd, hgrown.types (by simp [Parts.addType]), base, hbase⟩

/-- All classes of a range are written out in their roles. -/
theorem grown_bodyWith {cs : List x.model.Member} {b : Body}
    (h : bodyWith opening s cs = .ok (b, s')) : Grown s s' ∧
      ∀ e ∈ rolesOf cs, (∃ s₁ item s₂, itemWith opening s₁ e.1 e.2 = .ok (item, s₂) ∧
          Grown s₂ s') ∧
        (e.1 = .extension → s'.types.contains e.2.val.name = true ∧
          ∃ base, baseName x.model (rangeName (classList cs)) e.2.val = .ok base) := by
  rcases bodyWith_cases h with ⟨c, item, rfl, hitem, -⟩ |
    ⟨-, -, ⟨top, item, s₁, rest, hroles, hitem, hextend, -⟩ | ⟨hroles, hextend, -⟩⟩
  · refine ⟨(grown_itemWith ho hitem).1, ?_⟩
    exact List.forall_mem_singleton.mpr ⟨⟨s, item, s', hitem, .refl _⟩, nofun⟩
  · obtain ⟨hgrown, hrest⟩ := grown_extendWith ho hextend
    refine ⟨(grown_itemWith ho hitem).1.trans hgrown, ?_⟩
    rw [hroles, List.forall_mem_cons, List.forall_mem_map]
    refine ⟨⟨⟨s, item, s₁, hitem, hgrown⟩, nofun⟩, fun c hc => ?_⟩
    obtain ⟨s₂, item, s₃, hitem, hgrown, hname, hbase⟩ := hrest c hc
    exact ⟨⟨s₂, item, s₃, hitem, hgrown⟩, fun _ => ⟨hname, hbase⟩⟩
  · obtain ⟨hgrown, hrest⟩ := grown_extendWith ho hextend
    refine ⟨hgrown, ?_⟩
    rw [hroles, List.forall_mem_map]
    intro c hc
    obtain ⟨s₂, item, s₃, hitem, hgrown, hname, hbase⟩ := hrest c hc
    exact ⟨⟨s₂, item, s₃, hitem, hgrown⟩, fun _ => ⟨hname, hbase⟩⟩

end Steps

/-- Opening a range only adds. -/
theorem grows_typeOf (stack : List String) : Grows (typeOf x stack) := by
  intro s r t s' h
  rw [typeOf_eq] at h
  split at h
  · obtain ⟨-, rfl⟩ := Prod.mk.inj (Except.ok.inj h)
    exact ⟨id, id, fun h => by simp [h], id⟩
  · obtain ⟨⟨b, s₁⟩, hbody, hclose⟩ := Except.map_eq_ok.mp h
    have ho : Grows (typeOf x (rangeKey (classList r.val) :: stack)) := grows_typeOf _
    have hs' : (closeRange x s₁ (classList r.val) b).2 = s' := congrArg Prod.snd hclose
    exact (grown_bodyWith ho hbody).1.trans (hs' ▸ grown_closeRange _ _ _)
termination_by x.model.closedRanges stack
decreasing_by exact StructuralModel.closedRanges_cons_lt _ (by assumption)

/-! ## Root elements -/

theorem grown_extractRoot (s : Parts) (name : String) (t : ComplexType) :
    Grown s (extractRoot x s name t).2 := by
  have hgroup : Grown s (groupedRoot x s name t).2 := by
    unfold groupedRoot
    split
    · exact grown_addGroup _ _ _
    · exact .refl s
  rw [extractRoot_eq, namedRoot]
  split
  · exact hgroup.trans (grown_addType _ _ _)
  · exact hgroup

theorem grown_rootElementWith {c : x.model.Member} {e : Element}
    (h : rootElementWith (typeOf x) s c = .ok (e, s')) :
    ∃ item s₁, itemWith (typeOf x [rangeKey [c.val]]) s .root c = .ok (item, s₁) ∧
      Grown s₁ s' := by
  obtain ⟨item, s₁, t, hitem, -, rfl⟩ := rootElementWith_eq_ok h
  have hclose := grown_closeRange (x := x) s₁ [c.val] ⟨item, none, false⟩
  exact ⟨item, s₁, hitem, (hclose.trans (grown_nameOf _ _)).trans (grown_extractRoot _ _ _)⟩

theorem grown_rootElementsWith : ∀ {cs : List x.model.Member} {s s' es},
    rootElementsWith (typeOf x) s cs = .ok (es, s') → Grown s s' ∧
      ∀ c ∈ cs, ∃ s₁ item s₂,
        itemWith (typeOf x [rangeKey [c.val]]) s₁ .root c = .ok (item, s₂) ∧ Grown s₂ s'
  | [], s, s', es, h => by
    obtain ⟨-, rfl⟩ := Prod.mk.inj (Except.ok.inj h)
    exact ⟨.refl s, List.forall_mem_nil _⟩
  | c :: rest, s, s', es, h => by
    obtain ⟨⟨e, s₁⟩, he, h⟩ := Except.bind_eq_ok.mp h
    obtain ⟨⟨es', s₂⟩, hes, h⟩ := Except.bind_eq_ok.mp h
    obtain ⟨-, rfl⟩ := Prod.mk.inj (Except.ok.inj h)
    obtain ⟨item, s₃, hitem, hgrown⟩ := grown_rootElementWith he
    obtain ⟨hrest, hroots⟩ := grown_rootElementsWith hes
    refine ⟨((grown_itemWith (grows_typeOf _) hitem).1.trans hgrown).trans hrest, ?_⟩
    exact List.forall_mem_cons.mpr ⟨⟨s, item, s₃, hitem, hgrown.trans hrest⟩, hroots⟩

/-! ## What has been expanded -/

theorem featureType_of_opens {opening : Opening x} {p : x.model.Feature} {r : x.model.Range}
    (h : Opens p r) (s : Parts) : featureType opening s p = opening s r := by
  obtain ⟨iris, hiris⟩ := h.classes
  have hplain : (r.val.all fun c => !c.val.isCodelist) = true := by simpa using h.plain
  unfold featureType
  simp only [hiris, h.range, bind, Except.bind, hplain, if_true]

/-- Whether a class was expanded before there were certain parts. -/
def Ran (x : Source) (s' : Parts) (stack : List String) (role : Role) (c : x.model.Member) :
    Prop :=
  ∃ s item s₁, itemWith (typeOf x stack) s role c = .ok (item, s₁) ∧ Grown s₁ s'

/-- Whether a range was closed before there were certain parts. -/
def Closed (x : Source) (s' : Parts) (stack : List String) (r : x.model.Range) : Prop :=
  ∃ s b s₁, bodyWith (typeOf x (rangeKey (classList r.val) :: stack)) s r.val = .ok (b, s₁) ∧
    Grown (closeRange x s₁ (classList r.val) b).2 s'

/-- The ranges of the properties of a class are closed when it is expanded. -/
theorem Ran.closed {role : Role} {c : x.model.Member} {p : x.model.Feature} {r : x.model.Range}
    (h : Ran x s' stack role c) (hown : x.model.isForeign c.val = false)
    (hp : p ∈ role.features c) (hopens : Opens p r) (hclosed : rangeKey (classList r.val) ∉ stack) :
    Closed x s' stack r := by
  obtain ⟨s, item, s₁, hitem, hgrown⟩ := h
  obtain ⟨s₂, t, s₃, ht, hp⟩ := (grown_itemWith (grows_typeOf stack) hitem).2 hown p hp
  rw [featureType_of_opens hopens, typeOf_eq, if_neg hclosed] at ht
  obtain ⟨⟨b, s₄⟩, hbody, hclose⟩ := Except.map_eq_ok.mp ht
  have hs₃ : (closeRange x s₄ (classList r.val) b).2 = s₃ := congrArg Prod.snd hclose
  exact ⟨s₂, b, s₄, hbody, hs₃ ▸ hp.trans hgrown⟩

/-- The classes of a range are expanded before it is closed. -/
theorem Closed.ran {r : x.model.Range} (h : Closed x s' stack r) :
    ∀ e ∈ rolesOf r.val, Ran x s' (rangeKey (classList r.val) :: stack) e.1 e.2 := by
  obtain ⟨s, b, s₁, hbody, hgrown⟩ := h
  intro e he
  obtain ⟨⟨s₂, item, s₃, hitem, hitem'⟩, -⟩ := (grown_bodyWith (grows_typeOf _) hbody).2 e he
  exact ⟨s₂, item, s₃, hitem, hitem'.trans ((grown_closeRange _ _ _).trans hgrown)⟩

/-- The type above several classes has a name, and their parents are among them. -/
theorem several_of_bodyWith {opening : Opening x} {cs : List x.model.Member} {b : Body}
    (h : bodyWith opening s cs = .ok (b, s')) (hseveral : ∀ c, cs = [c] → False) :
    b.name = some (rangeName (classList cs)) ∧
      ∀ c ∈ cs, ∀ parent ∈ c.val.inheritsFrom, parent ∈ cs.map fun c => c.val.iri := by
  rcases bodyWith_cases h with ⟨c, -, hc, -⟩ |
    ⟨-, hparents, ⟨_, _, _, _, -, -, -, rfl⟩ | ⟨-, -, rfl⟩⟩
  · exact (hseveral c hc).elim
  · exact ⟨rfl, hparents⟩
  · exact ⟨rfl, hparents⟩

/-- The range of several classes has a named type, whether it is open or not. -/
theorem type_of_several {r : x.model.Range} (hseveral : ∀ c, r.val = [c] → False)
    {t : ElementType} (h : typeOf x stack s r = .ok (t, s')) :
    t = .named (x.localName (rangeName (classList r.val))) := by
  rw [typeOf_eq] at h
  split at h
  · exact (congrArg Prod.fst (Except.ok.inj h)).symm
  · obtain ⟨⟨b, s₁⟩, hbody, hclose⟩ := Except.map_eq_ok.mp h
    rw [← show (closeRange x s₁ (classList r.val) b).1 = t from congrArg Prod.fst hclose]
    simp [closeRange, (several_of_bodyWith hbody hseveral).1]

/-- When the range of several classes is closed, there are types of the names of all classes that
extend others, and one above them. -/
theorem Closed.types {r : x.model.Range} (h : Closed x s' stack r)
    (hseveral : ∀ c, r.val = [c] → False) :
    s'.types.contains (rangeName (classList r.val)) = true ∧
      (∀ e ∈ rolesOf r.val, e.1 = .extension → s'.types.contains e.2.val.name = true ∧
        ∃ base, baseName x.model (rangeName (classList r.val)) e.2.val = .ok base) ∧
      ∀ c ∈ r.val, ∀ parent ∈ c.val.inheritsFrom, parent ∈ r.val.map fun c => c.val.iri := by
  obtain ⟨s, b, s₁, hbody, hgrown⟩ := h
  obtain ⟨hname, hparents⟩ := several_of_bodyWith hbody hseveral
  refine ⟨hgrown.types ?_, fun e he hextension => ?_, hparents⟩
  · simp [closeRange, hname, Parts.addType]
  · obtain ⟨-, hadded⟩ := (grown_bodyWith (grows_typeOf _) hbody).2 e he
    obtain ⟨hthere, hbase⟩ := hadded hextension
    exact ⟨hgrown.types ((grown_closeRange _ _ _).types hthere), hbase⟩

section Schemas

variable {roots : List x.model.Member} {es : List Element}
  (hroots : x.model.members x.model.roots = .ok roots)
  (hes : rootElementsWith (typeOf x) .empty roots = .ok (es, s'))
include hroots hes

/-- Each class that is written out was expanded. -/
theorem ran_of_written {role : Role} {c : x.model.Member} (h : Written x.model stack role c) :
    Ran x s' stack role c := by
  induction h with
  | root hiri hc =>
    exact (grown_rootElementsWith hes).2 _ (StructuralModel.mem_of_members hroots hiri hc)
  | inside _ hown hp hopens hclosed he ih => exact (ih.closed hown hp hopens hclosed).ran _ he

/-- Each range of a property that is rendered was closed, unless it was open. -/
theorem closed_of_rendered {p : x.model.Feature} {r : x.model.Range}
    (h : Rendered x.model stack p) (hopens : Opens p r)
    (hclosed : rangeKey (classList r.val) ∉ stack) : Closed x s' stack r := by
  obtain ⟨role, c, hw, hown, hp⟩ := h
  exact (ran_of_written hroots hes hw).closed hown hp hopens hclosed

end Schemas

end DataSpec.XmlSchema
