import DataSpec.Proofs.XmlSchema.Rendering

/-!
# Hierarchies of types

The range of several classes is given a hierarchy of types : one above them, and for each class
one that extends the type of its parent. The types are kept by name, and a type that is written
under a name takes the place of the one that was there. `Writing` says which types are ever
written : above several classes, as an extension, or of a single class that needs a name
(`exists_parts_of_ofModel`). All types of a hierarchy are there in the end (`Closed.types`), so
they are the hierarchy if nothing else is written under the names of the classes that extend
others (`Steady`), and then each of these derives from the type above (`hierarchy_of_rendered`).
-/

set_option autoImplicit false

namespace DataSpec.XmlSchema

open StructuralModel (classList rangeOf)

/-- The base of what extends a type. -/
def Item.base? : Item → Option QName
  | .extension base _ => some base
  | _ => none

/-! ## What is written under names -/

/-- Whether a range is opened on the way from a root. -/
def OpenedIn (m : StructuralModel) (r : m.Range) : Prop :=
  ∃ stack p, Rendered m stack p ∧ Opens p r ∧ rangeKey (classList r.val) ∉ stack

/-- Whether a range is met where what has its key is open. -/
def MetInside (m : StructuralModel) (key : String) : Prop :=
  ∃ stack p r, Rendered m stack p ∧ Opens p r ∧ rangeKey (classList r.val) = key ∧ key ∈ stack

/-- The types that are written under names, with their bases if they extend others. -/
inductive Writing (x : Source) : String → Option QName → Prop
  /-- The type above several classes. -/
  | above {r : x.model.Range} : OpenedIn x.model r → (∀ c, r.val = [c] → False) →
    Writing x (rangeName (classList r.val)) none
  /-- The type of a class that extends another one. -/
  | extension {r : x.model.Range} {c : x.model.Member} {base : String} : OpenedIn x.model r →
    (.extension, c) ∈ rolesOf r.val →
    baseName x.model (rangeName (classList r.val)) c.val = .ok base →
    Writing x c.val.name (some (x.localName base))
  /-- The type of a single class, if types are asked for or it is met inside itself. -/
  | single {r : x.model.Range} {c : x.model.Member} : OpenedIn x.model r → r.val = [c] →
    x.otherClasses.extractType = true ∨ MetInside x.model (rangeKey [c.val]) →
    Writing x c.val.name none
  /-- The type of a root class, likewise. -/
  | root {iri : Iri} {c : x.model.Member} : iri ∈ x.model.roots → x.model.member iri = .ok c →
    x.rootClass.extractType = true ∨ MetInside x.model (rangeKey [c.val]) →
    Writing x c.val.name none

/-- Parts whose types and whose ranges that were met inside themselves are accounted for. -/
structure Accounted (x : Source) (s : Parts) : Prop where
  types : ∀ {name t}, s.types.get? name = some t → t.name = some name ∧ Writing x name t.item.base?
  met : ∀ {key}, s.recursive.contains key = true → MetInside x.model key

variable {x : Source} {s s' : Parts} {stack : List String}

theorem Accounted.congr (h : Accounted x s) (ht : s'.types = s.types)
    (hr : s'.recursive = s.recursive) : Accounted x s' :=
  ⟨fun hget => h.types (ht ▸ hget), fun hmet => h.met (hr ▸ hmet)⟩

theorem Accounted.insert (h : Accounted x s) {name : String} {t : ComplexType}
    (ht : t.name = some name) (hw : Writing x name t.item.base?) :
    Accounted x { s with types := s.types.insert name t } := by
  refine ⟨fun {name' t'} hget => ?_, h.met⟩
  rw [SortedMap.get?_insert] at hget
  split at hget
  · obtain rfl := Option.some.inj hget
    subst name'
    exact ⟨ht, hw⟩
  · exact h.types hget

section Steps

/-- An opening of the ranges of properties that accounts for what it writes. -/
def Accounts (stack : List String) (opening : Opening x) : Prop :=
  ∀ {s p r t s'}, Rendered x.model stack p → Opens p r → Accounted x s →
    opening s r = .ok (t, s') → Accounted x s'

variable {opening : Opening x} (ho : Accounts stack opening)
include ho

theorem accounted_featureType (hs : Accounted x s) {p : x.model.Feature} {t : ElementType}
    (hp : Rendered x.model stack p) (h : featureType opening s p = .ok (t, s')) :
    Accounted x s' := by
  unfold featureType at h
  split at h
  · simp at h
  · obtain ⟨-, rfl⟩ := Prod.mk.inj (Except.ok.inj h)
    exact hs.congr rfl rfl
  · rename_i iris hrange
    obtain ⟨r, hr, h⟩ := Except.bind_eq_ok.mp h
    split at h
    · rename_i hall
      exact ho hp ⟨⟨iris, hrange⟩, hr, by simpa using hall⟩ hs h
    · split at h
      · obtain ⟨-, rfl⟩ := Prod.mk.inj (Except.ok.inj h)
        exact hs
      · simp at h

theorem accounted_contentsWith : ∀ {ps : List x.model.Feature} {s cs s'},
    (∀ p ∈ ps, Rendered x.model stack p) → Accounted x s →
    contentsWith opening s ps = .ok (cs, s') → Accounted x s'
  | [], s, cs, s', _, hs, h => by
    obtain ⟨-, rfl⟩ := Prod.mk.inj (Except.ok.inj h)
    exact hs
  | p :: rest, s, cs, s', hps, hs, h => by
    obtain ⟨⟨t, s₁⟩, ht, h⟩ := Except.bind_eq_ok.mp h
    obtain ⟨⟨cs', s₂⟩, hrest, h⟩ := Except.bind_eq_ok.mp h
    obtain ⟨-, rfl⟩ := Prod.mk.inj (Except.ok.inj h)
    obtain ⟨hp, hps⟩ := List.forall_mem_cons.mp hps
    exact accounted_contentsWith hps (accounted_featureType ho hs hp ht) hrest

/-- What a class consists of extends nothing by itself. -/
theorem accounted_itemWith (hs : Accounted x s) {role : Role} {c : x.model.Member} {item : Item}
    (hw : Written x.model stack role c) (h : itemWith opening s role c = .ok (item, s')) :
    Accounted x s' ∧ item.base? = none := by
  unfold itemWith at h
  split at h
  · have h := Except.ok.inj h
    have hitem : .group (x.nameOf s c.val).1 = item := congrArg Prod.fst h
    have hs' : (x.nameOf s c.val).2 = s' := congrArg Prod.snd h
    obtain ⟨-, imports, himports⟩ := exists_nameOf (x := x) s c.val
    rw [← hitem, ← hs', himports]
    exact ⟨hs.congr rfl rfl, rfl⟩
  · rename_i hown
    obtain ⟨⟨cs, s₁⟩, hcs, h⟩ := Except.bind_eq_ok.mp h
    have hps : ∀ p ∈ role.features c, Rendered x.model stack p := fun p hp =>
      ⟨role, c, hw, Bool.eq_false_iff.mpr hown, hp⟩
    have hcontents := accounted_contentsWith ho hps hs hcs
    have h := Except.ok.inj h
    unfold closeClass at h
    split at h <;> obtain ⟨rfl, rfl⟩ := Prod.mk.inj h
    · exact ⟨hcontents.congr rfl rfl, rfl⟩
    · exact ⟨hcontents, rfl⟩

variable {r : x.model.Range} (hr : OpenedIn x.model r)
include hr

theorem accounted_extendWith : ∀ {cs : List x.model.Member} {s s' : Parts},
    (∀ c ∈ cs, (.extension, c) ∈ rolesOf r.val ∧ Written x.model stack .extension c) →
    Accounted x s → extendWith opening s (rangeName (classList r.val)) cs = .ok s' →
    Accounted x s'
  | [], s, s', _, hs, h => Except.ok.inj h ▸ hs
  | c :: rest, s, s', hcs, hs, h => by
    obtain ⟨⟨item, s₁⟩, hitem, h⟩ := Except.bind_eq_ok.mp h
    obtain ⟨base, hbase, h⟩ := Except.bind_eq_ok.mp h
    obtain ⟨⟨hrole, hw⟩, hcs⟩ := List.forall_mem_cons.mp hcs
    have hadded := (accounted_itemWith ho hs hw hitem).1.insert
      (t := ⟨some c.val.name, false, none, .extension (x.localName base) [.once item]⟩) rfl
      (.extension hr hrole hbase)
    exact accounted_extendWith hcs hadded h

/-- What a range consists of extends nothing, and it has a name only if it has to. -/
theorem accounted_bodyWith (hs : Accounted x s)
    (hw : ∀ e ∈ rolesOf r.val, Written x.model stack e.1 e.2) {b : Body}
    (h : bodyWith opening s r.val = .ok (b, s')) : Accounted x s' ∧ b.item.base? = none ∧
      ((∃ c, r.val = [c] ∧ (b.name = none ∨
          b.name = some c.val.name ∧ x.otherClasses.extractType = true)) ∨
        (∀ c, r.val = [c] → False) ∧ b.name = some (rangeName (classList r.val))) := by
  rcases bodyWith_cases h with ⟨c, item, hc, hitem, rfl⟩ |
    ⟨hseveral, -, ⟨top, item, s₁, rest, hroles, hitem, hextend, rfl⟩ | ⟨hroles, hextend, rfl⟩⟩
  · rw [hc] at hw
    obtain ⟨hadded, hitem⟩ := accounted_itemWith ho hs (hw _ List.mem_cons_self) hitem
    refine ⟨hadded, hitem, Or.inl ⟨c, hc, ?_⟩⟩
    by_cases hextract : x.otherClasses.extractType = true <;> simp [hextract]
  · rw [hroles] at hw
    obtain ⟨htop, hrest⟩ := List.forall_mem_cons.mp hw
    obtain ⟨hadded, hitem⟩ := accounted_itemWith ho hs htop hitem
    refine ⟨accounted_extendWith ho hr (fun c hc => ⟨?_, ?_⟩) hadded hextend, hitem,
      Or.inr ⟨hseveral, rfl⟩⟩
    · rw [hroles]
      exact List.mem_cons_of_mem _ (List.mem_map_of_mem hc)
    · exact hrest (.extension, c) (List.mem_map_of_mem hc)
  · rw [hroles] at hw
    refine ⟨accounted_extendWith ho hr (fun c hc => ⟨?_, ?_⟩) hs hextend, rfl,
      Or.inr ⟨hseveral, rfl⟩⟩
    · rw [hroles]
      exact List.mem_map_of_mem hc
    · exact hw (.extension, c) (List.mem_map_of_mem hc)

end Steps

/-- What is closed under a name is accounted for if that may be written. -/
theorem accounted_closeRange (hs : Accounted x s) {cs : List StructuralClass} {b : Body}
    (hitem : b.item.base? = none)
    (hw : ∀ {name}, b.name.or (if s.recursive.contains (rangeKey cs) then some (rangeName cs)
      else none) = some name → Writing x name none) :
    Accounted x (closeRange x s cs b).2 := by
  unfold closeRange
  cases hname : b.name.or (if s.recursive.contains (rangeKey cs) then some (rangeName cs) else none)
  case none => exact hs
  case some name => exact hs.insert rfl (hitem.symm ▸ hw hname)

/-- A class that is closed alone is called by its name, if it was met inside itself. -/
theorem Accounted.single_of_recursive (hs : Accounted x s) {c : x.model.Member} {name : String}
    (h : (if s.recursive.contains (rangeKey [c.val]) then some (rangeName [c.val]) else none) =
      some name) : name = c.val.name ∧ MetInside x.model (rangeKey [c.val]) := by
  split at h
  · exact ⟨(Option.some.inj h).symm, hs.met ‹_›⟩
  · simp at h

/-- Opening a range accounts for what it writes. -/
theorem accounts_typeOf (stack : List String) : Accounts stack (typeOf x stack) := by
  intro s p r t s' hp hopens hs h
  rw [typeOf_eq] at h
  split at h
  · rename_i hopen
    obtain ⟨-, rfl⟩ := Prod.mk.inj (Except.ok.inj h)
    refine ⟨hs.types, fun {key} hmet => ?_⟩
    rw [SortedSet.contains_add, Bool.or_eq_true, decide_eq_true_eq] at hmet
    rcases hmet with rfl | hmet
    · exact ⟨stack, p, r, hp, hopens, rfl, hopen⟩
    · exact hs.met hmet
  · rename_i hclosed
    obtain ⟨⟨b, s₁⟩, hbody, hclose⟩ := Except.map_eq_ok.mp h
    have hr : OpenedIn x.model r := ⟨stack, p, hp, hopens, hclosed⟩
    have ho : Accounts _ (typeOf x (rangeKey (classList r.val) :: stack)) := accounts_typeOf _
    have hw : ∀ e ∈ rolesOf r.val,
        Written x.model (rangeKey (classList r.val) :: stack) e.1 e.2 := by
      obtain ⟨role, c, hw, hown, hmem⟩ := hp
      exact fun e he => hw.inside hown hmem hopens hclosed he
    obtain ⟨hadded, hitem, hname⟩ := accounted_bodyWith ho hr hs hw hbody
    rw [← show (closeRange x s₁ (classList r.val) b).2 = s' from congrArg Prod.snd hclose]
    refine accounted_closeRange hadded hitem fun {name} hwritten => ?_
    rcases hname with ⟨c, hc, hnone | ⟨hsome, hextract⟩⟩ | ⟨hseveral, hsome⟩
    · rw [hnone, Option.none_or, hc] at hwritten
      obtain ⟨rfl, hmet⟩ := hadded.single_of_recursive hwritten
      exact .single hr hc (Or.inr hmet)
    · rw [hsome, Option.some_or] at hwritten
      exact Option.some.inj hwritten ▸ .single hr hc (Or.inl hextract)
    · rw [hsome, Option.some_or] at hwritten
      exact Option.some.inj hwritten ▸ .above hr hseveral
termination_by x.model.closedRanges stack
decreasing_by exact StructuralModel.closedRanges_cons_lt _ (by assumption)

/-! ## Whole schemas -/

theorem accounted_extractRoot (hs : Accounted x s) {name : String} {t : ComplexType}
    (ht : t.item.base? = none) (hw : x.rootClass.extractType = true → Writing x name none) :
    Accounted x (extractRoot x s name t).2 := by
  have hgroup : Accounted x (groupedRoot x s name t).2 ∧
      (groupedRoot x s name t).1.item.base? = none := by
    unfold groupedRoot
    split
    · exact ⟨hs.congr rfl rfl, rfl⟩
    · exact ⟨hs, ht⟩
  rw [extractRoot_eq, namedRoot]
  split
  · exact hgroup.1.insert rfl (hgroup.2.symm ▸ hw ‹_›)
  · exact hgroup.1

theorem accounted_rootElementWith {iri : Iri} {c : x.model.Member} {e : Element}
    (hiri : iri ∈ x.model.roots) (hc : x.model.member iri = .ok c) (hs : Accounted x s)
    (h : rootElementWith (typeOf x) s c = .ok (e, s')) : Accounted x s' := by
  obtain ⟨item, s₁, t, hitem, rfl, rfl⟩ := rootElementWith_eq_ok h
  obtain ⟨hadded, hbase⟩ := accounted_itemWith (accounts_typeOf _) hs (.root hiri hc) hitem
  have hclosed : Accounted x (closeRange x s₁ [c.val] ⟨t.item, none, false⟩).2 := by
    refine accounted_closeRange hadded hbase fun {name} hwritten => ?_
    obtain ⟨rfl, hmet⟩ := hadded.single_of_recursive hwritten
    exact .root hiri hc (Or.inr hmet)
  obtain ⟨-, imports, himports⟩ :=
    exists_nameOf (x := x) (closeRange x s₁ [c.val] ⟨t.item, none, false⟩).2 c.val
  rw [himports]
  have hnamed : Accounted x { (closeRange x s₁ [c.val] ⟨t.item, none, false⟩).2 with imports } :=
    hclosed.congr rfl rfl
  exact accounted_extractRoot hnamed hbase fun hextract => .root hiri hc (Or.inl hextract)

theorem accounted_rootElementsWith : ∀ {cs : List x.model.Member} {s s' es},
    (∀ c ∈ cs, ∃ iri ∈ x.model.roots, x.model.member iri = .ok c) → Accounted x s →
    rootElementsWith (typeOf x) s cs = .ok (es, s') → Accounted x s'
  | [], s, s', es, _, hs, h => by
    obtain ⟨-, rfl⟩ := Prod.mk.inj (Except.ok.inj h)
    exact hs
  | c :: rest, s, s', es, hcs, hs, h => by
    obtain ⟨⟨e, s₁⟩, he, h⟩ := Except.bind_eq_ok.mp h
    obtain ⟨⟨es', s₂⟩, hes, h⟩ := Except.bind_eq_ok.mp h
    obtain ⟨-, rfl⟩ := Prod.mk.inj (Except.ok.inj h)
    obtain ⟨⟨iri, hiri, hc⟩, hcs⟩ := List.forall_mem_cons.mp hcs
    exact accounted_rootElementsWith hcs (accounted_rootElementWith hiri hc hs he) hes

/-- A schema has the types of the parts that are there in the end, which are all accounted
for. -/
theorem exists_parts_of_ofModel {schema : XmlSchema} (h : ofModel x = .ok schema) :
    ∃ roots es s, x.model.members x.model.roots = .ok roots ∧
      rootElementsWith (typeOf x) .empty roots = .ok (es, s) ∧ schema = assemble x es s ∧
      Accounted x s := by
  obtain ⟨roots, es, s, hroots, hes, hschema⟩ := exists_assemble_of_ofModel h
  have hnothing : Accounted x .empty := ⟨nofun, nofun⟩
  have hs := accounted_rootElementsWith
    (fun c hc => StructuralModel.exists_of_mem_members hroots hc) hnothing hes
  exact ⟨roots, es, s, hroots, hes, hschema, hs⟩

/-! ## Hierarchies -/

/-- What derives from a type : what extends it, or extends what derives from it. -/
inductive Derives (schema : XmlSchema) (top : String) : String → Prop
  | direct {t : ComplexType} {name : String} : t ∈ schema.types → t.name = some name →
    t.item.base? = some ⟨schema.qualifier, top⟩ → Derives schema top name
  | through {t : ComplexType} {name base : String} : t ∈ schema.types → t.name = some name →
    t.item.base? = some ⟨schema.qualifier, base⟩ → Derives schema top base →
    Derives schema top name

/-- Whether nothing else is written under the names of the classes of a range that extend
others. -/
def Steady (x : Source) (r : x.model.Range) : Prop :=
  ∀ c base, (.extension, c) ∈ rolesOf r.val →
    baseName x.model (rangeName (classList r.val)) c.val = .ok base →
    ∀ written, Writing x c.val.name written → written = some (x.localName base)

theorem mem_of_mem_rolesOf {m : StructuralModel} {cs : List m.Member} {e : Role × m.Member}
    (h : e ∈ rolesOf cs) : e.2 ∈ cs := by
  unfold rolesOf at h
  split at h
  · exact List.mem_singleton.mpr (congrArg Prod.snd (List.mem_singleton.mp h))
  · split at h
    · rename_i top htop
      rcases List.mem_cons.mp h with rfl | h
      · exact (List.mem_filter.mp (htop ▸ List.mem_singleton_self top)).1
      · obtain ⟨c, hc, rfl⟩ := List.mem_map.mp h
        exact (List.mem_filter.mp hc).1
    · obtain ⟨c, hc, rfl⟩ := List.mem_map.mp h
      exact hc

theorem OpenedIn.mem_openings {m : StructuralModel} {r : m.Range} (h : OpenedIn m r) :
    classList r.val ∈ m.openings := by
  obtain ⟨stack, p, -, ⟨⟨iris, hiris⟩, hr, -⟩, -⟩ := h
  exact StructuralModel.mem_openings_of_rangeOf hiris hr

/-- What is written under a name is the type of something that is opened, or of one of its classes
with the base that it has there. -/
theorem Writing.exists_opening {name : String} {written : Option QName}
    (h : Writing x name written) : ∃ cs ∈ x.model.openings, rangeName cs = name ∧ written = none ∨
      ∃ c ∈ cs, c.name = name ∧ ∃ base, baseName x.model (rangeName cs) c = .ok base ∧
        written = some (x.localName base) := by
  cases h with
  | above hr => exact ⟨_, hr.mem_openings, Or.inl ⟨rfl, rfl⟩⟩
  | extension hr hrole hbase =>
    exact ⟨_, hr.mem_openings, Or.inr ⟨_, List.mem_map_of_mem (mem_of_mem_rolesOf hrole), rfl, _,
      hbase, rfl⟩⟩
  | single hr hc => exact ⟨_, hr.mem_openings, Or.inl ⟨by rw [hc]; rfl, rfl⟩⟩
  | root hiri hc =>
    exact ⟨_, StructuralModel.mem_openings_of_member hiri hc, Or.inl ⟨rfl, rfl⟩⟩

/-- Whether the names of the classes of a range that extend others belong to nothing else that is
opened : to no root, no single class and no type above others, and to other classes only where they
extend the same. -/
def Apart (m : StructuralModel) (r : m.Range) : Prop :=
  ∀ e ∈ rolesOf r.val, e.1 = .extension → ∀ cs ∈ m.openings, rangeName cs ≠ e.2.val.name ∧
    ∀ c ∈ cs, c.name = e.2.val.name → (baseName m (rangeName cs) c).toOption =
      (baseName m (rangeName (classList r.val)) e.2.val).toOption

instance (m : StructuralModel) (r : m.Range) : Decidable (Apart m r) :=
  inferInstanceAs (Decidable (∀ _ ∈ _, _ → ∀ _ ∈ _, _))

/-- What is apart is steady. -/
theorem steady_of_apart {r : x.model.Range} (h : Apart x.model r) : Steady x r := by
  intro c base hrole hbase written hw
  obtain ⟨cs, hcs, ⟨hname, -⟩ | ⟨c', hc', hname, base', hbase', rfl⟩⟩ := hw.exists_opening
  · exact absurd hname (h _ hrole rfl cs hcs).1
  · have hsame := (h _ hrole rfl cs hcs).2 c' hc' hname
    rw [hbase, hbase'] at hsame
    rw [Option.some.inj hsame]

/-- Each of several classes extends another type, or the type above them all has its name. -/
theorem name_or_mem_rolesOf {m : StructuralModel} {cs : List m.Member}
    (hseveral : ∀ c, cs = [c] → False)
    (hiris : ∀ c d : m.Member, c.val.iri = d.val.iri → c = d) :
    ∀ c ∈ cs, c.val.name = rangeName (classList cs) ∨ (.extension, c) ∈ rolesOf cs := by
  intro c hc
  rw [rangeName_classList hseveral, rolesOf.eq_2 _ hseveral]
  split
  · rename_i top htop
    by_cases hiri : c.val.iri = top.val.iri
    · obtain rfl := hiris c top hiri
      rw [htop]
      exact Or.inl rfl
    · refine Or.inr (List.mem_cons_of_mem _ (List.mem_map_of_mem (List.mem_filter.mpr ⟨hc, ?_⟩)))
      simpa using hiri
  · exact Or.inr (List.mem_map_of_mem hc)

section Schemas

variable (hkeyed : ∀ {k c}, x.model.class? k = some c → c.iri = k)
  (hblank : ∀ c ∈ x.model.classes.values, ' ' ∉ c.iri.toList)
include hkeyed hblank

/-- Ranges are told by their keys. -/
theorem eq_of_key_eq {cs cs' : List x.model.Member} (hne : cs ≠ []) (hne' : cs' ≠ [])
    (h : rangeKey (classList cs) = rangeKey (classList cs')) : cs = cs' := by
  have known : ∀ {cs : List x.model.Member}, ∀ c ∈ classList cs,
      x.model.class? c.iri = some c ∧ ' ' ∉ c.iri.toList := by
    intro cs c hc
    obtain ⟨d, -, rfl⟩ := List.mem_map.mp hc
    exact ⟨StructuralModel.class?_iri hkeyed d, hblank _ d.property⟩
  have heq := StructuralModel.eq_of_rangeKey_eq (fun h => hne (List.map_eq_nil_iff.mp h))
    (fun h => hne' (List.map_eq_nil_iff.mp h)) known known h
  exact List.map_injective_iff.mpr Subtype.val_injective heq

variable {roots : List x.model.Member} {es : List Element}
  (hroots : x.model.members x.model.roots = .ok roots)
  (hes : rootElementsWith (typeOf x) .empty roots = .ok (es, s'))
include hroots hes

/-- A range of several classes is closed somewhere, wherever it is met. -/
theorem exists_closed {p : x.model.Feature} {r : x.model.Range}
    (hp : Rendered x.model stack p) (hopens : Opens p r) (hseveral : ∀ c, r.val = [c] → False) :
    ∃ stack', Closed x s' stack' r ∧ OpenedIn x.model r := by
  have hne : ∀ {p : x.model.Feature} {r : x.model.Range}, Opens p r → r.val ≠ [] := by
    rintro p r ⟨⟨iris, hiris⟩, hr, -⟩ hnil
    have hmem := StructuralModel.mem_openings_of_rangeOf hiris hr
    exact StructuralModel.ne_nil_of_mem_openings hmem (by rw [hnil]; rfl)
  by_cases hopen : rangeKey (classList r.val) ∈ stack
  · obtain ⟨role, c, hw, -⟩ := hp
    rcases hw.opened _ hopen with ⟨-, -, c, -, hkey⟩ | ⟨stack', p', r', hp', hopens', hclosed, hkey⟩
    · exact (hseveral c
        (eq_of_key_eq hkeyed hblank (hne hopens) (List.cons_ne_nil c []) hkey)).elim
    · obtain rfl := Subtype.ext (eq_of_key_eq hkeyed hblank (hne hopens) (hne hopens') hkey)
      exact ⟨stack', closed_of_rendered hroots hes hp' hopens' hclosed,
        stack', p', hp', hopens', hclosed⟩
  · exact ⟨stack, closed_of_rendered hroots hes hp hopens hopen, stack, p, hp, hopens, hopen⟩

end Schemas

/-! ## Employees -/

/-- An association. -/
def associationTo (iri : Iri) (classes : List Iri) : StructuralProperty :=
  ⟨iri, none, none, .empty, .empty, none, none, classes.map .class_, false, []⟩

/-- What a case is about. -/
def aboutProperty : StructuralProperty := associationTo "about" ["person", "employee"]

/-- The name of a person. -/
def personName : StructuralProperty := { associationTo "name" [] with types := [.datatype none] }

/-- Cases about persons or employees, and whatever else there is to say of them. -/
def caseClass (more : List StructuralProperty) : StructuralClass :=
  { linkClass with iri := "case", properties := aboutProperty :: more }

/-- Persons, who have names. -/
def namedPerson : StructuralClass := { linkClass with iri := "person", properties := [personName] }

/-- Employees, who are persons, and may have deputies. -/
def employeeClass (deputies : List StructuralProperty) : StructuralClass :=
  { linkClass with
    iri := "employee", inheritsFrom := ["person"], properties := personName :: deputies }

/-- The model of cases. -/
def staffModel (more deputies : List StructuralProperty) : StructuralModel :=
  { chainModel with
    roots := ["case"]
    classes := .ofList [("case", caseClass more), ("person", namedPerson),
      ("employee", employeeClass deputies)] }

/-- What the schema of cases is made of. -/
def staffSource (more deputies : List StructuralProperty) : Source :=
  { chainSource with model := staffModel more deputies }

section

variable (more deputies : List StructuralProperty)

theorem class?_staffModel :
    (staffModel more deputies).class? "case" = some (caseClass more) ∧
      (staffModel more deputies).class? "person" = some namedPerson ∧
      (staffModel more deputies).class? "employee" = some (employeeClass deputies) :=
  ⟨(SortedMap.get?_ofList_iff (by simp)).mpr (by simp),
    (SortedMap.get?_ofList_iff (by simp)).mpr (by simp),
    (SortedMap.get?_ofList_iff (by simp)).mpr (by simp)⟩

theorem keyed_staffModel {k : Iri} {c : StructuralClass}
    (h : (staffModel more deputies).class? k = some c) : c.iri = k := by
  have hmem := SortedMap.mem_of_get?_ofList h
  simp only [List.mem_cons, List.not_mem_nil, or_false, Prod.mk.injEq] at hmem
  rcases hmem with ⟨rfl, rfl⟩ | ⟨rfl, rfl⟩ | ⟨rfl, rfl⟩ <;> rfl

/-- What a case is about : persons and employees. -/
def aboutClasses : List (staffModel more deputies).Member :=
  [⟨namedPerson, StructuralModel.mem_values_of_class? (class?_staffModel more deputies).2.1⟩,
    ⟨employeeClass deputies,
      StructuralModel.mem_values_of_class? (class?_staffModel more deputies).2.2⟩]

/-- A case is written out with what it is about. -/
theorem rendered_about (hp : aboutProperty ∈ (staffModel more deputies).properties)
    (hr : rangeKey (classList (aboutClasses more deputies)) ∈
      (staffModel more deputies).rangeKeys) :
    Rendered (staffModel more deputies) [rangeKey [caseClass more]] ⟨aboutProperty, hp⟩ ∧
      Opens ⟨aboutProperty, hp⟩ ⟨aboutClasses more deputies, hr⟩ := by
  obtain ⟨hcase, hperson, hemployee⟩ := class?_staffModel more deputies
  constructor
  · have hc := StructuralModel.member_of_class?
      (c := ⟨caseClass more, StructuralModel.mem_values_of_class? hcase⟩) hcase
    refine ⟨.root, _, .root List.mem_cons_self hc, rfl, ?_⟩
    simp [Role.features, StructuralModel.Member.features, caseClass]
  · have hmembers : (staffModel more deputies).members ["person", "employee"] =
        .ok (aboutClasses more deputies) := by
      rw [StructuralModel.members, StructuralModel.member_of_class? (c := ⟨_, _⟩) hperson,
        StructuralModel.members, StructuralModel.member_of_class? (c := ⟨_, _⟩) hemployee]
      rfl
    refine ⟨⟨_, rfl⟩, StructuralModel.rangeOf_of_members hmembers hr, fun c hc => ?_⟩
    simp only [aboutClasses, List.mem_cons, List.not_mem_nil, or_false] at hc
    rcases hc with rfl | rfl <;> rfl

end

/-- A property whose range lists several classes has a named type, which is there in the end, and
each of the classes is that type or has a type of its own name. If nothing else is written under
the names of those that extend others, and no class is among its own ancestors, each of the classes
is that type or derives from it. -/
theorem hierarchy_of_rendered {schema : XmlSchema}
    (hkeyed : ∀ {k c}, x.model.class? k = some c → c.iri = k)
    (hblank : ∀ c ∈ x.model.classes.values, ' ' ∉ c.iri.toList)
    (h : ofModel x = .ok schema) {p : x.model.Feature} {r : x.model.Range}
    (hp : Rendered x.model stack p) (hopens : Opens p r) (hlength : 2 ≤ r.val.length) :
    (∀ s contents s', contentsOf x stack s [p] = .ok (contents, s') →
      contents = [contentOf p.val (.named (x.localName (rangeName (classList r.val))))]) ∧
    (∃ t ∈ schema.types, t.name = some (rangeName (classList r.val))) ∧
    (∀ c ∈ r.val, c.val.name = rangeName (classList r.val) ∨
      ∃ t ∈ schema.types, t.name = some c.val.name) ∧
    (Steady x r → (∃ rank : Iri → Nat, ∀ c ∈ r.val, ∀ parent ∈ c.val.inheritsFrom,
        rank parent < rank c.val.iri) →
      ∀ c ∈ r.val, c.val.name = rangeName (classList r.val) ∨
        schema.Derives (rangeName (classList r.val)) c.val.name) := by
  have hseveral : ∀ c, r.val = [c] → False := fun c hc => by simp [hc] at hlength
  obtain ⟨roots, es, s, hroots, hes, rfl, hs⟩ := exists_parts_of_ofModel h
  obtain ⟨stack', hclosed, hr⟩ := exists_closed hkeyed hblank hroots hes hp hopens hseveral
  obtain ⟨htop, hextensions, hparents⟩ := hclosed.types hseveral
  have there : ∀ {name}, s.types.contains name = true →
      ∃ t ∈ (assemble x es s).types, t.name = some name ∧ Writing x name t.item.base? := by
    intro name hname
    obtain ⟨t, ht⟩ := SortedMap.contains_iff.mp hname
    exact ⟨t, SortedMap.mem_values_iff.mpr ⟨name, ht⟩, hs.types ht⟩
  have hroles := name_or_mem_rolesOf hseveral (StructuralModel.eq_of_iri_eq hkeyed)
  refine ⟨fun s contents s' hcontents => ?_, ?_, fun c hc => ?_, fun hsteady hrank => ?_⟩
  · rw [contentsOf_eq] at hcontents
    obtain ⟨⟨t, s₁⟩, ht, hcontents⟩ := Except.bind_eq_ok.mp hcontents
    rw [featureType_of_opens hopens] at ht
    obtain ⟨rfl, -⟩ := Prod.mk.inj (Except.ok.inj hcontents)
    rw [type_of_several hseveral ht]
  · obtain ⟨t, ht, hname, -⟩ := there htop
    exact ⟨t, ht, hname⟩
  · refine (hroles c hc).imp id fun hrole => ?_
    obtain ⟨t, ht, hname, -⟩ := there (hextensions _ hrole rfl).1
    exact ⟨t, ht, hname⟩
  · obtain ⟨rank, hrank⟩ := hrank
    intro c hc
    induction hn : rank c.val.iri using Nat.strongRecOn generalizing c with
    | ind n ih =>
      refine (hroles c hc).imp id fun hrole => ?_
      obtain ⟨hname, base, hbase⟩ := hextensions _ hrole rfl
      obtain ⟨t, ht, hname, hwritten⟩ := there hname
      have hbase? := hsteady c base hrole hbase _ hwritten
      obtain rfl | ⟨d, hd, hparent, rfl⟩ :=
        baseName_cases (fun d _ => StructuralModel.class?_iri hkeyed d) (hparents c hc) hbase
      · exact .direct ht hname hbase?
      · rcases ih _ (hn ▸ hrank c hc _ hparent) d hd rfl with htop | hderives
        · rw [htop] at hbase?
          exact .direct ht hname hbase?
        · exact .through ht hname hbase? hderives

/-- An employee is a person by the types of the schema, if there are no other associations. -/
theorem hierarchy_of_rendered_staffModel : ∃ schema, ofModel (staffSource [] []) = .ok schema ∧
    ∃ (stack : List String) (p : (staffModel [] []).Feature) (r : (staffModel [] []).Range),
      Rendered (staffModel [] []) stack p ∧ Opens p r ∧ 2 ≤ r.val.length ∧
      Steady (staffSource [] []) r ∧ schema.Derives "person" "employee" := by
  obtain ⟨schema, hschema, -⟩ := exists_ofModel (x := staffSource [] []) (P := fun _ => true)
    ending 2 (by decide +kernel) (by decide +kernel)
  obtain ⟨hp, hopens⟩ := rendered_about [] [] (by decide) (by decide)
  have hsteady := steady_of_apart (x := staffSource [] []) (r := ⟨aboutClasses [] [], by decide⟩)
    (by decide +kernel)
  obtain ⟨-, -, -, hderives⟩ := hierarchy_of_rendered (x := staffSource [] [])
    (keyed_staffModel [] []) (by decide +kernel) hschema hp hopens (by decide)
  have hrank : ∀ c ∈ aboutClasses [] [], ∀ parent ∈ c.val.inheritsFrom,
      (if parent = "employee" then 1 else 0) < if c.val.iri = "employee" then 1 else 0 := by decide
  refine ⟨schema, hschema, _, _, _, hp, hopens, by decide, hsteady, ?_⟩
  have hemployee := hderives hsteady ⟨_, hrank⟩ _ (List.mem_cons_of_mem _ List.mem_cons_self)
  exact hemployee.resolve_left (by decide)

/-- Who deals with a case : an employee. -/
def clerkProperty : StructuralProperty := associationTo "clerk" ["employee"]

/-- Who stands in for an employee : an employee. -/
def deputyProperty : StructuralProperty := associationTo "deputy" ["employee"]

/-- If employees are met by themselves as well, and inside themselves, their type is written anew,
and extends nothing in the end. -/
theorem not_hierarchy_of_rendered :
    ¬ ∀ (x : Source) (schema : XmlSchema) (stack : List String) (p : x.model.Feature)
      (r : x.model.Range), x.model.Own →
      (∀ c ∈ x.model.classes.values, ∀ d ∈ x.model.classes.values, c.name = d.name → c = d) →
      (∀ {k c}, x.model.class? k = some c → c.iri = k) →
      (∀ c ∈ x.model.classes.values, ' ' ∉ c.iri.toList) → ofModel x = .ok schema →
      Rendered x.model stack p → Opens p r → 2 ≤ r.val.length →
      ∀ c ∈ r.val, c.val.name = rangeName (classList r.val) ∨
        schema.Derives (rangeName (classList r.val)) c.val.name := by
  intro h
  obtain ⟨schema, hschema, htypes⟩ := exists_ofModel
    (x := staffSource [clerkProperty] [deputyProperty])
    (P := fun schema => decide (∀ t ∈ schema.types, t.name = some "employee" → t.item.base? = none))
    ending 3 (by decide +kernel) (by decide +kernel)
  obtain ⟨hp, hopens⟩ := rendered_about [clerkProperty] [deputyProperty] (by decide) (by decide)
  have hnone : ∀ t ∈ schema.types, t.name = some "employee" → t.item.base? = none :=
    of_decide_eq_true htypes
  have hnot : ¬ schema.Derives "person" "employee" := by
    intro hderives
    cases hderives with
    | direct ht hname hbase => simp [hnone _ ht hname] at hbase
    | through ht hname hbase => simp [hnone _ ht hname] at hbase
  have hemployee := h (staffSource [clerkProperty] [deputyProperty]) schema _ _ _
    (by decide +kernel) (by decide +kernel) (keyed_staffModel _ _) (by decide +kernel) hschema hp
    hopens (by decide) _ (List.mem_cons_of_mem _ List.mem_cons_self)
  exact hnot (hemployee.resolve_left (by decide))

end DataSpec.XmlSchema
