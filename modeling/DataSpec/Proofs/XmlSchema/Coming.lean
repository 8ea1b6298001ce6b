import DataSpec.Proofs.Structural.Openings
import DataSpec.Proofs.XmlSchema.Opening
import DataSpec.Proofs.XmlSchema.Uses

/-!
# What a schema has and what is to come

References are written before what they refer to is there. While ranges are open, a name may
stand for a type that is still to come (`Coming`) : that of a range of the stack which was met
inside itself, or one that was promised, as the bases are before the types of a hierarchy.
`Sound` is what holds of the parts of a schema throughout : all that they refer to is there or
is to come (`Known`). `Made` says that a step of an expansion keeps this, and adds.

A promise is kept when the types are there (`Coming.keep`). When a range is closed that was
met inside itself, its type has to be there (`Coming.close`); this takes it that ranges of the
same key have the same name (`KeysTell`). The key lists the identifiers of the classes with
blanks between them, so that it tells the range unless there are blanks in identifiers
(`keysTell_of_no_blank`).
-/

set_option autoImplicit false

namespace DataSpec

namespace StructuralModel

/-- A model in which ranges of the same key have the same name. -/
def KeysTell (m : StructuralModel) : Prop :=
  ∀ cs ∈ m.openings, ∀ cs' ∈ m.openings, rangeKey cs = rangeKey cs' →
    XmlSchema.rangeName cs = XmlSchema.rangeName cs'

/-- A model that has no classes of other schemas. -/
def Own (m : StructuralModel) : Prop := ∀ c ∈ m.classes.values, m.isForeign c = false

instance (m : StructuralModel) : Decidable m.Own := inferInstanceAs (Decidable (∀ _ ∈ _, _))

variable {m : StructuralModel}

/-- What is opened is known by its identifiers. -/
theorem class?_of_mem_openings (hm : m.Named) {cs : List StructuralClass} (h : cs ∈ m.openings)
    {c : StructuralClass} (hc : c ∈ cs) : m.class? c.iri = some c := by
  have named : ∀ {iri}, m.Names iri → m.class? iri = some c → m.class? c.iri = some c := by
    rintro iri ⟨c', hc', hiri⟩ hget
    obtain rfl := Option.some.inj (hc'.symm.trans hget)
    rwa [hiri]
  rcases exists_of_mem_openings h with ⟨iri, hiri, c', hc', rfl⟩ | ⟨p, hp, -, ms, hms, rfl⟩
  · obtain rfl := List.mem_singleton.mp hc
    exact named (hm.roots iri hiri) hc'
  · obtain ⟨c', hc', hpc⟩ := List.mem_flatMap.mp hp
    obtain ⟨d, hd, rfl⟩ := List.mem_map.mp hc
    obtain ⟨iri, hiri, hmember⟩ := exists_of_mem_members hms hd
    exact named (hm.types c' hc' p hpc iri hiri) (class?_of_member hmember)

/-- Classes of one range with the same identifier are the same class. -/
theorem eq_of_mem_openings (hm : m.Named) {cs : List StructuralClass} (h : cs ∈ m.openings)
    {c d : StructuralClass} (hc : c ∈ cs) (hd : d ∈ cs) (hiri : c.iri = d.iri) : c = d := by
  have hget := class?_of_mem_openings hm h hc
  rw [hiri, class?_of_mem_openings hm h hd] at hget
  exact (Option.some.inj hget).symm

theorem mem_values_of_mem_openings {cs : List StructuralClass} (h : cs ∈ m.openings)
    {c : StructuralClass} (hc : c ∈ cs) : c ∈ m.classes.values := by
  rcases exists_of_mem_openings h with ⟨iri, -, c', hc', rfl⟩ | ⟨p, -, -, ms, -, rfl⟩
  · obtain rfl := List.mem_singleton.mp hc
    exact mem_values_of_class? hc'
  · obtain ⟨d, -, rfl⟩ := List.mem_map.mp hc
    exact d.property

/-- Classes that are known by their identifiers are told by the key of their range, unless there
are blanks in identifiers. -/
theorem eq_of_rangeKey_eq {cs cs' : List StructuralClass} (hne : cs ≠ []) (hne' : cs' ≠ [])
    (h : ∀ c ∈ cs, m.class? c.iri = some c ∧ ' ' ∉ c.iri.toList)
    (h' : ∀ c ∈ cs', m.class? c.iri = some c ∧ ' ' ∉ c.iri.toList)
    (heq : rangeKey cs = rangeKey cs') : cs = cs' := by
  have hiris := iris_of_rangeKey_eq hne hne' (fun c hc => (h c hc).2) (fun c hc => (h' c hc).2) heq
  have classes : ∀ {cs : List StructuralClass}, (∀ c ∈ cs, m.class? c.iri = some c) →
      (cs.map StructuralClass.iri).map m.class? = cs.map some := by
    intro cs h
    rw [List.map_map]
    exact List.map_congr_left h
  have hsome : cs.map some = cs'.map some := by
    rw [← classes fun c hc => (h c hc).1, ← classes fun c hc => (h' c hc).1, hiris]
  exact List.map_injective_iff.mpr (fun _ _ => Option.some.inj) hsome

/-- Ranges of the same key are the same unless identifiers have blanks in them. -/
theorem keysTell_of_no_blank (hm : m.Named)
    (hblank : ∀ c ∈ m.classes.values, ' ' ∉ c.iri.toList) : m.KeysTell := by
  intro cs hcs cs' hcs' heq
  have known : ∀ {cs}, cs ∈ m.openings → ∀ c ∈ cs, m.class? c.iri = some c ∧ ' ' ∉ c.iri.toList :=
    fun hcs c hc =>
      ⟨class?_of_mem_openings hm hcs hc, hblank c (mem_values_of_mem_openings hcs hc)⟩
  rw [eq_of_rangeKey_eq (ne_nil_of_mem_openings hcs) (ne_nil_of_mem_openings hcs') (known hcs)
    (known hcs') heq]

end StructuralModel

namespace XmlSchema

variable {x : Source}

/-! ## What is there and what is to come -/

section

variable (x) (stack promised : List String) (s : Parts)

/-- How a name stands for a type that is there or is to come. -/
inductive Coming (name : String) : Prop
  | there (h : s.types.contains name = true)
  | langString (hname : name = "langString") (h : s.usesLangString = true)
  | promised (h : name ∈ promised)
  | met (cs : List StructuralClass) (hcs : cs ∈ x.model.openings) (hopen : rangeKey cs ∈ stack)
    (hmet : s.recursive.contains (rangeKey cs) = true) (hname : name = rangeName cs)

/-- Whether what is referred to is there or is to come. -/
def Known : Use → Prop
  | .type q => q.qualifier = x.model.xmlPrefix → Coming x stack promised s q.name
  | .group q => q.qualifier = x.model.xmlPrefix ∧ s.groups.contains q.name = true

/-- What holds of the parts of a schema while ranges are open. -/
structure Sound : Prop where
  name : ∀ {name t}, s.types.get? name = some t → t.name = some name
  types : ∀ {name t}, s.types.get? name = some t → ∀ u ∈ t.uses, Known x stack promised s u
  groups : ∀ {name cs}, s.groups.get? name = some cs →
    ∀ u ∈ contentsUses cs, Known x stack promised s u

end

/-- Parts to which something was added. -/
structure Grown (s s' : Parts) : Prop where
  types : ∀ {name}, s.types.contains name = true → s'.types.contains name = true
  groups : ∀ {name}, s.groups.contains name = true → s'.groups.contains name = true
  recursive : ∀ {key}, s.recursive.contains key = true → s'.recursive.contains key = true
  usesLangString : s.usesLangString = true → s'.usesLangString = true

/-- What a step of an expansion makes of parts, if something that was written has `uses`. -/
structure Made (x : Source) (stack promised : List String) (s s' : Parts) (uses : List Use) :
    Prop where
  grown : Grown s s'
  sound : Sound x stack promised s'
  known : ∀ u ∈ uses, Known x stack promised s' u

variable {stack stack' promised promised' : List String} {s s' s'' : Parts} {u : Use}
  {uses uses' : List Use} {name : String}

theorem Grown.refl (s : Parts) : Grown s s := ⟨id, id, id, id⟩

theorem Grown.trans (h : Grown s s') (h' : Grown s' s'') : Grown s s'' :=
  ⟨h'.types ∘ h.types, h'.groups ∘ h.groups, h'.recursive ∘ h.recursive,
    h'.usesLangString ∘ h.usesLangString⟩

/-- A type that is there or to come still is when parts have grown. -/
theorem Coming.grow (h : Coming x stack promised s name) (hg : Grown s s') :
    Coming x stack promised s' name := by
  cases h with
  | there h => exact .there (hg.types h)
  | langString hname h => exact .langString hname (hg.usesLangString h)
  | promised h => exact .promised h
  | met cs hcs hopen hmet hname => exact .met cs hcs hopen (hg.recursive hmet) hname

/-- What was known still is, if all names that stood for something still do. -/
theorem Known.transport (h : Known x stack promised s u)
    (hg : ∀ {name}, s.groups.contains name = true → s'.groups.contains name = true)
    (hc : ∀ {name}, Coming x stack promised s name → Coming x stack' promised' s' name) :
    Known x stack' promised' s' u := by
  cases u with
  | type q => exact fun hq => hc (h hq)
  | group q => exact ⟨h.1, hg h.2⟩

/-- A use that is known is still known when parts have grown. -/
theorem Known.grow (h : Known x stack promised s u) (hg : Grown s s') :
    Known x stack promised s' u :=
  h.transport hg.groups fun hc => hc.grow hg

theorem Sound.transport (h : Sound x stack promised s)
    (hc : ∀ {name}, Coming x stack promised s name → Coming x stack' promised' s name) :
    Sound x stack' promised' s where
  name := h.name
  types ht u hu := (h.types ht u hu).transport id hc
  groups hs u hu := (h.groups hs u hu).transport id hc

/-- Nothing is made where nothing changes. -/
theorem made_self (hs : Sound x stack promised s) : Made x stack promised s s [] :=
  ⟨.refl s, hs, nofun⟩

theorem Made.transport (h : Made x stack promised s s' uses)
    (hc : ∀ {name}, Coming x stack promised s' name → Coming x stack' promised' s' name) :
    Made x stack' promised' s s' uses :=
  ⟨h.grown, h.sound.transport hc, fun u hu => (h.known u hu).transport id hc⟩

/-- What is made in two steps uses what each of them does. -/
theorem Made.trans (h : Made x stack promised s s' uses)
    (h' : Made x stack promised s' s'' uses') :
    Made x stack promised s s'' (uses ++ uses') where
  grown := h.grown.trans h'.grown
  sound := h'.sound
  known u hu := (List.mem_append.mp hu).elim (fun hu => (h.known u hu).grow h'.grown) (h'.known u)

/-- The uses of a step may be listed otherwise, if they are known after it. -/
theorem Made.known_of (h : Made x stack promised s s' uses)
    (hk : ∀ u ∈ uses', Known x stack promised s' u) : Made x stack promised s s' uses' :=
  ⟨h.grown, h.sound, hk⟩

/-- More may be promised at any time, and more may be opened. -/
theorem Coming.mono (h : Coming x stack promised s name) (hs : stack ⊆ stack')
    (hp : promised ⊆ promised') : Coming x stack' promised' s name := by
  cases h with
  | there h => exact .there h
  | langString hname h => exact .langString hname h
  | promised h => exact .promised (hp h)
  | met cs hcs hopen hmet hname => exact .met cs hcs (hs hopen) hmet hname

/-- With more promised, as much is to come. -/
theorem Coming.promise (h : Coming x stack promised s name) (names : List String) :
    Coming x stack (names ++ promised) s name :=
  h.mono (List.Subset.refl _) (List.subset_append_right names promised)

theorem Sound.promise (h : Sound x stack promised s) (names : List String) :
    Sound x stack (names ++ promised) s := h.transport fun hc => hc.promise names

theorem Made.promise (h : Made x stack promised s s' uses) (names : List String) :
    Made x stack (names ++ promised) s s' uses := h.transport fun hc => hc.promise names

/-- Parts are as sound when one more range is open. -/
theorem Sound.open (h : Sound x stack promised s) (key : String) :
    Sound x (key :: stack) promised s :=
  h.transport fun hc => hc.mono (List.subset_cons_self key stack) (List.Subset.refl _)

/-- A promise is kept when the types are there. -/
theorem Coming.keep {names : List String} (h : Coming x stack (names ++ promised) s name)
    (hn : ∀ name ∈ names, Coming x stack promised s name) : Coming x stack promised s name := by
  cases h with
  | there h => exact .there h
  | langString hname h => exact .langString hname h
  | promised h =>
    rcases List.mem_append.mp h with h | h
    · exact hn name h
    · exact .promised h
  | met cs hcs hopen hmet hname => exact .met cs hcs hopen hmet hname

/-- When a range is closed that was met inside itself, its type has to be there. -/
theorem Coming.close {cs : List StructuralClass} (hk : x.model.KeysTell)
    (hcs : cs ∈ x.model.openings) (h : Coming x (rangeKey cs :: stack) promised s name)
    (ht : s.recursive.contains (rangeKey cs) = true → s.types.contains (rangeName cs) = true) :
    Coming x stack promised s name := by
  cases h with
  | there h => exact .there h
  | langString hname h => exact .langString hname h
  | promised h => exact .promised h
  | met cs' hcs' hopen hmet hname =>
    rcases List.mem_cons.mp hopen with heq | hopen
    · rw [hname, hk cs' hcs' cs hcs heq]
      rw [heq] at hmet
      exact .there (ht hmet)
    · exact .met cs' hcs' hopen hmet hname

/-! ## Adding types and groups -/

/-- Types of the standard are known, unless the prefix is taken. -/
theorem known_xs (hx : x.model.xmlPrefix ≠ some "xs") (name : String) :
    Known x stack promised s (.type (.xs name)) := fun hq => absurd hq.symm hx

/-- A name in the schema is known if it is there or to come. -/
theorem known_localName (h : Coming x stack promised s name) :
    Known x stack promised s (.type (x.localName name)) := fun _ => h

theorem grown_addType (s : Parts) (name : String) (t : ComplexType) :
    Grown s { s with types := s.types.insert name t } :=
  ⟨fun h => by simp [h], id, id, id⟩

theorem Sound.addType (h : Sound x stack promised s) {t : ComplexType} (hn : t.name = some name)
    (ht : ∀ u ∈ t.uses, Known x stack promised s u) :
    Sound x stack promised { s with types := s.types.insert name t } where
  name {name' t'} hget := by
    rw [SortedMap.get?_insert] at hget
    split at hget
    · obtain rfl := Option.some.inj hget
      subst name'
      exact hn
    · exact h.name hget
  types {name' t'} hget u hu := by
    rw [SortedMap.get?_insert] at hget
    split at hget
    · obtain rfl := Option.some.inj hget
      exact (ht u hu).grow (grown_addType s name t)
    · exact (h.types hget u hu).grow (grown_addType s name t)
  groups hget u hu := (h.groups hget u hu).grow (grown_addType s name t)

theorem grown_addGroup (s : Parts) (name : String) (cs : List Content) :
    Grown s (s.addGroup name cs) :=
  ⟨id, fun h => by simp [Parts.addGroup, h], id, id⟩

theorem Sound.addGroup (h : Sound x stack promised s) {cs : List Content}
    (hcs : ∀ u ∈ contentsUses cs, Known x stack promised s u) :
    Sound x stack promised (s.addGroup name cs) where
  name := h.name
  types hget u hu := (h.types hget u hu).grow (grown_addGroup s name cs)
  groups {name' cs'} hget u hu := by
    rw [Parts.addGroup, SortedMap.get?_insert] at hget
    split at hget
    · obtain rfl := Option.some.inj hget
      exact (hcs u hu).grow (grown_addGroup s name cs)
    · exact (h.groups hget u hu).grow (grown_addGroup s name cs)

/-- A type of a name has been added. -/
theorem Made.addType (h : Made x stack promised s s' uses) {t : ComplexType}
    (hn : t.name = some name) (ht : ∀ u ∈ t.uses, Known x stack promised s' u) :
    Made x stack promised s { s' with types := s'.types.insert name t }
      (.type (x.localName name) :: uses) where
  grown := h.grown.trans (grown_addType s' name t)
  sound := h.sound.addType hn ht
  known u hu := by
    rcases List.mem_cons.mp hu with rfl | hu
    · exact known_localName (.there (by simp))
    · exact (h.known u hu).grow (grown_addType s' name t)

/-- A group of what was written has been added. -/
theorem Made.addGroup {cs : List Content} (h : Made x stack promised s s' (contentsUses cs))
    (name : String) :
    Made x stack promised s (s'.addGroup name cs) [.group (x.localName name)] where
  grown := h.grown.trans (grown_addGroup s' name cs)
  sound := h.sound.addGroup h.known
  known u hu := by
    obtain rfl := List.mem_singleton.mp hu
    exact ⟨rfl, by simp [Parts.addGroup, Source.localName]⟩

end XmlSchema

end DataSpec
