import DataSpec.Proofs.JsonSchema.Inlining
import DataSpec.Proofs.XmlSchema.Coming
import DataSpec.Proofs.XmlSchema.Nesting

/-!
# References of schemas

In the schema of a model without classes of other schemas, all references resolve, whatever
the settings are (`resolves_ofModel`). Each part of an expansion keeps what holds of the parts
of the schema : if opening a range does (`Keeps`), then so do properties, classes and whole
hierarchies, and so does opening a range (`keeps_typeOf`), by the ranges that are not open. In
the end nothing is open, so nothing is to come any more.

Ranges have to be told apart by their keys; without that assumption there are references to
nothing (`not_resolves_blankModel`).
-/

set_option autoImplicit false

namespace DataSpec

namespace XmlSchema

variable {x : Source} {stack promised : List String} {s s' s'' : Parts} {u : Use} {name : String}

/-! ## Datatypes -/

/-- What a value of a datatype refers to. -/
theorem valueName_cases (d : Option Iri) :
    (∃ name, x.valueName d = .xs name) ∨
      x.valueName d = x.localName "langString" ∧ Source.isLangString d = true := by
  cases d with
  | none => exact Or.inl ⟨_, rfl⟩
  | some iri =>
    rw [Source.valueName]
    split
    · exact Or.inl ⟨_, rfl⟩
    · cases hd : Datatype.ofIri? iri with
      | none => exact Or.inl ⟨_, rfl⟩
      | some d =>
        cases d
        case text => exact Or.inr ⟨rfl, by simp [Source.isLangString, hd]⟩
        all_goals exact Or.inl ⟨_, rfl⟩

theorem uses_datatypesType (ds : List (Option Iri)) :
    (x.datatypesType ds).uses = ds.map fun d => .type (x.valueName d) := by
  rcases ds with _ | ⟨d, _ | ⟨d', ds⟩⟩ <;>
    simp [Source.datatypesType, ElementType.uses, Function.comp_def]

theorem made_datatypes (hx : x.model.xmlPrefix ≠ some "xs") (hs : Sound x stack promised s)
    (ds : List (Option Iri)) :
    Made x stack promised s
      { s with usesLangString := s.usesLangString || ds.any Source.isLangString }
      (x.datatypesType ds).uses := by
  have hg : Grown s { s with usesLangString := s.usesLangString || ds.any Source.isLangString } :=
    ⟨id, id, id, fun h => by simp [h]⟩
  refine ⟨hg, ⟨hs.name, fun hget u hu => (hs.types hget u hu).grow hg,
    fun hget u hu => (hs.groups hget u hu).grow hg⟩, fun u hu => ?_⟩
  rw [uses_datatypesType] at hu
  obtain ⟨d, hd, rfl⟩ := List.mem_map.mp hu
  rcases valueName_cases (x := x) d with ⟨name, hname⟩ | ⟨hname, hlang⟩
  · rw [hname]
    exact known_xs hx name
  · rw [hname]
    refine known_localName (.langString rfl ?_)
    simp only [Bool.or_eq_true, List.any_eq_true]
    exact Or.inr ⟨d, hd, hlang⟩

/-! ## Classes of a range -/

theorem isTop_eq_ok {iris : List Iri} {c : StructuralClass} {top : Bool}
    (h : isTop iris c = .ok top) :
    top = c.inheritsFrom.isEmpty ∧ ∀ parent ∈ c.inheritsFrom, parent ∈ iris := by
  unfold isTop at h
  split at h
  · rename_i hnone
    rw [hnone]
    exact ⟨(Except.ok.inj h).symm, nofun⟩
  · rename_i parent hparent
    rw [hparent]
    split at h
    · exact ⟨(Except.ok.inj h).symm, fun p hp => List.mem_singleton.mp hp ▸ ‹_›⟩
    · simp at h
  · simp at h

/-- The classes of a range that have no parent; the parents of the others are in the range. -/
theorem tops_eq_ok {m : StructuralModel} {iris : List Iri} :
    ∀ {cs roots : List m.Member}, tops iris cs = .ok roots →
      roots = cs.filter (fun c => c.val.inheritsFrom.isEmpty) ∧
        ∀ c ∈ cs, ∀ parent ∈ c.val.inheritsFrom, parent ∈ iris
  | [], roots, h => ⟨(Except.ok.inj h).symm, nofun⟩
  | c :: rest, roots, h => by
    rw [tops] at h
    split at h
    · simp at h
    · rename_i top htop
      split at h
      · simp at h
      · rename_i roots' hroots
        obtain ⟨rfl, hparents⟩ := isTop_eq_ok htop
        obtain ⟨rfl, hrest⟩ := tops_eq_ok hroots
        refine ⟨?_, List.forall_mem_cons.mpr ⟨hparents, hrest⟩⟩
        rw [List.filter_cons]
        exact (Except.ok.inj h).symm

/-- The base of a class of a range is the type above the range or that of another class, which is
the parent. -/
theorem baseName_cases {m : StructuralModel} {cs : List m.Member}
    (hcs : ∀ c ∈ cs, m.class? c.val.iri = some c.val) {c : StructuralClass} {top base : String}
    (hparents : ∀ parent ∈ c.inheritsFrom, parent ∈ cs.map fun c => c.val.iri)
    (h : baseName m top c = .ok base) :
    base = top ∨ ∃ c' ∈ cs, c'.val.iri ∈ c.inheritsFrom ∧ c'.val.name = base := by
  unfold baseName at h
  split at h
  · exact Or.inl (Except.ok.inj h).symm
  · rename_i parent hparent
    obtain ⟨d, hd, rfl⟩ := Except.map_eq_ok.mp h
    have hmem := List.mem_of_head? hparent
    obtain ⟨c', hc', rfl⟩ := List.mem_map.mp (hparents parent hmem)
    have hget := hcs c' hc'
    rw [StructuralModel.class?_of_requireClass hd] at hget
    exact Or.inr ⟨c', hc', hmem, by rw [Option.some.inj hget]⟩

/-- The base of a class of a range is to come with the types of the range. -/
theorem mem_of_baseName {m : StructuralModel} (hm : m.Named) {cs : List m.Member}
    (hcs : StructuralModel.classList cs ∈ m.openings) {c : StructuralClass} {top base : String}
    (hparents : ∀ parent ∈ c.inheritsFrom, parent ∈ cs.map fun c => c.val.iri)
    (h : baseName m top c = .ok base) :
    base ∈ cs.map (fun c => c.val.name) ++ top :: promised := by
  have known : ∀ c ∈ cs, m.class? c.val.iri = some c.val := fun c hc =>
    StructuralModel.class?_of_mem_openings hm hcs (List.mem_map_of_mem hc)
  rcases baseName_cases known hparents h with rfl | ⟨c', hc', -, rfl⟩
  · exact List.mem_append_right _ List.mem_cons_self
  · exact List.mem_append_left _ (List.mem_map_of_mem hc')

theorem topName_classList {m : StructuralModel} :
    ∀ {roots : List m.Member}, (∀ top, roots = [top] → False) →
      topName (StructuralModel.classList roots) = joinedName (StructuralModel.classList roots)
  | [], _ => rfl
  | [top], h => (h top rfl).elim
  | _ :: _ :: _, _ => rfl

/-! ## Steps of an expansion -/

/-- An opening of the ranges of associations that keeps what holds of the parts. -/
def Keeps (stack : List String) (opening : Opening x) : Prop :=
  ∀ {promised s r t s'}, StructuralModel.classList r.val ∈ x.model.openings →
    Sound x stack promised s → opening s r = .ok (t, s') → Made x stack promised s s' t.uses

section Steps

variable {opening : Opening x} {role : Role} {c : x.model.Member}

variable (hx : x.model.xmlPrefix ≠ some "xs") (ho : Keeps stack opening)
include hx ho

theorem made_featureType (hs : Sound x stack promised s) {p : x.model.Feature} {t : ElementType}
    (h : featureType opening s p = .ok (t, s')) : Made x stack promised s s' t.uses := by
  unfold featureType at h
  split at h
  · simp at h
  · obtain ⟨rfl, rfl⟩ := Prod.mk.inj (Except.ok.inj h)
    exact made_datatypes hx hs _
  · rename_i iris hp
    obtain ⟨r, hr, h⟩ := Except.bind_eq_ok.mp h
    split at h
    · exact ho (StructuralModel.mem_openings_of_rangeOf hp hr) hs h
    · split at h
      · obtain ⟨rfl, rfl⟩ := Prod.mk.inj (Except.ok.inj h)
        exact (made_self hs).known_of fun u hu => List.mem_singleton.mp hu ▸ known_xs hx _
      · simp at h

theorem made_contentsWith :
    ∀ {ps : List x.model.Feature} {s cs s'}, Sound x stack promised s →
      contentsWith opening s ps = .ok (cs, s') → Made x stack promised s s' (contentsUses cs)
  | [], s, cs, s', hs, h => by
    obtain ⟨rfl, rfl⟩ := Prod.mk.inj (Except.ok.inj h)
    exact made_self hs
  | p :: rest, s, cs, s', hs, h => by
    obtain ⟨⟨t, s₁⟩, ht, h⟩ := Except.bind_eq_ok.mp h
    obtain ⟨⟨cs', s₂⟩, hrest, h⟩ := Except.bind_eq_ok.mp h
    obtain ⟨rfl, rfl⟩ := Prod.mk.inj (Except.ok.inj h)
    have hmade := made_featureType hx ho hs ht
    exact hmade.trans (made_contentsWith hmade.sound hrest)

variable (hown : x.model.Own)
include hown

theorem made_itemWith (hs : Sound x stack promised s) {item : Item}
    (h : itemWith opening s role c = .ok (item, s')) : Made x stack promised s s' item.uses := by
  unfold itemWith at h
  rw [hown c.val c.property, if_neg Bool.false_ne_true] at h
  obtain ⟨⟨cs, s₁⟩, hcs, h⟩ := Except.bind_eq_ok.mp h
  have hmade := made_contentsWith hx ho hs hcs
  have hlead : Made x stack promised s s₁ (contentsUses (role.lead ++ cs)) := by
    refine hmade.known_of fun u hu => ?_
    rw [contentsUses_append] at hu
    rcases List.mem_append.mp hu with hu | hu
    · unfold Role.lead at hu
      split at hu
      · simp [contentsUses] at hu
      · obtain rfl : u = .type (.xs "anyURI") := by
          simpa [contentsUses, iriContent, Content.uses, Element.uses, ElementType.uses] using hu
        exact known_xs hx _
    · exact hmade.known u hu
  have h := Except.ok.inj h
  unfold closeClass at h
  split at h
  · obtain ⟨rfl, rfl⟩ := Prod.mk.inj h
    exact hlead.addGroup _
  · obtain ⟨rfl, rfl⟩ := Prod.mk.inj h
    exact hlead

/-- The types of a hierarchy are added, given that their bases are to come. -/
theorem made_extendWith {top : String} :
    ∀ {cs : List x.model.Member} {s s' : Parts}, Sound x stack promised s →
      (∀ c ∈ cs, ∀ base, baseName x.model top c.val = .ok base → base ∈ promised) →
      extendWith opening s top cs = .ok s' →
        Made x stack promised s s' [] ∧ ∀ c ∈ cs, s'.types.contains c.val.name = true
  | [], s, s', hs, _, h => by
    obtain rfl := Except.ok.inj h
    exact ⟨made_self hs, List.forall_mem_nil _⟩
  | c :: rest, s, s', hs, hbases, h => by
    obtain ⟨⟨item, s₁⟩, hitem, h⟩ := Except.bind_eq_ok.mp h
    obtain ⟨base, hbase, h⟩ := Except.bind_eq_ok.mp h
    have hmade := made_itemWith hx ho hown hs hitem
    have hadded := hmade.addType
      (t := ⟨some c.val.name, false, none, .extension (x.localName base) [.once item]⟩) rfl
      fun u hu => by
        have hu : u = .type (x.localName base) ∨ u ∈ item.uses := by
          simpa [ComplexType.uses, Item.uses, contentsUses, Content.once, Content.uses] using hu
        rcases hu with rfl | hu
        · exact known_localName (.promised (hbases c List.mem_cons_self base hbase))
        · exact hmade.known u hu
    obtain ⟨hrest, hnames⟩ := made_extendWith hadded.sound
      (fun c hc => hbases c (List.mem_cons_of_mem _ hc)) h
    refine ⟨(hadded.trans hrest).known_of (List.forall_mem_nil _), fun c' hc' => ?_⟩
    rcases List.mem_cons.mp hc' with rfl | hc'
    · exact hrest.grown.types (by simp)
    · exact hnames c' hc'

variable (hm : x.model.Named)
include hm

/-- What several classes under one of them consist of; the type of that one is to come. -/
theorem made_hierarchyWith_singleton {cs : List x.model.Member} {top : x.model.Member}
    (hcs : StructuralModel.classList cs ∈ x.model.openings) (htop : top ∈ cs)
    (hparents : ∀ c ∈ cs, ∀ parent ∈ c.val.inheritsFrom, parent ∈ cs.map fun c => c.val.iri)
    (hs : Sound x stack promised s) {b : Body}
    (h : hierarchyWith opening s cs [top] = .ok (b, s')) :
    b.name = some top.val.name ∧ Made x stack (top.val.name :: promised) s s' b.item.uses := by
  unfold hierarchyWith at h
  obtain ⟨⟨item, s₁⟩, hitem, h⟩ := Except.bind_eq_ok.mp h
  obtain ⟨s₂, hextend, h⟩ := Except.bind_eq_ok.mp h
  obtain ⟨rfl, rfl⟩ := Prod.mk.inj (Except.ok.inj h)
  have hmade := made_itemWith hx ho hown
    ((hs.promise [top.val.name]).promise (cs.map fun c => c.val.name)) hitem
  obtain ⟨hmade', hnames⟩ := made_extendWith hx ho hown hmade.sound
    (fun c hc _ => mem_of_baseName hm hcs (hparents c (List.mem_filter.mp hc).1)) hextend
  refine ⟨rfl, ((hmade.trans hmade').known_of fun u hu => ?_).transport fun hc =>
    hc.keep fun name hname => ?_⟩
  · exact (hmade.trans hmade').known u (List.mem_append_left _ hu)
  -- A class of the same identifier is the top itself.
  · obtain ⟨c, hc, rfl⟩ := List.mem_map.mp hname
    by_cases hiri : c.val.iri = top.val.iri
    · rw [StructuralModel.eq_of_mem_openings hm hcs (List.mem_map_of_mem hc)
        (List.mem_map_of_mem htop) hiri]
      exact .promised List.mem_cons_self
    · exact .there (hnames c (List.mem_filter.mpr ⟨hc, by simpa using hiri⟩))

/-- What several classes without a common top consist of; the type made for them all is to
come. -/
theorem made_hierarchyWith_several {cs roots : List x.model.Member}
    (hroots : ∀ top, roots = [top] → False)
    (hcs : StructuralModel.classList cs ∈ x.model.openings)
    (hparents : ∀ c ∈ cs, ∀ parent ∈ c.val.inheritsFrom, parent ∈ cs.map fun c => c.val.iri)
    (hs : Sound x stack promised s) {b : Body}
    (h : hierarchyWith opening s cs roots = .ok (b, s')) :
    b.name = some (joinedName (StructuralModel.classList roots)) ∧
      Made x stack (joinedName (StructuralModel.classList roots) :: promised) s s'
        b.item.uses := by
  rw [hierarchyWith.eq_2 _ _ _ _ hroots] at h
  obtain ⟨s₁, hextend, h⟩ := Except.bind_eq_ok.mp h
  obtain ⟨rfl, rfl⟩ := Prod.mk.inj (Except.ok.inj h)
  obtain ⟨hmade, hnames⟩ := made_extendWith hx ho hown
    ((hs.promise [joinedName (StructuralModel.classList roots)]).promise
      (cs.map fun c => c.val.name))
    (fun c hc _ => mem_of_baseName hm hcs (hparents c hc)) hextend
  refine ⟨rfl, (hmade.known_of fun u hu => ?_).transport fun hc => hc.keep fun name hname => ?_⟩
  · obtain rfl : u = .type (.xs "anyURI") := by
      simpa [Item.uses, contentsUses, iriContent, Content.uses, Element.uses, ElementType.uses]
        using hu
    exact known_xs hx _
  · obtain ⟨c, hc, rfl⟩ := List.mem_map.mp hname
    exact .there (hnames c hc)

/-- What several classes consist of; the type above them is to come. -/
theorem made_hierarchyWith {cs roots : List x.model.Member}
    (hcs : StructuralModel.classList cs ∈ x.model.openings)
    (hroots : tops (cs.map fun c => c.val.iri) cs = .ok roots) (hs : Sound x stack promised s)
    {b : Body} (h : hierarchyWith opening s cs roots = .ok (b, s')) :
    b.name = some (topName (StructuralModel.classList roots)) ∧
      Made x stack (topName (StructuralModel.classList roots) :: promised) s s' b.item.uses := by
  obtain ⟨hfilter, hparents⟩ := tops_eq_ok hroots
  by_cases hone : ∃ top, roots = [top]
  · obtain ⟨top, rfl⟩ := hone
    have htop : top ∈ cs := (List.mem_filter.mp (hfilter ▸ List.mem_singleton_self top)).1
    exact made_hierarchyWith_singleton hx ho hown hm hcs htop hparents hs h
  · have hseveral : ∀ top, roots = [top] → False := fun top htop => hone ⟨top, htop⟩
    rw [topName_classList hseveral]
    exact made_hierarchyWith_several hx ho hown hm hseveral hcs hparents hs h

/-- What a range consists of; if it has a name, its type is to come. -/
theorem made_bodyWith {cs : List x.model.Member}
    (hcs : StructuralModel.classList cs ∈ x.model.openings) (hs : Sound x stack promised s)
    {b : Body} (h : bodyWith opening s cs = .ok (b, s')) :
    (∀ name, b.name = some name → name = rangeName (StructuralModel.classList cs)) ∧
      Made x stack (b.name.toList ++ promised) s s' b.item.uses := by
  unfold bodyWith at h
  split at h
  · rename_i c
    obtain ⟨⟨item, s₁⟩, hitem, h⟩ := Except.bind_eq_ok.mp h
    obtain ⟨rfl, rfl⟩ := Prod.mk.inj (Except.ok.inj h)
    refine ⟨fun name hname => ?_, (made_itemWith hx ho hown hs hitem).promise _⟩
    split at hname
    · exact (Option.some.inj hname).symm
    · simp at hname
  · rename_i hseveral
    obtain ⟨roots, hroots, h⟩ := Except.bind_eq_ok.mp h
    obtain ⟨hname, hmade⟩ := made_hierarchyWith hx ho hown hm hcs hroots hs h
    refine ⟨fun name hn => ?_, by simpa [hname] using hmade⟩
    rw [hname] at hn
    rw [← Option.some.inj hn, (tops_eq_ok hroots).1]
    rcases cs with _ | ⟨c, _ | ⟨c', cs⟩⟩
    · rfl
    · exact absurd rfl (hseveral c)
    · simp [rangeName, StructuralModel.classList]

end Steps

/-- When a range is closed, nothing more of it is to come. -/
theorem made_closeRange (hk : x.model.KeysTell) {cs : List StructuralClass}
    (hcs : cs ∈ x.model.openings) {b : Body} {t : ElementType}
    (hname : ∀ name, b.name = some name → name = rangeName cs)
    (hmade : Made x (rangeKey cs :: stack) (b.name.toList ++ promised) s s' b.item.uses)
    (h : closeRange x s' cs b = (t, s'')) :
    Made x stack promised s s'' (t.uses ++ b.item.uses) := by
  unfold closeRange at h
  cases hor : b.name.or
    (if s'.recursive.contains (rangeKey cs) then some (rangeName cs) else none) with
  | some name =>
    simp only [hor] at h
    obtain ⟨rfl, rfl⟩ := Prod.mk.inj h
    have hadded := hmade.addType (t := ⟨some name, b.isAbstract, none, b.item⟩) rfl
      hmade.known
    have heq : name = rangeName cs := by
      rcases Option.or_eq_some_iff.mp hor with hb | ⟨-, hrec⟩
      · exact hname name hb
      · split at hrec
        · exact (Option.some.inj hrec).symm
        · simp at hrec
    have hthere : (s'.addType name b.isAbstract b.item).types.contains (rangeName cs) = true := by
      simp [Parts.addType, heq]
    refine hadded.transport fun hc => (hc.close hk hcs fun _ => hthere).keep fun name hn => ?_
    rw [hname name (Option.mem_toList.mp hn)]
    exact .there hthere
  | none =>
    simp only [hor] at h
    obtain ⟨rfl, rfl⟩ := Prod.mk.inj h
    obtain ⟨hnone, hrec⟩ := Option.or_eq_none_iff.mp hor
    rw [hnone] at hmade
    have hclosed : Made x stack promised s s' b.item.uses :=
      hmade.transport fun hc => hc.close hk hcs fun hmet => by simp [hmet] at hrec
    exact hclosed.known_of fun u hu => hclosed.known u ((List.mem_append.mp hu).elim id id)

/-! ## Root elements -/

/-- The type of a root element, with a group if the settings ask for it. -/
def groupedRoot (x : Source) (s : Parts) (name : String) (t : ComplexType) :
    ComplexType × Parts :=
  if x.rootClass.extractGroup then
    ({ t with item := .group (x.localName name) }, s.addGroup name [.once t.item])
  else (t, s)

/-- The type of a root element, with a name if the settings ask for it. -/
def namedRoot (x : Source) (s : Parts) (name : String) (t : ComplexType) : ElementType × Parts :=
  if x.rootClass.extractType then
    (.named (x.localName name),
      { s with types := s.types.insert name { t with name := some name } })
  else (.complex t, s)

theorem extractRoot_eq (x : Source) (s : Parts) (name : String) (t : ComplexType) :
    extractRoot x s name t =
      namedRoot x (groupedRoot x s name t).2 name (groupedRoot x s name t).1 := rfl

theorem made_groupedRoot {t : ComplexType} (h : Made x stack promised s s' t.uses) :
    Made x stack promised s (groupedRoot x s' name t).2 (groupedRoot x s' name t).1.uses := by
  unfold groupedRoot
  split
  · have hcontents : Made x stack promised s s' (contentsUses [.once t.item]) :=
      h.known_of fun u hu => h.known u <| by
        simpa [contentsUses, Content.once, Content.uses, ComplexType.uses_eq] using hu
    exact hcontents.addGroup name
  · exact h

theorem made_namedRoot {t : ComplexType} (h : Made x stack promised s s' t.uses) :
    Made x stack promised s (namedRoot x s' name t).2 (namedRoot x s' name t).1.uses := by
  unfold namedRoot
  split
  · have hadded := h.addType (t := { t with name := some name }) rfl fun u hu =>
      h.known u (t.uses_eq ▸ hu)
    exact hadded.known_of fun u hu =>
      hadded.known u (List.mem_cons.mpr (Or.inl (List.mem_singleton.mp hu)))
  · exact h

/-! ## Whole expansions -/

section Schemas

variable (hx : x.model.xmlPrefix ≠ some "xs") (hown : x.model.Own) (hm : x.model.Named)
  (hk : x.model.KeysTell)
include hx hown hm hk

/-- Opening a range keeps what holds of the parts. -/
theorem keeps_typeOf (stack : List String) :
    Keeps stack (typeOf x stack) := by
  intro promised s r t s' hr hs h
  rw [typeOf_eq] at h
  split at h
  · rename_i hopen
    obtain ⟨rfl, rfl⟩ := Prod.mk.inj (Except.ok.inj h)
    have hg : Grown s { s with
        recursive := s.recursive.add (rangeKey (StructuralModel.classList r.val)) } :=
      ⟨id, id, fun h => by simp [h], id⟩
    refine ⟨hg, ⟨hs.name, fun hget u hu => (hs.types hget u hu).grow hg,
      fun hget u hu => (hs.groups hget u hu).grow hg⟩, fun u hu => ?_⟩
    obtain rfl := List.mem_singleton.mp hu
    exact known_localName (.met _ hr hopen (by simp) rfl)
  · rename_i hnot
    obtain ⟨⟨b, s₁⟩, hbody, hclose⟩ := Except.map_eq_ok.mp h
    have ho : Keeps _ (typeOf x (rangeKey (StructuralModel.classList r.val) :: stack)) :=
      keeps_typeOf _
    obtain ⟨hname, hmade⟩ := made_bodyWith hx ho hown hm hr (hs.open _) hbody
    have hclosed := made_closeRange hk hr hname hmade hclose
    exact hclosed.known_of fun u hu => hclosed.known u (List.mem_append_left _ hu)
termination_by x.model.closedRanges stack
decreasing_by exact StructuralModel.closedRanges_cons_lt r ‹_›

/-- The type of a root class is there if the class was met inside itself. -/
theorem made_rootElementWith {c : x.model.Member} {e : Element}
    (hc : [c.val] ∈ x.model.openings) (hs : Sound x [] [] s)
    (h : rootElementWith (typeOf x) s c = .ok (e, s')) : Made x [] [] s s' e.uses := by
  obtain ⟨⟨item, s₁⟩, hitem, h⟩ := Except.bind_eq_ok.mp h
  have hmade := made_itemWith hx (keeps_typeOf hx hown hm hk [rangeKey [c.val]]) hown
    (hs.open (rangeKey [c.val])) hitem
  -- The class is closed as the range of it alone is, if it has no other name.
  have hclosed : Made x [] [] s
      (if s₁.recursive.contains (rangeKey [c.val]) then s₁.addType c.val.name false item else s₁)
      item.uses := by
    have hrange := made_closeRange (b := ⟨item, none, false⟩) hk hc nofun hmade rfl
    have hparts : (closeRange x s₁ [c.val] ⟨item, none, false⟩).2 =
        if s₁.recursive.contains (rangeKey [c.val]) then s₁.addType c.val.name false item
        else s₁ := by
      unfold closeRange
      by_cases hmet : s₁.recursive.contains (rangeKey [c.val]) = true <;> simp [hmet, rangeName]
    rw [← hparts]
    exact hrange.known_of fun u hu => hrange.known u (List.mem_append_right _ hu)
  simp only [Source.nameOf, hown c.val c.property, Bool.false_eq_true, if_false,
    extractRoot_eq] at h
  obtain ⟨rfl, rfl⟩ := Prod.mk.inj (Except.ok.inj h)
  exact made_namedRoot (made_groupedRoot (hclosed.known_of fun u hu => hclosed.known u hu))

theorem made_rootElementsWith :
    ∀ {cs : List x.model.Member} {s es s'}, (∀ c ∈ cs, [c.val] ∈ x.model.openings) →
      Sound x [] [] s → rootElementsWith (typeOf x) s cs = .ok (es, s') →
      Made x [] [] s s' (es.flatMap Element.uses)
  | [], s, es, s', _, hs, h => by
    obtain ⟨rfl, rfl⟩ := Prod.mk.inj (Except.ok.inj h)
    exact made_self hs
  | c :: rest, s, es, s', hcs, hs, h => by
    obtain ⟨⟨e, s₁⟩, he, h⟩ := Except.bind_eq_ok.mp h
    obtain ⟨⟨es', s₂⟩, hes, h⟩ := Except.bind_eq_ok.mp h
    obtain ⟨rfl, rfl⟩ := Prod.mk.inj (Except.ok.inj h)
    have hmade := made_rootElementWith hx hown hm hk (hcs c List.mem_cons_self) hs he
    rw [List.flatMap_cons]
    exact hmade.trans (made_rootElementsWith
      (fun c hc => hcs c (List.mem_cons_of_mem _ hc)) hmade.sound hes)

end Schemas

/-- Everything is there when nothing is open and nothing is promised. -/
theorem resolves_of_known {elements : List Element} (hs : Sound x [] [] s)
    (h : Known x [] [] s u) : (assemble x elements s).Resolves u := by
  cases u with
  | type q =>
    intro hq
    cases h hq with
    | there h =>
      obtain ⟨t, ht⟩ := SortedMap.contains_iff.mp h
      exact Or.inl ⟨t, SortedMap.mem_values_iff.mpr ⟨_, ht⟩, hs.name ht⟩
    | langString hname h => exact Or.inr ⟨hname, h⟩
    | promised h => exact absurd h List.not_mem_nil
    | met cs _ hopen => exact absurd hopen List.not_mem_nil
  | group q =>
    obtain ⟨cs, hcs⟩ := SortedMap.contains_iff.mp h.2
    exact ⟨h.1, ⟨q.name, cs⟩,
      List.mem_map.mpr ⟨(q.name, cs), SortedMap.mem_toList_iff.mpr hcs, rfl⟩, rfl⟩

theorem sound_empty : Sound x [] [] .empty where
  name h := by simp [Parts.empty] at h
  types h := by simp [Parts.empty] at h
  groups h := by simp [Parts.empty] at h

/-- In the schema of a model without classes of other schemas all references resolve. -/
theorem resolves_ofModel {schema : XmlSchema} (hown : x.model.Own) (hm : x.model.Named)
    (hx : x.model.xmlPrefix ≠ some "xs") (hk : x.model.KeysTell) (h : ofModel x = .ok schema) :
    ∀ u ∈ schema.uses, schema.Resolves u := by
  rw [ofModel_eq] at h
  obtain ⟨roots, hroots, h⟩ := Except.bind_eq_ok.mp h
  obtain ⟨⟨elements, s⟩, helements, h⟩ := Except.bind_eq_ok.mp h
  obtain rfl := Except.ok.inj h
  have hmade := made_rootElementsWith hx hown hm hk
    (fun c hc => StructuralModel.mem_openings_of_root hroots hc) sound_empty helements
  intro u hu
  refine resolves_of_known hmade.sound ?_
  rcases List.mem_append.mp hu with hu | hu
  · rcases List.mem_append.mp hu with hu | hu
    · exact hmade.known u hu
    · obtain ⟨t, ht, hu⟩ := List.mem_flatMap.mp hu
      obtain ⟨name, hname⟩ := SortedMap.mem_values_iff.mp ht
      exact hmade.sound.types hname u hu
  · obtain ⟨g, hg, hu⟩ := List.mem_flatMap.mp hu
    obtain ⟨⟨name, cs⟩, he, rfl⟩ := List.mem_map.mp hg
    exact hmade.sound.groups (SortedMap.mem_toList_iff.mp he) u hu

/-! ## Two small models -/

/-- An expansion that ends at a limit. -/
def ending (_ : List String) : Opening x := fun _ _ => .error (.noDatatype "")

/-- What the schema of chains is made of. -/
def chainSource : Source := ⟨JsonSchema.plainPublication, chainModel, .empty⟩

/-- The type of the links is met inside itself, and it is there. -/
theorem resolves_ofModel_chainModel :
    chainModel.Own ∧ chainModel.Named ∧ chainModel.xmlPrefix ≠ some "xs" ∧ chainModel.KeysTell ∧
      ∃ schema, ofModel chainSource = .ok schema ∧ .type ⟨none, "link"⟩ ∈ schema.uses ∧
        ∀ u ∈ schema.uses, schema.Resolves u := by
  have hown : chainModel.Own := by decide +kernel
  have hk : chainModel.KeysTell :=
    StructuralModel.keysTell_of_no_blank JsonSchema.named_chainModel (by decide +kernel)
  have hx : chainModel.xmlPrefix ≠ some "xs" := nofun
  obtain ⟨schema, hschema, huses⟩ := exists_ofModel (x := chainSource)
    (P := fun schema => decide (.type ⟨none, "link"⟩ ∈ schema.uses)) ending 1 (by decide +kernel)
    (by decide +kernel)
  exact ⟨hown, JsonSchema.named_chainModel, hx, hk, schema, hschema, of_decide_eq_true huses,
    resolves_ofModel (x := chainSource) hown JsonSchema.named_chainModel hx hk hschema⟩

/-- A class whose objects have parts. -/
def wholeClass (iri : Iri) (name : String) (parts : List StructuralProperty) : StructuralClass :=
  { linkClass with iri, technicalLabel := some name, properties := parts }

/-- A model in which the identifier of a class is the key of the range of its parts. -/
def blankModel : StructuralModel :=
  { chainModel with
    roots := ["a b"]
    classes := .ofList [("a", wholeClass "a" "a" []), ("b", wholeClass "b" "b" []),
      ("a b", wholeClass "a b" "whole"
        [⟨"part", none, none, .empty, .empty, none, none, [.class_ "a", .class_ "b"], false,
          []⟩])] }

/-- What its schema is made of. -/
def blankSource : Source := ⟨JsonSchema.plainPublication, blankModel, .empty⟩

/-- If identifiers may have blanks in them, there are references to nothing : the range of the
parts is taken for the class itself, which is open, and gets no type. -/
theorem not_resolves_blankModel :
    ¬ ∀ (x : Source) (schema : XmlSchema), x.model.Own → x.model.Named →
      x.model.xmlPrefix ≠ some "xs" → ofModel x = .ok schema →
        ∀ u ∈ schema.uses, schema.Resolves u := by
  intro h
  have hown : blankModel.Own := by decide +kernel
  have hm : blankModel.Named := by decide +kernel
  obtain ⟨schema, hschema, huses⟩ := exists_ofModel (x := blankSource)
    (P := fun schema => decide (.type ⟨none, "_a_b"⟩ ∈ schema.uses ∧
      ¬ schema.Resolves (.type ⟨none, "_a_b"⟩))) ending 1 (by decide +kernel) (by decide +kernel)
  obtain ⟨hmem, hnot⟩ := of_decide_eq_true huses
  exact hnot (h blankSource schema hown hm nofun hschema _ hmem)

end XmlSchema

end DataSpec
