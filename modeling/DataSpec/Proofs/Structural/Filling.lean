import DataSpec.Proofs.Structural.Settled

/-!
# Passes that fill gaps

Three of the passes take something over from the conceptual model (`Pass.Fills`). What they
read, the counterparts of classes and properties, none of them changes, and each writes fields
of its own, only where nothing is said. So of a run of such passes only the kinds matter that
occur in it (`Taken`), not their order or their number : `run_filled` says what the model is
after any of them, and `run_of_fills` that it is one and the same if no kind is missing.
Whatever was said before is still said (`StructuralModel.Completes`).
-/

set_option autoImplicit false

namespace DataSpec

/-- The passes that take over what the conceptual model says. -/
inductive Pass.Fills : Pass → Prop
  | codelists : Fills codelistMarking
  | bounds : Fills cardinalityPropagation
  | labels : Fills labelPropagation

/-- What has been taken over : whether classes are codelists, the bounds, and the labels with
the descriptions and concepts. -/
structure Taken where
  codelists : Bool
  bounds : Bool
  labels : Bool
deriving DecidableEq

namespace Taken

/-- Nothing has been taken over. -/
def nothing : Taken := ⟨false, false, false⟩

/-- Everything has been taken over. -/
def everything : Taken := ⟨true, true, true⟩

/-- What has been taken over after one more pass. -/
def after (g : Taken) : Pass → Taken
  | .codelistMarking => { g with codelists := true }
  | .cardinalityPropagation => { g with bounds := true }
  | .labelPropagation => { g with labels := true }
  | _ => g

/-- What has been taken over after several passes is what was before, and what they take over. -/
theorem foldl_after (passes : List Pass) (g : Taken) :
    ((passes.foldl after g).codelists ↔ g.codelists ∨ .codelistMarking ∈ passes) ∧
    ((passes.foldl after g).bounds ↔ g.bounds ∨ .cardinalityPropagation ∈ passes) ∧
    ((passes.foldl after g).labels ↔ g.labels ∨ .labelPropagation ∈ passes) := by
  induction passes generalizing g with
  | nil => simp
  | cons p rest ih =>
    obtain ⟨hcodelists, hbounds, hlabels⟩ := ih (g.after p)
    rw [List.foldl_cons]
    refine ⟨hcodelists.trans ?_, hbounds.trans ?_, hlabels.trans ?_⟩ <;> cases p <;> simp [after]

/-- Passes of all three kinds take over everything. -/
theorem foldl_after_eq_everything {passes : List Pass} (h : ∀ p, p.Fills → p ∈ passes)
    (g : Taken) : passes.foldl after g = everything := by
  obtain ⟨hcodelists, hbounds, hlabels⟩ := foldl_after passes g
  have hcodelists := hcodelists.mpr (Or.inr (h _ .codelists))
  have hbounds := hbounds.mpr (Or.inr (h _ .bounds))
  have hlabels := hlabels.mpr (Or.inr (h _ .labels))
  cases hg : passes.foldl after g
  simp_all [everything]

end Taken

/-! ## Models with gaps filled -/

section

variable (conceptual : ConceptualModel)

/-- A property with what is taken over in place of what is not said. -/
def StructuralProperty.filled (g : Taken) (p : StructuralProperty) : StructuralProperty :=
  let counterpart := conceptual.propertyOf? p
  let words := if g.labels then counterpart else none
  { p with
    cardinality := p.cardinality.or
      (if g.bounds then counterpart.bind ConceptualProperty.cardinality else none)
    label := LanguageText.orElse p.label ((words.map ConceptualProperty.label).getD .empty)
    description := LanguageText.orElse p.description
      ((words.map ConceptualProperty.description).getD .empty)
    cim := p.cim.or (words.bind ConceptualProperty.concept) }

/-- A class with what is taken over in place of what is not said. -/
def StructuralClass.filled (g : Taken) (c : StructuralClass) : StructuralClass :=
  let counterpart := conceptual.classOf? c
  let words := if g.labels then counterpart else none
  { c with
    isCodelist := c.isCodelist || (g.codelists && counterpart.any ConceptualClass.isCodelist)
    label := LanguageText.orElse c.label ((words.map ConceptualClass.label).getD .empty)
    description := LanguageText.orElse c.description
      ((words.map ConceptualClass.description).getD .empty)
    cim := c.cim.or (words.bind ConceptualClass.concept)
    properties := c.properties.map (StructuralProperty.filled conceptual g) }

/-- A model with what is taken over in place of what is not said. -/
def StructuralModel.filled (g : Taken) (m : StructuralModel) : StructuralModel :=
  m.mapClasses (StructuralClass.filled conceptual g)

end

/-! ## What is said stays -/

/-- Whether a property says all that another one says, and differs from it only in what may be
taken over. -/
structure StructuralProperty.Completes (p p' : StructuralProperty) : Prop where
  rest : p' = { p with
    cardinality := p'.cardinality, label := p'.label, description := p'.description, cim := p'.cim }
  bounds : p.cardinality.isSome = true → p'.cardinality = p.cardinality
  label : p.label ≠ .empty → p'.label = p.label
  description : p.description ≠ .empty → p'.description = p.description
  concept : p.cim.isSome = true → p'.cim = p.cim

/-- Whether a class says all that another one says, and differs from it only in what may be taken
over. -/
structure StructuralClass.Completes (c c' : StructuralClass) : Prop where
  rest : c' = { c with
    isCodelist := c'.isCodelist, label := c'.label, description := c'.description, cim := c'.cim,
    properties := c'.properties }
  codelist : c.isCodelist = true → c'.isCodelist = true
  label : c.label ≠ .empty → c'.label = c.label
  description : c.description ≠ .empty → c'.description = c.description
  concept : c.cim.isSome = true → c'.cim = c.cim
  properties : List.Forall₂ StructuralProperty.Completes c.properties c'.properties

/-- Whether a model has the same classes as another one, which say all that those say, and
differs from it in nothing else. -/
structure StructuralModel.Completes (m m' : StructuralModel) : Prop where
  rest : m' = { m with classes := m'.classes }
  keys : m'.classes.keys = m.classes.keys
  classes : ∀ {k c c'}, m.class? k = some c → m'.class? k = some c' → c.Completes c'

variable {conceptual : ConceptualModel} {m : StructuralModel}

namespace LanguageText

theorem eq_empty_of_isEmpty {t : LanguageText} (h : t.isEmpty = true) : t = .empty :=
  SortedMap.ext_toList (List.isEmpty_iff.mp h)

@[simp]
theorem orElse_empty (t : LanguageText) : orElse t .empty = t := by
  unfold orElse
  split
  · exact (eq_empty_of_isEmpty ‹_›).symm
  · rfl

theorem orElse_of_ne_empty {t : LanguageText} (h : t ≠ .empty) (source : LanguageText) :
    orElse t source = t := if_neg (mt eq_empty_of_isEmpty h)

end LanguageText

/-- A property keeps what it says when gaps are filled. -/
theorem StructuralProperty.completes_filled (g : Taken) (p : StructuralProperty) :
    p.Completes (p.filled conceptual g) where
  rest := rfl
  bounds h := Option.or_of_isSome h
  label h := LanguageText.orElse_of_ne_empty h _
  description h := LanguageText.orElse_of_ne_empty h _
  concept h := Option.or_of_isSome h

/-- A class keeps what it says when gaps are filled. -/
theorem StructuralClass.completes_filled (g : Taken) (c : StructuralClass) :
    c.Completes (c.filled conceptual g) where
  rest := rfl
  codelist h := by simp [filled, h]
  label h := LanguageText.orElse_of_ne_empty h _
  description h := LanguageText.orElse_of_ne_empty h _
  concept h := Option.or_of_isSome h
  properties := by
    refine List.forall₂_map_right_iff.mpr (List.forall₂_same.mpr fun p _ => ?_)
    exact p.completes_filled g

/-- Filling gaps leaves everything that was said. -/
theorem StructuralModel.completes_filled (conceptual : ConceptualModel) (g : Taken)
    (m : StructuralModel) : m.Completes (m.filled conceptual g) where
  rest := rfl
  keys := SortedMap.keys_mapValues _ m.classes
  classes hc hc' := by
    rw [filled, class?_mapClasses, hc] at hc'
    obtain rfl := Option.some.inj hc'
    exact StructuralClass.completes_filled g _

/-! ## One pass -/

namespace StructuralProperty

variable (g : Taken) (p : StructuralProperty)

theorem withBounds_eq : p.withBounds conceptual = { p with
    cardinality := p.cardinality.or
      ((conceptual.propertyOf? p).bind ConceptualProperty.cardinality) } := by
  unfold withBounds
  split
  · rename_i b hb
    rw [hb, Option.some_or, ← hb]
  · rename_i hnone
    rw [hnone, Option.none_or]

theorem withLabels_eq : p.withLabels conceptual = { p with
    label := LanguageText.orElse p.label
      (((conceptual.propertyOf? p).map ConceptualProperty.label).getD .empty)
    description := LanguageText.orElse p.description
      (((conceptual.propertyOf? p).map ConceptualProperty.description).getD .empty)
    cim := p.cim.or ((conceptual.propertyOf? p).bind ConceptualProperty.concept) } := by
  unfold withLabels
  cases conceptual.propertyOf? p <;> simp

theorem filled_nothing : p.filled conceptual .nothing = p := by
  simp [filled, Taken.nothing]

/-- Bounds are taken over where neither the property nor what was filled in has any. -/
theorem withBounds_filled : (p.filled conceptual g).withBounds conceptual =
    p.filled conceptual { g with bounds := true } := by
  have hsame : conceptual.propertyOf? (p.filled conceptual g) = conceptual.propertyOf? p := rfl
  have hbounds : (p.filled conceptual g).cardinality.or
      ((conceptual.propertyOf? p).bind ConceptualProperty.cardinality) =
        (p.filled conceptual { g with bounds := true }).cardinality := by
    cases hg : g.bounds <;> simp [filled, hg, Option.or_assoc]
  rw [withBounds_eq, hsame, hbounds]
  rfl

/-- So are labels, descriptions and concepts. -/
theorem withLabels_filled : (p.filled conceptual g).withLabels conceptual =
    p.filled conceptual { g with labels := true } := by
  have hsame : conceptual.propertyOf? (p.filled conceptual g) = conceptual.propertyOf? p := rfl
  rw [withLabels_eq, hsame]
  cases hg : g.labels <;> simp [filled, hg, Option.or_assoc, LanguageText.orElse_orElse]

end StructuralProperty

namespace StructuralClass

variable (g : Taken) (c : StructuralClass)

theorem withLabels_eq : c.withLabels conceptual = { c with
    label := LanguageText.orElse c.label
      (((conceptual.classOf? c).map ConceptualClass.label).getD .empty)
    description := LanguageText.orElse c.description
      (((conceptual.classOf? c).map ConceptualClass.description).getD .empty)
    cim := c.cim.or ((conceptual.classOf? c).bind ConceptualClass.concept) } := by
  unfold withLabels
  cases conceptual.classOf? c <;> simp

theorem filled_nothing : c.filled conceptual .nothing = c := by
  have hproperties : c.properties.map (StructuralProperty.filled conceptual .nothing) =
      c.properties := by
    rw [funext (g := id) StructuralProperty.filled_nothing, List.map_id]
  have hfilled : c.filled conceptual .nothing = { c with
      properties := c.properties.map (StructuralProperty.filled conceptual .nothing) } := by
    simp [filled, Taken.nothing]
  rw [hfilled, hproperties]

/-- Marking codelists fills one more gap of a class, whatever is filled already. -/
theorem marked_filled : (c.filled conceptual g).marked conceptual =
    c.filled conceptual { g with codelists := true } := by
  have hsame : conceptual.classOf? (c.filled conceptual g) = conceptual.classOf? c := rfl
  have hcodelist : ((c.filled conceptual g).isCodelist ||
      (conceptual.classOf? c).any ConceptualClass.isCodelist) =
        (c.filled conceptual { g with codelists := true }).isCodelist := by
    cases hg : g.codelists <;> simp [filled, hg]
  rw [marked, hsame, hcodelist]
  rfl

theorem withBounds_filled :
    (c.filled conceptual g).mapProperties (StructuralProperty.withBounds conceptual) =
      c.filled conceptual { g with bounds := true } := by
  have hproperties : (c.filled conceptual g).properties.map
      (StructuralProperty.withBounds conceptual) =
        (c.filled conceptual { g with bounds := true }).properties := by
    rw [filled, List.map_map]
    exact List.map_congr_left fun p _ => p.withBounds_filled g
  rw [mapProperties, hproperties]
  rfl

theorem withLabels_filled : ((c.filled conceptual g).withLabels conceptual).mapProperties
    (StructuralProperty.withLabels conceptual) = c.filled conceptual { g with labels := true } := by
  have hsame : conceptual.classOf? (c.filled conceptual g) = conceptual.classOf? c := rfl
  have hproperties : (c.filled conceptual g).properties.map
      (StructuralProperty.withLabels conceptual) =
        (c.filled conceptual { g with labels := true }).properties := by
    rw [filled, List.map_map]
    exact List.map_congr_left fun p _ => p.withLabels_filled g
  rw [withLabels_eq, hsame, mapProperties, hproperties]
  cases hg : g.labels <;> simp [filled, hg, Option.or_assoc, LanguageText.orElse_orElse]

end StructuralClass

/-- A model in which nothing is filled is as it was. -/
theorem StructuralModel.filled_nothing (conceptual : ConceptualModel) (m : StructuralModel) :
    m.filled conceptual .nothing = m :=
  mapClasses_eq_self fun _ => StructuralClass.filled_nothing _

/-! ## Runs -/

namespace Pass

/-- A pass fills gaps of its own, whichever were filled before. -/
theorem apply_filled (conceptual : ConceptualModel) (m : StructuralModel) {p : Pass}
    (hp : p.Fills) (g : Taken) :
    p.apply conceptual (m.filled conceptual g) = .ok (m.filled conceptual (g.after p)) := by
  have hmap : ∀ {f : StructuralClass → StructuralClass} {g'},
      (∀ c : StructuralClass, f (c.filled conceptual g) = c.filled conceptual g') →
        (m.filled conceptual g).mapClasses f = m.filled conceptual g' := by
    intro f g' hf
    rw [StructuralModel.filled, StructuralModel.mapClasses_mapClasses, funext hf]
    rfl
  cases hp with
  | codelists => exact congrArg Except.ok (hmap (StructuralClass.marked_filled g))
  | bounds => exact congrArg Except.ok (hmap (StructuralClass.withBounds_filled g))
  | labels => exact congrArg Except.ok (hmap (StructuralClass.withLabels_filled g))

/-- Of passes that fill gaps only the kinds matter that occur among them. -/
theorem run_filled (conceptual : ConceptualModel) (m : StructuralModel) {passes : List Pass}
    (h : ∀ p ∈ passes, p.Fills) (g : Taken) :
    run passes false conceptual (m.filled conceptual g) =
      .ok (m.filled conceptual (passes.foldl Taken.after g)) := by
  induction passes generalizing g with
  | nil => rfl
  | cons p rest ih =>
    obtain ⟨hp, hrest⟩ := List.forall_mem_cons.mp h
    have hstep := apply_filled conceptual m hp g
    have hrun := ih hrest (g.after p)
    exact Except.bind_eq_ok.mpr ⟨_, hstep, hrun⟩

/-- Passes that fill gaps give the same model in any order and any number, as long as none of
the kinds is missing : the one in which all gaps are filled, and nothing else is changed. So
the second marking of codelists in the usual list changes nothing. -/
theorem run_of_fills {passes : List Pass} (h : ∀ p, p ∈ passes ↔ p.Fills)
    (conceptual : ConceptualModel) (m : StructuralModel) :
    run passes false conceptual m = .ok (m.filled conceptual .everything) ∧
      m.Completes (m.filled conceptual .everything) ∧
      ∃ m₂, run (standard.take 2) false conceptual m = .ok m₂ ∧
        codelistMarking.apply conceptual m₂ = .ok m₂ := by
  have hrun : ∀ {passes : List Pass}, (∀ p ∈ passes, p.Fills) → run passes false conceptual m =
      .ok (m.filled conceptual (passes.foldl Taken.after .nothing)) := by
    intro passes hfills
    have hrun := run_filled conceptual m hfills .nothing
    rwa [StructuralModel.filled_nothing] at hrun
  refine ⟨?_, m.completes_filled conceptual .everything, _, hrun ?_,
    apply_filled conceptual m .codelists _⟩
  · rw [hrun fun p hp => (h p).mp hp, Taken.foldl_after_eq_everything fun p hp => (h p).mpr hp]
  · exact List.forall_mem_cons.mpr ⟨.codelists, List.forall_mem_singleton.mpr .bounds⟩

end Pass

/-! ## Countries of persons -/

/-- Countries as people think of them : a codelist. Persons have at most one. -/
def countryConcepts : ConceptualModel where
  iri := none
  label := .empty
  description := .empty
  classes := .ofList [
    ("Country", ⟨"Country", some "country", .ofList [("en", "Country")], .empty, true, [], []⟩),
    ("Person", ⟨"Person", none, .empty, .empty, false, [],
      [⟨"lives", none, .ofList [("en", "lives in")], .ofList [("en", "for most of the year")],
        some ⟨0, some 1⟩, .class_ "Country"⟩]⟩)]

/-- Persons and countries, of which the first are called something of their own. -/
def countryModel (isCodelist : Bool) (country lives : LanguageText) (cim : Option Iri)
    (cardinality : Option Cardinality) : StructuralModel :=
  { chainModel with
    roots := ["person"]
    classes := .ofList [
      ("country", { linkClass with
        iri := "country", pim := some "Country", cim, label := country, isCodelist,
        properties := [] }),
      ("person", { linkClass with
        iri := "person", pim := some "Person", label := .ofList [("en", "Human")],
        properties := [⟨"home", some "lives", none, .ofList [("en", "home")], lives, none,
          cardinality, [.class_ "country"], false, []⟩] })] }

/-- Persons and countries before anything is taken over. -/
def plainCountries : StructuralModel := countryModel false .empty .empty none none

/-- Persons and countries after all is taken over. -/
def knownCountries : StructuralModel :=
  countryModel true (.ofList [("en", "Country")]) (.ofList [("en", "for most of the year")])
    (some "country") (some ⟨0, some 1⟩)

/-- Labels come before codelists and bounds, and twice. -/
def labelsFirst : List Pass :=
  [.labelPropagation, .codelistMarking, .cardinalityPropagation, .labelPropagation]

/-- That countries are a codelist, how often a person has one and what is said of them is taken
over in an unusual order, the labels twice. Labels that are there stay. -/
theorem run_of_fills_countries :
    (∀ p, p ∈ labelsFirst ↔ p.Fills) ∧
    Pass.run labelsFirst false countryConcepts plainCountries = .ok knownCountries ∧
    plainCountries.Completes knownCountries := by
  have hpasses : ∀ p, p ∈ labelsFirst ↔ p.Fills := by
    intro p
    constructor
    · intro hp
      simp only [labelsFirst, List.mem_cons, List.not_mem_nil, or_false] at hp
      rcases hp with rfl | rfl | rfl | rfl
      exacts [.labels, .codelists, .bounds, .labels]
    · rintro (_ | _ | _) <;> simp [labelsFirst]
  have hfilled : plainCountries.filled countryConcepts .everything = knownCountries := by decide
  obtain ⟨hrun, hcompletes, -⟩ := Pass.run_of_fills hpasses countryConcepts plainCountries
  exact ⟨hpasses, hfilled ▸ hrun, hfilled ▸ hcompletes⟩

end DataSpec
