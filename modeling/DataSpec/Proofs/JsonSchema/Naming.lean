import DataSpec.Proofs.Except
import DataSpec.Proofs.JsonSchema.Unfolding
import DataSpec.Proofs.SortedMap
import DataSpec.Proofs.Structural.Closed

/-!
# Names of recursive classes

While definitions are written, a reference to a named definition stands for a class whose
definition is not known yet. What such a reference means is said against a set of
definitions that is fixed in advance, whatever it is : if all names mean their classes there
(`Agree`), then so does what is written (`Stands`).

`Sound` is what holds of the names and definitions throughout : a class has a name only if it
was met inside itself, and it is open or its name is defined; and a definition describes the
objects of a class of its name. Since a class may be written several times, under other open
classes, a definition may replace an earlier one; either describes the same class.
-/

set_option autoImplicit false
set_option linter.unusedSectionVars false

namespace DataSpec

namespace JsonSchema

section

variable (p : Publication) (m : StructuralModel) (defs : SortedMap String (Definition Reference))
  (names : SortedMap Iri String)

/-- Up to a depth, names mean the classes that have them. -/
def Agree (n : Nat) : Prop :=
  ∀ k ≤ n, ∀ {iri name}, names.get? iri = some name →
    inlineClass p m k iri = .ok (unfold defs k (Naming.localRef name))

/-- Something that was written refers only to names that classes have, and its tree is the
one of the model. -/
structure Stands {α : Type} (used : List String) (model : Nat → Except ModelError α)
    (written : Nat → α) : Prop where
  used : ∀ name ∈ used, ∃ iri, names.get? iri = some name
  eq : ∀ {n}, Agree p m defs names n → model n = .ok (written n)

/-- A definition of a class. -/
abbrev StandsClass (key : Iri) (d : Definition Reference) : Prop :=
  Stands p m defs names d.localNames (fun n => inlineClass p m n key) fun n => unfold defs n d

/-- Definitions of classes. -/
abbrev StandsClasses (keys : List Iri) (ds : List (Definition Reference)) : Prop :=
  Stands p m defs names (allLocalNames ds) (fun n => keys.mapM (inlineClass p m n))
    fun n => ds.map (unfold defs n)

/-- Definitions of properties. -/
abbrev StandsProperties (qs : List StructuralProperty)
    (ps : List (String × Definition Reference)) : Prop :=
  Stands p m defs names (propertyLocalNames ps)
    (fun n => qs.mapM (inlineProperty (inlineClass p m n))) fun n =>
      ps.map fun e => (e.1, unfold defs n e.2)

/-- A definition of the objects of a class. -/
def Defines (iri : Iri) (d : Definition Reference) : Prop :=
  ∃ c ps, m.class? iri = some c ∧ c.isCodelist = false ∧ elsewhere? p m c = none ∧
    d.shape = .object ps (requiredNames c.properties) ∧
    StandsProperties p m defs names c.properties ps

/-- What holds of the names and definitions while classes are open. -/
structure Sound (stack : List Iri) (s : Naming) : Prop where
  recursive : ∀ {iri name}, s.names.get? iri = some name → s.recursive.contains iri = true
  defined : ∀ {iri name}, s.names.get? iri = some name →
    iri ∈ stack ∨ s.defs.contains name = true
  defs : ∀ {name d}, s.defs.get? name = some d →
    ∃ iri, s.names.get? iri = some name ∧ Defines p m defs s.names iri d

end

/-- More names. -/
def Extends (names names' : SortedMap Iri String) : Prop :=
  ∀ {iri name}, names.get? iri = some name → names'.get? iri = some name

variable {p : Publication} {m : StructuralModel} {defs : SortedMap String (Definition Reference)}
  {names names' : SortedMap Iri String} {iri : Iri} {name : String} {d : Definition Reference}
  {c : StructuralClass} {n : Nat} {α : Type}

theorem Extends.trans {names'' : SortedMap Iri String} (h : Extends names names')
    (h' : Extends names' names'') : Extends names names'' := fun hi => h' (h hi)

theorem Agree.mono {k : Nat} (h : Agree p m defs names n) (hk : k ≤ n) :
    Agree p m defs names k := fun k' hk' => h k' (Nat.le_trans hk' hk)

theorem Stands.mono {used : List String} {model : Nat → Except ModelError α} {written : Nat → α}
    (h : Stands p m defs names used model written) (he : Extends names names') :
    Stands p m defs names' used model written where
  used name hn := by
    obtain ⟨iri, hi⟩ := h.used name hn
    exact ⟨iri, he hi⟩
  eq ha := h.eq fun k hk _ _ hi => ha k hk (he hi)

theorem Defines.mono (h : Defines p m defs names iri d) (he : Extends names names') :
    Defines p m defs names' iri d := by
  obtain ⟨c, ps, hc, hl, helse, hd, hps⟩ := h
  exact ⟨c, ps, hc, hl, helse, hd, hps.mono he⟩

/-- Nothing of the objects of a class is seen at depth zero. -/
theorem Defines.inlineClass_zero (h : Defines p m defs names iri d) :
    inlineClass p m 0 iri = .ok (unfold defs 0 d) := by
  obtain ⟨title, description, shape⟩ := d
  obtain ⟨c, ps, hc, hl, helse, rfl, -⟩ := h
  rw [inlineClass_of_object hc hl helse]
  rfl

/-- Inside of an object, names are met one level deeper. -/
theorem Defines.inlineClass_succ (h : Defines p m defs names iri d)
    (ha : Agree p m defs names n) : inlineClass p m (n + 1) iri = .ok (unfold defs (n + 1) d) := by
  obtain ⟨title, description, shape⟩ := d
  obtain ⟨c, ps, hc, hl, helse, rfl, hps⟩ := h
  rw [inlineClass_of_object hc hl helse, inlineObject_succ, hps.eq ha]
  rfl

/-- A definition of the objects of a class stands for the class. -/
theorem Defines.stands (h : Defines p m defs names iri d) :
    StandsClass p m defs names iri d where
  used name hn := by
    obtain ⟨title, description, shape⟩ := d
    obtain ⟨c, ps, -, -, -, rfl, hps⟩ := h
    exact hps.used name hn
  eq {n} ha := by
    cases n with
    | zero => exact h.inlineClass_zero
    | succ n => exact h.inlineClass_succ (ha.mono n.le_succ)

/-- A reference to the name of a class stands for the class. -/
theorem stands_localRef (h : names.get? iri = some name) :
    StandsClass p m defs names iri (Naming.localRef name) where
  used name' hn := by
    obtain rfl := List.mem_singleton.mp hn
    exact ⟨iri, h⟩
  eq ha := ha _ (Nat.le_refl _) h

/-! ## Giving names -/

namespace Naming

theorem nameOf_cases {s s' : Naming} (h : s.nameOf c = (name, s')) :
    s'.names.get? c.iri = some name ∧ Extends s.names s'.names ∧
      (∀ {iri name'}, s'.names.get? iri = some name' →
        iri = c.iri ∨ s.names.get? iri = some name') ∧
      s'.recursive = s.recursive ∧ s'.defs = s.defs := by
  unfold nameOf at h
  split at h
  · rename_i hname
    obtain ⟨rfl, rfl⟩ := Prod.mk.inj h
    exact ⟨hname, fun hi => hi, Or.inr, rfl, rfl⟩
  · rename_i hnone
    obtain ⟨rfl, rfl⟩ := Prod.mk.inj h
    refine ⟨by rw [SortedMap.get?_insert, if_pos rfl], fun {iri name} hi => ?_,
      fun {iri name'} hi => ?_, rfl, rfl⟩
    · rw [SortedMap.get?_insert, if_neg]
      · exact hi
      · rintro rfl
        simp [hi] at hnone
    · rw [SortedMap.get?_insert] at hi
      split at hi
      · exact Or.inl ‹_›
      · exact Or.inr hi

end Naming

/-- Meeting an open class. -/
theorem Sound.refer {stack : List Iri} {s s' : Naming} (hs : Sound p m defs stack s)
    (hc : c.iri ∈ stack) (h : s.refer c = (d, s')) :
    Sound p m defs stack s' ∧ Extends s.names s'.names ∧
      StandsClass p m defs s'.names c.iri d := by
  unfold Naming.refer at h
  cases hn : ({ s with recursive := s.recursive.add c.iri } : Naming).nameOf c with
  | mk name s₁ =>
    rw [hn] at h
    obtain ⟨rfl, rfl⟩ := Prod.mk.inj h
    obtain ⟨hname, he, hor, hrec, hdefs⟩ := Naming.nameOf_cases hn
    refine ⟨⟨fun {iri name'} hi => ?_, fun {iri name'} hi => ?_, fun {name' d} hd => ?_⟩, he,
      stands_localRef hname⟩
    · rw [hrec, SortedSet.contains_add]
      rcases hor hi with rfl | hi
      · simp
      · simp [hs.recursive hi]
    · rw [hdefs]
      rcases hor hi with rfl | hi
      · exact Or.inl hc
      · exact hs.defined hi
    · rw [hdefs] at hd
      obtain ⟨iri, hi, hdef⟩ := hs.defs hd
      exact ⟨iri, he hi, hdef.mono he⟩

/-- Closing a class. -/
theorem Sound.close {stack : List Iri} {s s' : Naming} {d' : Definition Reference}
    (hs : Sound p m defs (c.iri :: stack) s) (hd : Defines p m defs s.names c.iri d)
    (h : s.close c d = (d', s')) :
    Sound p m defs stack s' ∧ Extends s.names s'.names ∧
      StandsClass p m defs s'.names c.iri d' := by
  unfold Naming.close at h
  split at h
  -- The class was met inside itself : its definition replaces what was under its name.
  · cases hn : s.nameOf c with
    | mk name s₁ =>
      rw [hn] at h
      obtain ⟨rfl, rfl⟩ := Prod.mk.inj h
      obtain ⟨hname, he, hor, hrec, hdefs⟩ := Naming.nameOf_cases hn
      refine ⟨⟨fun {iri name'} hi => ?_, fun {iri name'} hi => ?_, fun {name' e} hget => ?_⟩, he,
        stands_localRef hname⟩
      · rcases hor hi with rfl | hi
        · exact hrec ▸ ‹_›
        · exact hrec ▸ hs.recursive hi
      · by_cases hci : iri = c.iri
        · subst hci
          obtain rfl := Option.some.inj (hname.symm.trans hi)
          exact Or.inr (by simp)
        · have hdefined := hs.defined ((hor hi).resolve_left hci)
          rcases hdefined with hmem | hdefined
          · exact Or.inl ((List.mem_cons.mp hmem).resolve_left hci)
          · exact Or.inr (by simp [hdefs, hdefined])
      · rw [hdefs, SortedMap.get?_insert] at hget
        split at hget
        · obtain rfl := Option.some.inj hget
          subst name'
          exact ⟨c.iri, hname, hd.mono he⟩
        · obtain ⟨iri, hi, hdef⟩ := hs.defs hget
          exact ⟨iri, he hi, hdef.mono he⟩
  -- It was not, so it has no name, and what has one is open outside of it or defined.
  · rename_i hrec
    obtain ⟨rfl, rfl⟩ := Prod.mk.inj h
    refine ⟨⟨hs.recursive, fun {iri name} hi => ?_, hs.defs⟩, fun hi => hi, hd.stands⟩
    refine (hs.defined hi).imp_left fun hmem => (List.mem_cons.mp hmem).resolve_left ?_
    rintro rfl
    exact hrec (hs.recursive hi)

end JsonSchema

end DataSpec
