import DataSpec.Proofs.JsonSchema.Naming
import DataSpec.Proofs.JsonSchema.Opening
import DataSpec.Proofs.Structural.Closed

/-!
# Named definitions and inlining

What is written for a class, for classes and for properties stands for them
(`sound_defineClass` and the lemmas after it, by the recursion of the definitions). In the
end no class is open, so every name is defined, and a name means its class at every depth
(`agree_of_sound`). The schema of a model is therefore the tree in which all of its classes
are written out.
-/

set_option autoImplicit false
set_option linter.unusedSectionVars false

namespace DataSpec.JsonSchema

variable {p : Publication} {m : StructuralModel} {defs : SortedMap String (Definition Reference)}

/-- A property stands for what it leads to. -/
theorem stands_ofProperty {names : SortedMap Iri String} {q : StructuralProperty}
    {r : PropertyRange} {qs : List StructuralProperty} {ds : List (Definition Reference)}
    {ps : List (String × Definition Reference)} (hr : q.range = .ok r)
    (hds : Stands p m defs names (allLocalNames ds)
      (fun n => inlineRange (inlineClass p m n) r) fun n => ds.map (unfold defs n))
    (hps : StandsProperties p m defs names qs ps) :
    StandsProperties p m defs names (q :: qs) ((q.name, ofProperty p q (.anyOf ds)) :: ps) where
  used name hn := by
    rw [propertyLocalNames, localNames_ofProperty, localNames_anyOf] at hn
    exact (List.mem_append.mp hn).elim (hds.used name) (hps.used name)
  eq {n} ha := by
    have hq : inlineProperty (inlineClass p m n) q =
        .ok (q.name, unfold defs n (ofProperty p q (.anyOf ds))) := by
      rw [inlineProperty, hr, unfold_ofProperty, unfold_anyOf]
      exact Except.bind_eq_ok.mpr ⟨r, rfl, Except.bind_eq_ok.mpr ⟨_, hds.eq ha, rfl⟩⟩
    exact Except.mapM_cons_eq_ok.mpr ⟨_, _, hq, hps.eq ha, rfl⟩

mutual

/-- Describing a class keeps the definitions sound, and its description stands for it. -/
theorem sound_defineClass (hm : m.Named) {stack : List Iri} {s s' : Naming} {key : Iri}
    {d : Definition Reference} (hk : m.Names key) (hs : Sound p m defs stack s)
    (h : defineClass p m stack s key = .ok (d, s')) :
    Sound p m defs stack s' ∧ Extends s.names s'.names ∧
      StandsClass p m defs s'.names key d := by
  rw [defineClass] at h
  cases hmember : m.member key with
  | error e => simp [hmember] at h
  | ok member =>
    obtain ⟨c, hc⟩ := member
    have hget : m.class? key = some c := StructuralModel.class?_of_member hmember
    obtain ⟨c', hc', hiri⟩ := hk
    obtain rfl := Option.some.inj (hget.symm.trans hc')
    simp only [hmember] at h
    split at h
    · obtain ⟨rfl, rfl⟩ := Prod.mk.inj (Except.ok.inj h)
      exact ⟨hs, fun hi => hi, ⟨nofun, fun _ => inlineClass_of_codelist hget ‹_›⟩⟩
    rename_i hl
    rw [Bool.not_eq_true] at hl
    split at h
    · obtain ⟨rfl, rfl⟩ := Prod.mk.inj (Except.ok.inj h)
      exact ⟨hs, fun hi => hi, ⟨nofun, fun _ => inlineClass_of_elsewhere hget hl ‹_›⟩⟩
    rename_i he
    split at h
    · obtain hrefer := hs.refer ‹_› (Except.ok.inj h)
      rwa [hiri] at hrefer
    · split at h
      · simp at h
      rename_i properties s₁ hprops
      -- Opening a class asks for less : its name need not be defined yet.
      have hs₀ : Sound p m defs (c.iri :: stack) s :=
        ⟨hs.recursive, fun hi => (hs.defined hi).imp_left (List.mem_cons_of_mem _), hs.defs⟩
      obtain ⟨hs₁, he₁, hps⟩ := sound_defineProperties hm (hm.types c hc) hs₀ hprops
      obtain ⟨hs', he', hd⟩ := hs₁.close ⟨c, properties, hiri ▸ hget, hl, he, rfl, hps⟩
        (Except.ok.inj h)
      exact ⟨hs', he₁.trans he', hiri ▸ hd⟩
termination_by (m.closedCount stack, 0, 0)
decreasing_by exact Prod.Lex.left _ _ (StructuralModel.closedCount_cons_lt hc ‹_›)

/-- The same holds of the classes of a range, one after the other. -/
theorem sound_defineClasses (hm : m.Named) {stack : List Iri} {s s' : Naming} {keys : List Iri}
    {ds : List (Definition Reference)} (hk : ∀ t ∈ keys, m.Names t)
    (hs : Sound p m defs stack s) (h : defineClasses p m stack s keys = .ok (ds, s')) :
    Sound p m defs stack s' ∧ Extends s.names s'.names ∧
      StandsClasses p m defs s'.names keys ds := by
  match keys with
  | [] =>
    rw [defineClasses] at h
    obtain ⟨rfl, rfl⟩ := Prod.mk.inj (Except.ok.inj h)
    exact ⟨hs, fun hi => hi, ⟨nofun, fun _ => rfl⟩⟩
  | key :: rest =>
    rw [defineClasses] at h
    split at h
    · simp at h
    rename_i d s₁ hd
    split at h
    · simp at h
    rename_i ds s₂ hds
    obtain ⟨rfl, rfl⟩ := Prod.mk.inj (Except.ok.inj h)
    obtain ⟨hs₁, he₁, hkey⟩ := sound_defineClass hm (hk key List.mem_cons_self) hs hd
    obtain ⟨hs₂, he₂, hrest⟩ :=
      sound_defineClasses hm (fun t ht => hk t (List.mem_cons_of_mem _ ht)) hs₁ hds
    have hkey := hkey.mono he₂
    refine ⟨hs₂, he₁.trans he₂, ⟨fun name hn => ?_, fun {n} ha => ?_⟩⟩
    · exact (List.mem_append.mp hn).elim (hkey.used name) (hrest.used name)
    · exact Except.mapM_cons_eq_ok.mpr ⟨_, _, hkey.eq ha, hrest.eq ha, rfl⟩
termination_by (m.closedCount stack, 1, keys.length)
decreasing_by
  · exact Prod.Lex.right _ (Prod.Lex.left _ _ (by omega))
  · exact Prod.Lex.right _ (Prod.Lex.right _ (by simp))

/-- The same holds of the properties of a class. -/
theorem sound_defineProperties (hm : m.Named) {stack : List Iri} {s s' : Naming}
    {qs : List StructuralProperty} {ps : List (String × Definition Reference)}
    (hq : ∀ q ∈ qs, ∀ t ∈ q.classes, m.Names t) (hs : Sound p m defs stack s)
    (h : defineProperties p m stack s qs = .ok (ps, s')) :
    Sound p m defs stack s' ∧ Extends s.names s'.names ∧
      StandsProperties p m defs s'.names qs ps := by
  match qs with
  | [] =>
    rw [defineProperties] at h
    obtain ⟨rfl, rfl⟩ := Prod.mk.inj (Except.ok.inj h)
    exact ⟨hs, fun hi => hi, ⟨nofun, fun _ => rfl⟩⟩
  | q :: rest =>
    rw [defineProperties] at h
    split at h
    · simp at h
    rename_i ds s₁ hvalues
    split at h
    · simp at h
    rename_i ps s₂ hps
    obtain ⟨rfl, rfl⟩ := Prod.mk.inj (Except.ok.inj h)
    obtain ⟨r, hr, hs₁, he₁, hd⟩ : ∃ r, q.range = .ok r ∧ Sound p m defs stack s₁ ∧
        Extends s.names s₁.names ∧ Stands p m defs s₁.names (allLocalNames ds)
          (fun n => inlineRange (inlineClass p m n) r) fun n => ds.map (unfold defs n) := by
      cases hr : q.range with
      | error e => simp [hr] at hvalues
      | ok r =>
        refine ⟨r, rfl, ?_⟩
        cases r with
        | datatypes iris =>
          simp only [hr] at hvalues
          obtain ⟨rfl, rfl⟩ := Prod.mk.inj (Except.ok.inj hvalues)
          refine ⟨hs, fun hi => hi, ⟨fun name hn => ?_, fun _ => ?_⟩⟩
          · simp [allLocalNames_datatypes] at hn
          · simp [inlineRange, unfold_datatypeShape]
        | classes iris =>
          simp only [hr] at hvalues
          have hiris := hq q List.mem_cons_self
          rw [← StructuralModel.range_eq_classes hr] at hiris
          exact sound_defineClasses hm hiris hs hvalues
    obtain ⟨hs₂, he₂, hrest⟩ :=
      sound_defineProperties hm (fun q hqr => hq q (List.mem_cons_of_mem _ hqr)) hs₁ hps
    exact ⟨hs₂, he₁.trans he₂, stands_ofProperty hr (hd.mono he₂) hrest⟩
termination_by (m.closedCount stack, 2, qs.length)
decreasing_by
  · exact Prod.Lex.right _ (Prod.Lex.left _ _ (by omega))
  · exact Prod.Lex.right _ (Prod.Lex.right _ (by simp))

end

/-! ## When no class is open -/

/-- At the start no class has a name, so none needs a definition. -/
theorem sound_empty : Sound p m defs [] .empty := ⟨nofun, nofun, nofun⟩

/-- No two of the classes that were met inside themselves have the same name. -/
def Naming.Distinct (s : Naming) : Prop :=
  ∀ {iri iri' name}, s.recursive.contains iri = true → s.recursive.contains iri' = true →
    s.names.get? iri = some name → s.names.get? iri' = some name → iri = iri'

/-- A document under the usual settings. -/
def plainPublication : Publication where
  specifications := .empty
  artefact := ⟨"artefact", "json-schema", "schema.json", "", none, [], .obj []⟩
  config := .default

theorem named_chainModel : chainModel.Named where
  roots t ht := by
    obtain rfl := List.mem_singleton.mp ht
    exact ⟨linkClass, rfl, rfl⟩
  types c hc q hq t ht := by
    obtain rfl := List.mem_singleton.mp hc
    obtain rfl := List.mem_singleton.mp hq
    obtain rfl := List.mem_singleton.mp ht
    exact ⟨linkClass, rfl, rfl⟩

/-! ## An office -/

end DataSpec.JsonSchema
