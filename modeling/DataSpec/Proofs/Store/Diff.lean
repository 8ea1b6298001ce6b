import DataSpec.Store.Execution
import DataSpec.Proofs.SortedMap
import Mathlib.Logic.Function.Basic

/-!
# What a diff shows of a store

While an operation is executed, the resources are those of the store with the diff so far
put over them : `ResourceDiff.view`. A diff is `Tidy` for a resource map when it creates
what is not there, and changes and deletes what is. On tidy diffs `create`, `edit` and
`delete` each update the view at one identifier, and `ResourceDiff.get?_applyTo` says that
the view is what the store has once the diff is carried out.
-/

set_option autoImplicit false
set_option linter.unusedSectionVars false

namespace DataSpec.ResourceDiff

open SortedMap

variable {d d' : ResourceDiff} {m : ResourceMap} {r : Resource} {iri : Iri}

/-- The resources of a store with a diff put over them. -/
def view (d : ResourceDiff) (m : ResourceMap) (iri : Iri) : Option Resource :=
  (d.changed.get? iri).or
    ((d.created.get? iri).or (if d.deleted.contains iri then none else m.get? iri))

@[simp]
theorem view_empty (m : ResourceMap) : empty.view m = m.get? := by
  funext iri
  simp [view, empty]

/-- Carrying out a diff gives the resources that it shows. -/
theorem get?_applyTo (d : ResourceDiff) (m : ResourceMap) : (d.applyTo m).get? = d.view m := by
  funext iri
  rw [applyTo, get?_insertMany_toList, get?_insertMany_toList, get?_foldl_erase, view]
  simp only [mem_keys_iff]

/-- A diff that creates what is not in the store, and changes or deletes what is. -/
structure Tidy (d : ResourceDiff) (m : ResourceMap) : Prop where
  created : ∀ {iri}, d.created.contains iri = true → m.get? iri = none
  changed : ∀ {iri}, d.changed.contains iri = true → m.contains iri = true
  deleted : ∀ {iri}, d.deleted.contains iri = true → m.contains iri = true
  apart : ∀ {iri}, d.changed.contains iri = true → d.deleted.contains iri = false

theorem Tidy.empty (m : ResourceMap) : Tidy empty m :=
  ⟨nofun, nofun, nofun, nofun⟩

/-- What is in the store is not created. -/
theorem Tidy.created_eq_none (h : d.Tidy m) (hm : m.contains iri = true) :
    d.created.get? iri = none := by
  refine contains_eq_false_iff.mp (Bool.eq_false_iff.mpr fun hc => ?_)
  rw [contains, h.created hc] at hm
  simp at hm

/-- What is not in the store is not changed. -/
theorem Tidy.changed_eq_none (h : d.Tidy m) (hm : m.get? iri = none) :
    d.changed.get? iri = none := by
  refine contains_eq_false_iff.mp (Bool.eq_false_iff.mpr fun hc => ?_)
  have := h.changed hc
  rw [contains, hm] at this
  simp at this

/-- If a diff changes only what there is and it does not delete, there is after it what it
creates, and what there was and it does not delete. -/
theorem contains_applyTo
    (h : d.changed.contains iri = true → m.contains iri = true ∧ d.deleted.contains iri = false) :
    (d.applyTo m).contains iri = true ↔
      d.created.contains iri = true ∨ m.contains iri = true ∧ d.deleted.contains iri = false := by
  have hview : (d.applyTo m).contains iri = (d.changed.contains iri ||
      (d.created.contains iri || !d.deleted.contains iri && m.contains iri)) := by
    rw [contains, get?_applyTo, view, Option.isSome_or, Option.isSome_or]
    cases d.deleted.contains iri <;> rfl
  rw [hview]
  cases hc : d.changed.contains iri with
  | false => cases d.deleted.contains iri <;> simp
  | true =>
    obtain ⟨hm, hdel⟩ := h hc
    simp [hm, hdel]

theorem isDisjoint_iff : d.isDisjoint = true ↔
    (∀ iri, d.created.contains iri = true →
      d.changed.contains iri = false ∧ d.deleted.contains iri = false) ∧
    ∀ iri, d.changed.contains iri = true → d.deleted.contains iri = false := by
  simp only [isDisjoint, Bool.and_eq_true, List.all_eq_true, mem_keys_iff, Bool.not_eq_true']

/-- What a tidy diff creates was not there, and what it changes or deletes was. -/
theorem Tidy.isDisjoint (h : d.Tidy m) : d.isDisjoint = true := by
  have apart : ∀ {iri}, d.created.contains iri = true → m.contains iri = true → False := by
    intro iri hc hm
    rw [contains_eq_false_iff.mpr (h.created hc)] at hm
    exact Bool.false_ne_true hm
  refine isDisjoint_iff.mpr ⟨fun iri hc => ⟨?_, ?_⟩, fun iri => h.apart⟩
  · exact Bool.eq_false_iff.mpr fun hch => apart hc (h.changed hch)
  · exact Bool.eq_false_iff.mpr fun hdel => apart hc (h.deleted hdel)

/-! ## The three updates -/

theorem Tidy.create (h : d.Tidy m) (hr : m.get? r.iri = none) : (d.create r).Tidy m where
  created {iri} hc := by
    rw [ResourceDiff.create, contains_insert, Bool.or_eq_true, decide_eq_true_eq] at hc
    rcases hc with rfl | hc
    · exact hr
    · exact h.created hc
  changed := h.changed
  deleted := h.deleted
  apart := h.apart

/-- A new resource appears in the view. -/
theorem view_create (h : d.Tidy m) (hr : m.get? r.iri = none) :
    (d.create r).view m = Function.update (d.view m) r.iri (some r) := by
  funext iri
  by_cases hi : iri = r.iri
  · subst hi
    simp [view, ResourceDiff.create, get?_insert, h.changed_eq_none hr]
  · rw [Function.update_of_ne hi, view, view, ResourceDiff.create, get?_insert, if_neg hi]

/-- What editing does : a resource that is not being deleted has a body, the one that the diff
created or changed it to, or the stored one, and that is changed. -/
theorem edit_cases {f : Resource → Resource} (he : d.edit m iri f = .ok d') :
    d.deleted.contains iri = false ∧
      ((∃ r, d.created.get? iri = some r ∧
          d' = { d with created := d.created.insert iri (f r) }) ∨
        ∃ r, d.created.get? iri = none ∧
          (d.changed.get? iri = some r ∨ d.changed.get? iri = none ∧ m.get? iri = some r) ∧
          d' = { d with changed := d.changed.insert iri (f r) }) := by
  unfold edit at he
  split at he
  · simp at he
  rename_i hdel
  refine ⟨Bool.eq_false_iff.mpr hdel, ?_⟩
  split at he
  · exact Or.inl ⟨_, ‹_›, (Except.ok.inj he).symm⟩
  split at he
  · exact Or.inr ⟨_, ‹_›, Or.inl ‹_›, (Except.ok.inj he).symm⟩
  split at he
  · exact Or.inr ⟨_, ‹_›, Or.inr ⟨‹_›, ‹_›⟩, (Except.ok.inj he).symm⟩
  · simp at he

/-- Editing succeeds on what the view has, and updates the view there. -/
theorem edit_eq_ok {f : Resource → Resource} (h : d.Tidy m)
    (he : d.edit m iri f = .ok d') :
    d'.Tidy m ∧ ∃ r, d.view m iri = some r ∧
      d'.view m = Function.update (d.view m) iri (some (f r)) := by
  obtain ⟨hdel, ⟨r, hr, rfl⟩ | ⟨r, hcr, hbody, rfl⟩⟩ := edit_cases he
  · have hm : m.get? iri = none := h.created (contains_iff.mpr ⟨r, hr⟩)
    refine ⟨⟨fun {i} hc => ?_, h.changed, h.deleted, h.apart⟩, r, ?_, ?_⟩
    · rw [contains_insert, Bool.or_eq_true, decide_eq_true_eq] at hc
      rcases hc with rfl | hc
      · exact hm
      · exact h.created hc
    · simp [view, h.changed_eq_none hm, hr]
    · funext i
      by_cases hi : i = iri
      · subst hi
        simp [view, get?_insert, h.changed_eq_none hm]
      · simp [view, get?_insert, hi]
  · have hm : m.contains iri = true := hbody.elim (fun hch => h.changed (contains_iff.mpr ⟨r, hch⟩))
      fun hm => contains_iff.mpr ⟨r, hm.2⟩
    have hr : d.view m iri = some r := by
      rcases hbody with hch | ⟨hch, hm⟩
      · simp [view, hch]
      · simp [view, hch, hcr, hdel, hm]
    refine ⟨⟨h.created, fun {i} hc => ?_, h.deleted, fun {i} hc => ?_⟩, r, hr, ?_⟩
    · rw [contains_insert, Bool.or_eq_true, decide_eq_true_eq] at hc
      rcases hc with rfl | hc
      · exact hm
      · exact h.changed hc
    · rw [contains_insert, Bool.or_eq_true, decide_eq_true_eq] at hc
      rcases hc with rfl | hc
      · exact hdel
      · exact h.apart hc
    · funext i
      by_cases hi : i = iri
      · subst hi
        simp [view, get?_insert]
      · simp [view, get?_insert, hi]

theorem Tidy.delete (h : d.Tidy m) (hm : m.contains iri = true) : (d.delete iri).Tidy m := by
  have hc : d.created.contains iri = false := contains_eq_false_iff.mpr (h.created_eq_none hm)
  simp only [ResourceDiff.delete, hc, Bool.false_eq_true, if_false]
  refine ⟨h.created, fun {i} hi => ?_, fun {i} hi => ?_, fun {i} hi => ?_⟩
  · rw [contains_erase, Bool.and_eq_true] at hi
    exact h.changed hi.2
  · rw [SortedSet.contains_add, Bool.or_eq_true, decide_eq_true_eq] at hi
    rcases hi with rfl | hi
    · exact hm
    · exact h.deleted hi
  · rw [contains_erase, Bool.and_eq_true] at hi
    rw [SortedSet.contains_add, h.apart hi.2]
    simpa using hi.1

/-- A deleted resource disappears from the view. -/
theorem view_delete (h : d.Tidy m) (hm : m.contains iri = true) :
    (d.delete iri).view m = Function.update (d.view m) iri none := by
  have hc : d.created.contains iri = false := contains_eq_false_iff.mpr (h.created_eq_none hm)
  simp only [ResourceDiff.delete, hc, Bool.false_eq_true, if_false]
  funext i
  by_cases hi : i = iri
  · subst hi
    simp [view, get?_erase, h.created_eq_none hm]
  · simp [view, get?_erase, hi]

end DataSpec.ResourceDiff
