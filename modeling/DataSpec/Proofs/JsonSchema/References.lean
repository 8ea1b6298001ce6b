import DataSpec.Proofs.JsonSchema.Opening
import DataSpec.Proofs.JsonSchema.Unfolding
import DataSpec.Proofs.Structural.Closed

/-!
# References to other documents

A class that another document describes is written as a reference to that document, wherever
it is met (`defineClass_of_elsewhere`). The reference stands for the whole document, and so
for what is written there for the roots of its model.

What is written for classes is one tree to every depth (`treeOf`). That of a class is never a
choice between alternatives (`Single`), so a document whose model has no root, or several, is
not the description of a class; one with a single root is if the trees are the same
(`treeOf_eq_iff`).
-/

set_option autoImplicit false

namespace DataSpec.JsonSchema

variable {p : Publication} {m : StructuralModel} {stack : List Iri} {s s' : Naming}
  {key way : Iri} {c : StructuralClass} {d : Definition Reference}

/-- A class that another document describes is written as a reference to it. -/
theorem defineClass_of_elsewhere (hc : m.class? key = some c) (hl : c.isCodelist = false)
    (he : elsewhere? p m c = some way) :
    defineClass p m stack s key = .ok (ofClass p c (.ref (.document way)), s) := by
  have hmember : m.member key = .ok ⟨c, StructuralModel.mem_values_of_class? hc⟩ :=
    StructuralModel.member_of_class? hc
  rw [defineClass, hmember]
  simp [hl, he]

/-! ## Trees of classes -/

/-- The tree of what is written for classes, to a depth. -/
def treeOf (p : Publication) (m : StructuralModel) (keys : List Iri) (n : Nat) :
    Except ModelError (Definition Stop) :=
  (defineClasses p m [] .empty keys).map fun e => unfold e.2.defs n (.anyOf e.1)

/-- A document is the tree of its roots. -/
theorem treeOf_roots {schema : JsonSchema Reference} (h : draft p m = .ok (schema, s)) (n : Nat) :
    treeOf p m m.roots n = .ok (unfold schema.defs n schema.root) := by
  obtain ⟨-, -, h⟩ := Except.bind_eq_ok.mp h
  obtain ⟨⟨ds, s'⟩, hds, h⟩ := Except.bind_eq_ok.mp h
  obtain ⟨rfl, rfl⟩ := Prod.mk.inj (Except.ok.inj h)
  rw [treeOf, hds]
  rfl

/-- A document about one root is what is written for that class. -/
theorem defineClass_root {schema : JsonSchema Reference} (h : draft p m = .ok (schema, s))
    (hroots : m.roots = [key]) :
    defineClass p m [] .empty key = .ok (schema.root, s) ∧ s.defs = schema.defs := by
  obtain ⟨-, -, h⟩ := Except.bind_eq_ok.mp h
  obtain ⟨⟨ds, s'⟩, hds, h⟩ := Except.bind_eq_ok.mp h
  obtain ⟨rfl, rfl⟩ := Prod.mk.inj (Except.ok.inj h)
  rw [hroots, defineClasses_eq] at hds
  obtain ⟨⟨d, s₁⟩, hd, hds⟩ := Except.bind_eq_ok.mp hds
  obtain ⟨rfl, rfl⟩ := Prod.mk.inj (Except.ok.inj hds)
  exact ⟨hd, rfl⟩

/-- The tree is not a choice between alternatives. -/
def Single (t : Definition Stop) : Prop := ∀ ts, t ≠ .plain (.anyOf ts)

theorem single_unfoldObject (defs : SortedMap String (Definition Reference)) (n : Nat)
    (properties : List (String × Definition Reference)) (required : List String) :
    Single (unfoldObject defs n properties required) := by
  cases n <;> simp [unfoldObject, Single, Definition.plain]

theorem single_localRef (defs : SortedMap String (Definition Reference)) (n : Nat)
    (name : String) : Single (unfold defs n (Naming.localRef name)) := by
  rw [unfold_localRef]
  unfold unfoldNamed
  split
  · exact single_unfoldObject _ _ _ _
  · simp [Single, Definition.plain]

theorem single_close {defs : SortedMap String (Definition Reference)} {n : Nat}
    (h : Single (unfold defs n d)) : Single (unfold defs n (s.close c d).1) := by
  unfold Naming.close
  split
  · exact single_localRef _ _ _
  · exact h

/-- The tree of a class is not a choice between alternatives. -/
theorem single_of_defineClass (h : defineClass p m stack s key = .ok (d, s'))
    (defs : SortedMap String (Definition Reference)) (n : Nat) : Single (unfold defs n d) := by
  rw [defineClass_eq] at h
  obtain ⟨⟨c, hmem⟩, -, h⟩ := Except.bind_eq_ok.mp h
  split at h
  · obtain ⟨rfl, -⟩ := Prod.mk.inj (Except.ok.inj h)
    rw [ofClass, unfold_annotate]
    simp [unfold, Definition.expand, Shape.expand, Single, Definition.plain]
  split at h
  · obtain ⟨rfl, -⟩ := Prod.mk.inj (Except.ok.inj h)
    rw [ofClass, unfold_annotate]
    simp [unfold, Definition.expand, Shape.expand, Single, Definition.plain]
  simp only at h
  split at h
  · obtain ⟨rfl, -⟩ := Prod.mk.inj (Except.ok.inj h)
    exact single_localRef _ _ _
  · obtain ⟨⟨ps, s₁⟩, -, h⟩ := Except.map_eq_ok.mp h
    obtain rfl := congrArg Prod.fst h
    refine single_close ?_
    rw [ofClass, unfold_annotate]
    exact single_unfoldObject _ _ _ _

theorem length_of_defineClasses : ∀ {keys : List Iri} {s s' : Naming}
    {ds : List (Definition Reference)}, defineClasses p m stack s keys = .ok (ds, s') →
      ds.length = keys.length := by
  intro keys
  induction keys with
  | nil =>
    intro s s' ds h
    rw [defineClasses_eq] at h
    obtain ⟨rfl, -⟩ := Prod.mk.inj (Except.ok.inj h)
    rfl
  | cons key rest ih =>
    intro s s' ds h
    rw [defineClasses_eq] at h
    obtain ⟨⟨d, s₁⟩, -, h⟩ := Except.bind_eq_ok.mp h
    obtain ⟨⟨ds', s₂⟩, hds, h⟩ := Except.bind_eq_ok.mp h
    obtain ⟨rfl, -⟩ := Prod.mk.inj (Except.ok.inj h)
    rw [← defineClasses_eq] at hds
    exact congrArg (· + 1) (ih hds)

/-- The tree of one class is that of its definition. -/
theorem treeOf_singleton {n : Nat} {t : Definition Stop} (h : treeOf p m [key] n = .ok t) :
    ∃ d s, defineClass p m [] .empty key = .ok (d, s) ∧ t = unfold s.defs n d := by
  obtain ⟨⟨ds, s⟩, hds, rfl⟩ := Except.map_eq_ok.mp h
  rw [defineClasses_eq] at hds
  obtain ⟨⟨d, s₁⟩, hd, hds⟩ := Except.bind_eq_ok.mp hds
  obtain ⟨rfl, rfl⟩ := Prod.mk.inj (Except.ok.inj hds)
  exact ⟨d, s₁, hd, rfl⟩

theorem treeOf_of_defineClass (h : defineClass p m [] .empty key = .ok (d, s)) (n : Nat) :
    treeOf p m [key] n = .ok (unfold s.defs n d) := by
  rw [treeOf, defineClasses_eq]
  exact Except.map_eq_ok.mpr ⟨([d], s), Except.bind_eq_ok.mpr ⟨(d, s), h, rfl⟩, rfl⟩

/-- What is written for some classes is the description of one class if and only if they are
one, with the same tree. -/
theorem treeOf_eq_iff {keys : List Iri} {t : Nat → Definition Stop}
    (h : ∀ n, treeOf p m keys n = .ok (t n)) :
    (∀ n, treeOf p m [key] n = .ok (t n)) ↔
      ∃ r, keys = [r] ∧ ∀ n, treeOf p m [key] n = treeOf p m [r] n := by
  constructor
  · intro heq
    suffices hone : keys.length = 1 by
      obtain ⟨r, rfl⟩ := List.length_eq_one_iff.mp hone
      exact ⟨r, rfl, fun n => (heq n).trans (h n).symm⟩
    refine Classical.byContradiction fun hne => ?_
    obtain ⟨⟨ds, s⟩, hds, ht⟩ := Except.map_eq_ok.mp (h 0)
    obtain ⟨d, s', hd, ht'⟩ := treeOf_singleton (heq 0)
    have hlength : ds.length ≠ 1 := length_of_defineClasses hds ▸ hne
    have hany : Definition.anyOf (ds.map (unfold s.defs 0)) =
        .plain (.anyOf (ds.map (unfold s.defs 0))) := by
      match ds, hlength with
      | [], _ => rfl
      | _ :: _ :: _, _ => rfl
    refine single_of_defineClass hd s'.defs 0 (ds.map (unfold s.defs 0)) ?_
    rw [← ht', ← ht, unfold_anyOf, hany]
  · rintro ⟨r, rfl, hr⟩ n
    exact (hr n).trans (h n)

end DataSpec.JsonSchema
