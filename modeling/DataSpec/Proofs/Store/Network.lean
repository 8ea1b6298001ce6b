import DataSpec.Resource.Basic
import Mathlib.Data.List.Nodup
import Mathlib.Data.List.Perm.Basic

/-!
# The network of links

Of a resource only its identifier, its kinds and four links matter to the integrity of a
store : `Links`. A `Network` has the links of every resource, and an operation either leaves
it alone or does a few of four things to it : `add` a resource to its holders, `remove` one
from them, permute the parts of a holder, or choose roots among them.

`Network.Woven` is the invariant. Besides what links have to satisfy it knows how far down
a resource stands (`Links.tier`) : schemas hold classes and associations, and these hold
the rest. That is why a resource without parts can be removed with no other resource
losing a holder.
-/

set_option autoImplicit false
set_option linter.unusedSectionVars false

namespace DataSpec

/-- How far up a kind stands : schemas hold the others, and classes and associations hold
those that hold nothing. -/
def Kind.tier : Kind → Nat
  | .conceptualSchema | .structuralSchema => 2
  | .conceptualClass | .structuralClass | .conceptualAssociation => 1
  | .conceptualAttribute | .conceptualAssociationEnd | .structuralAttribute
  | .structuralAssociationEnd | .structuralClassReference => 0

theorem Kind.tier_schemaKind (k : Kind) : k.schemaKind.tier = 2 := by cases k <;> decide

theorem Kind.tier_classKind (k : Kind) : k.classKind.tier = 1 := by cases k <;> decide

/-- What ties a resource to others. -/
structure Links where
  iri : Iri
  kinds : List Kind
  owner : Option Iri
  schema : Option Iri
  parts : List Iri
  roots : List Iri

/-- The links of a resource. -/
def Resource.links (r : Resource) : Links :=
  ⟨r.iri, r.kinds, r.iri? .owner, r.iri? .schema, r.parts, r.iriList .roots⟩

namespace Links

/-- The links of a new resource. -/
def new (iri : Iri) (kind : Kind) (owner schema : Option Iri) : Links :=
  ⟨iri, [kind], owner, schema, [], []⟩

/-- How far up a resource stands. -/
def tier (l : Links) : Nat := ((l.kinds.head?).map Kind.tier).getD 0

/-- Whether a resource is held by the one with an identifier. -/
def HeldBy (l : Links) (holder : Iri) : Prop := l.owner = some holder ∨ l.schema = some holder

instance (l : Links) (holder : Iri) : Decidable (l.HeldBy holder) :=
  inferInstanceAs (Decidable (_ ∨ _))

/-- Put a part at the end. -/
def push (l : Links) (iri : Iri) : Links := { l with parts := l.parts ++ [iri] }

/-- Take a part out of the lists. -/
def drop (l : Links) (iri : Iri) : Links :=
  { l with parts := l.parts.filter (· ≠ iri), roots := l.roots.filter (· ≠ iri) }

theorem tier_of_kinds {l : Links} {k : Kind} (h : l.kinds = [k]) : l.tier = k.tier := by
  rw [tier, h]
  rfl

/-- The same links but for the lists. -/
structure Alike (l l' : Links) : Prop where
  iri : l.iri = l'.iri
  kinds : l.kinds = l'.kinds
  owner : l.owner = l'.owner
  schema : l.schema = l'.schema

theorem Alike.refl (l : Links) : l.Alike l := ⟨rfl, rfl, rfl, rfl⟩

theorem Alike.tier {l l' : Links} (h : l.Alike l') : l.tier = l'.tier := by
  rw [Links.tier, Links.tier, h.kinds]

theorem Alike.heldBy {l l' : Links} (h : l.Alike l') {holder : Iri} :
    l.HeldBy holder ↔ l'.HeldBy holder := by
  rw [HeldBy, HeldBy, h.owner, h.schema]

theorem alike_push (l : Links) (iri : Iri) : (l.push iri).Alike l := ⟨rfl, rfl, rfl, rfl⟩

/-- What is no schema names the one that holds it. -/
def Housed (l : Links) : Prop := l.tier < 2 → ∃ s, l.schema = some s

theorem Alike.housed {l l' : Links} (h : l.Alike l') (h' : l'.Housed) : l.Housed := by
  rw [Housed, h.tier, h.schema]
  exact h'

/-- Taking out what is in neither list changes nothing. -/
theorem drop_eq_self {l : Links} {iri : Iri} (hp : iri ∉ l.parts) (hr : iri ∉ l.roots) :
    l.drop iri = l := by
  have keep : ∀ {is : List Iri}, iri ∉ is → is.filter (· ≠ iri) = is := fun h =>
    List.filter_eq_self.mpr fun a ha => by
      have : a ≠ iri := fun h' => h (h' ▸ ha)
      simpa using this
  rw [drop, keep hp, keep hr]

end Links

/-- The links of the resource with each identifier. -/
abbrev Network := Iri → Option Links

namespace Network

variable {N : Network} {l h : Links} {i n o s : Iri}

/-- Links that hold each other as those of a store do. -/
structure Woven (N : Network) : Prop where
  key : ∀ {i l}, N i = some l → l.iri = i
  kind : ∀ {i l}, N i = some l → ∃ k, l.kinds = [k]
  nodup : ∀ {i l}, N i = some l → l.parts.Nodup
  part : ∀ {i l p}, N i = some l → p ∈ l.parts → ∃ q, N p = some q ∧ q.HeldBy i
  owner : ∀ {i l o}, N i = some l → l.owner = some o → l.tier = 0 ∧
    ∃ q s, N o = some q ∧ q.tier = 1 ∧ i ∈ q.parts ∧ q.schema = some s ∧ l.schema = some s
  schema : ∀ {i l s}, N i = some l → l.schema = some s → l.tier < 2 ∧
    ∃ q, N s = some q ∧ q.tier = 2 ∧ i ∈ q.parts
  root : ∀ {i l c}, N i = some l → c ∈ l.roots → c ∈ l.parts ∧
    ∃ k q, l.kinds = [k] ∧ k.isSchema = true ∧ N c = some q ∧ q.kinds = [k.classKind]

/-- No links at all. -/
theorem woven_none : Woven fun _ => none :=
  ⟨nofun, nofun, nofun, nofun, nofun, nofun, nofun⟩

namespace Woven

variable (w : Woven N)
include w

/-- A holder stands higher than what it holds. -/
theorem tier_lt_of_heldBy (hl : N i = some l) (hh : l.HeldBy o) (hq : N o = some h) :
    l.tier < h.tier := by
  rcases hh with hh | hh
  · obtain ⟨h₀, q, -, hq', h₁, -⟩ := w.owner hl hh
    obtain rfl := Option.some.inj (hq.symm.trans hq')
    omega
  · obtain ⟨h₂, q, hq', hs, -⟩ := w.schema hl hh
    obtain rfl := Option.some.inj (hq.symm.trans hq')
    omega

/-- Nothing is listed that is not there. -/
theorem not_mem_parts (hn : N n = none) (hl : N i = some l) : n ∉ l.parts := fun hp => by
  obtain ⟨q, hq, -⟩ := w.part hl hp
  simp [hn] at hq

/-- What stands lowest has no parts. -/
theorem parts_eq_nil (hl : N i = some l) (h₀ : l.tier = 0) : l.parts = [] := by
  refine List.eq_nil_iff_forall_not_mem.mpr fun p hp => ?_
  obtain ⟨q, hq, hh⟩ := w.part hl hp
  have := w.tier_lt_of_heldBy hq hh hl
  omega

/-- The parts of what is not a schema have it as their owner. -/
theorem owner_of_mem_parts (hl : N i = some l) (ht : l.tier < 2) (hp : n ∈ l.parts) :
    ∃ q, N n = some q ∧ q.owner = some i := by
  obtain ⟨q, hq, hh | hh⟩ := w.part hl hp
  · exact ⟨q, hq, hh⟩
  · obtain ⟨-, q', hq', h₂, -⟩ := w.schema hq hh
    obtain rfl := Option.some.inj (hl.symm.trans hq')
    omega

end Woven

/-! ## Adding a resource -/

/-- A new resource, at the end of the parts of its holders. -/
def add (N : Network) (l : Links) : Network := fun i =>
  if i = l.iri then some l else (N i).map fun h => if l.HeldBy i then h.push l.iri else h

/-- A new resource that fits in. -/
structure Fits (N : Network) (l : Links) : Prop where
  fresh : N l.iri = none
  kind : ∃ k, l.kinds = [k]
  parts : l.parts = []
  roots : l.roots = []
  owner : ∀ {o}, l.owner = some o → l.tier = 0 ∧
    ∃ q s, N o = some q ∧ q.tier = 1 ∧ q.schema = some s ∧ l.schema = some s
  schema : ∀ {s}, l.schema = some s → l.tier < 2 ∧ ∃ q, N s = some q ∧ q.tier = 2

theorem add_self (N : Network) (l : Links) : N.add l l.iri = some l := if_pos rfl

theorem add_of_ne (hi : i ≠ l.iri) :
    N.add l i = (N i).map fun h => if l.HeldBy i then h.push l.iri else h := if_neg hi

/-- A holder of the new resource lists it. -/
theorem add_of_heldBy (hi : i ≠ l.iri) (hN : N i = some h) (hh : l.HeldBy i) :
    N.add l i = some (h.push l.iri) := by
  rw [add_of_ne hi, hN, Option.map_some, if_pos hh]

/-- A resource after an addition is the new one, or an old one with at most one more part. -/
theorem add_cases (ha : N.add l i = some h) :
    (i = l.iri ∧ h = l) ∨ ∃ h₀, N i = some h₀ ∧ h.Alike h₀ ∧ h.roots = h₀.roots ∧
      h.parts = if l.HeldBy i then h₀.parts ++ [l.iri] else h₀.parts := by
  unfold add at ha
  split at ha
  · exact Or.inl ⟨‹_›, (Option.some.inj ha).symm⟩
  · obtain ⟨h₀, hh, rfl⟩ := Option.map_eq_some_iff.mp ha
    refine Or.inr ⟨h₀, hh, ?_⟩
    split
    · exact ⟨h₀.alike_push _, rfl, rfl⟩
    · exact ⟨.refl h₀, rfl, rfl⟩

/-- What was there before an addition still is, with at least the same parts. -/
theorem exists_add (hf : Fits N l) (hh : N i = some h) :
    ∃ h', N.add l i = some h' ∧ h'.Alike h ∧ (∀ p ∈ h.parts, p ∈ h'.parts) ∧
      (l.HeldBy i → l.iri ∈ h'.parts) := by
  have hi : i ≠ l.iri := by
    rintro rfl
    simp [hf.fresh] at hh
  refine ⟨_, (add_of_ne hi).trans (by rw [hh]; rfl), ?_⟩
  split
  · exact ⟨h.alike_push _, fun p hp => by simp [Links.push, hp], fun _ => by simp [Links.push]⟩
  · exact ⟨.refl h, fun p hp => hp, fun hb => absurd hb ‹_›⟩

/-- Adding what fits in keeps a network woven. -/
theorem Woven.add (w : Woven N) (hf : Fits N l) : Woven (N.add l) where
  key ha := by
    rcases add_cases ha with ⟨rfl, rfl⟩ | ⟨h₀, hh, hal, -⟩
    · rfl
    · exact hal.iri.trans (w.key hh)
  kind ha := by
    rcases add_cases ha with ⟨-, rfl⟩ | ⟨h₀, hh, hal, -⟩
    · exact hf.kind
    · rw [hal.kinds]
      exact w.kind hh
  nodup ha := by
    rcases add_cases ha with ⟨-, rfl⟩ | ⟨h₀, hh, -, -, hp⟩
    · rw [hf.parts]
      exact List.nodup_nil
    · rw [hp]
      split
      · have hn := w.not_mem_parts hf.fresh hh
        exact List.nodup_append'.mpr ⟨w.nodup hh, List.nodup_singleton _, by simpa using hn⟩
      · exact w.nodup hh
  part {i h p} ha hpm := by
    rcases add_cases ha with ⟨-, rfl⟩ | ⟨h₀, hh, -, -, hp⟩
    · simp [hf.parts] at hpm
    have new : p ∈ h₀.parts ∨ (l.HeldBy i ∧ p = l.iri) := by
      rw [hp] at hpm
      split at hpm
      · rcases List.mem_append.mp hpm with hpm | hpm
        · exact Or.inl hpm
        · exact Or.inr ⟨‹_›, List.mem_singleton.mp hpm⟩
      · exact Or.inl hpm
    rcases new with hpm | ⟨hb, rfl⟩
    · obtain ⟨q, hq, hb⟩ := w.part hh hpm
      obtain ⟨q', hq', hal, -⟩ := exists_add hf hq
      exact ⟨q', hq', hal.heldBy.mpr hb⟩
    · exact ⟨l, add_self N l, hb⟩
  owner ha ho := by
    rcases add_cases ha with ⟨rfl, rfl⟩ | ⟨h₀, hh, hal, -⟩
    · obtain ⟨ht, q, s, hq, htq, hs, hs'⟩ := hf.owner ho
      obtain ⟨q', hq', halq, -, hi⟩ := exists_add hf hq
      exact ⟨ht, q', s, hq', halq.tier.trans htq, hi (Or.inl ho), halq.schema.trans hs, hs'⟩
    · obtain ⟨ht, q, s, hq, htq, hi, hs, hs'⟩ := w.owner hh (hal.owner.symm.trans ho)
      obtain ⟨q', hq', halq, hp, -⟩ := exists_add hf hq
      exact ⟨hal.tier.trans ht, q', s, hq', halq.tier.trans htq, hp _ hi, halq.schema.trans hs,
        hal.schema.trans hs'⟩
  schema ha hs := by
    rcases add_cases ha with ⟨rfl, rfl⟩ | ⟨h₀, hh, hal, -⟩
    · obtain ⟨ht, q, hq, htq⟩ := hf.schema hs
      obtain ⟨q', hq', halq, -, hi⟩ := exists_add hf hq
      exact ⟨ht, q', hq', halq.tier.trans htq, hi (Or.inr hs)⟩
    · obtain ⟨ht, q, hq, htq, hi⟩ := w.schema hh (hal.schema.symm.trans hs)
      obtain ⟨q', hq', halq, hp, -⟩ := exists_add hf hq
      exact ⟨hal.tier ▸ ht, q', hq', halq.tier.trans htq, hp _ hi⟩
  root ha hc := by
    rcases add_cases ha with ⟨-, rfl⟩ | ⟨h₀, hh, hal, hr, hp⟩
    · simp [hf.roots] at hc
    · obtain ⟨hcp, k, q, hk, hs, hq, hq'⟩ := w.root hh (hr ▸ hc)
      obtain ⟨q', hq'', halq, -⟩ := exists_add hf hq
      refine ⟨?_, k, q', hal.kinds.trans hk, hs, hq'', halq.kinds.trans hq'⟩
      rw [hp]
      split
      · exact List.mem_append_left _ hcp
      · exact hcp

/-- A resource that nothing holds is just put there. -/
theorem add_unheld (ho : l.owner = none) (hs : l.schema = none) :
    N.add l = Function.update N l.iri (some l) := by
  funext i
  by_cases hi : i = l.iri
  · subst hi
    rw [add_self, Function.update_self]
  · rw [add_of_ne hi, Function.update_of_ne hi]
    simp [Links.HeldBy, ho, hs]

/-- A resource that one other holds is put there and listed. -/
theorem add_held (ho : l.owner = none)
    (hs : l.schema = some s) (hne : s ≠ l.iri) (hh : N s = some h) :
    N.add l =
      Function.update (Function.update N l.iri (some l)) s (some (h.push l.iri)) := by
  funext i
  by_cases hi : i = s
  · subst hi
    rw [add_of_heldBy hne hh (Or.inr hs), Function.update_self]
  · rw [Function.update_of_ne hi]
    by_cases hi' : i = l.iri
    · subst hi'
      rw [add_self, Function.update_self]
    · rw [add_of_ne hi', Function.update_of_ne hi']
      simp [Links.HeldBy, ho, hs, Ne.symm hi]

/-- A resource that two others hold is put there and listed twice. -/
theorem add_owned {h' : Links} (ho : l.owner = some o)
    (hs : l.schema = some s) (hos : s ≠ o) (hol : o ≠ l.iri) (hsl : s ≠ l.iri)
    (hh : N o = some h) (hh' : N s = some h') :
    N.add l = Function.update (Function.update (Function.update N l.iri (some l)) o
      (some (h.push l.iri))) s (some (h'.push l.iri)) := by
  funext i
  by_cases hi : i = s
  · subst hi
    rw [add_of_heldBy hsl hh' (Or.inr hs), Function.update_self]
  rw [Function.update_of_ne hi]
  by_cases hi' : i = o
  · subst hi'
    rw [add_of_heldBy hol hh (Or.inl ho), Function.update_self]
  rw [Function.update_of_ne hi']
  by_cases hi'' : i = l.iri
  · subst hi''
    rw [add_self, Function.update_self]
  · rw [add_of_ne hi'', Function.update_of_ne hi'']
    simp [Links.HeldBy, ho, hs, Ne.symm hi, Ne.symm hi']

/-! ## Removing a resource -/

/-- A network without a resource, which is taken out of all lists. -/
def remove (N : Network) (n : Iri) : Network := fun i =>
  if i = n then none else (N i).map fun h => h.drop n

theorem remove_cases (hr : N.remove n i = some h) :
    i ≠ n ∧ ∃ h₀, N i = some h₀ ∧ h = h₀.drop n := by
  unfold remove at hr
  split at hr
  · simp at hr
  · obtain ⟨h₀, hh₀, rfl⟩ := Option.map_eq_some_iff.mp hr
    exact ⟨‹_›, h₀, hh₀, rfl⟩

theorem remove_of_ne (hi : i ≠ n) (hh : N i = some h) : N.remove n i = some (h.drop n) := by
  rw [remove, if_neg hi, hh, Option.map_some]

/-- Removing what has no parts keeps a network woven. -/
theorem Woven.remove (w : Woven N) (hl : N n = some l) (hp : l.parts = []) :
    Woven (N.remove n) where
  key hr := by
    obtain ⟨-, h₀, hh, rfl⟩ := remove_cases hr
    exact w.key (l := h₀) hh
  kind hr := by
    obtain ⟨-, h₀, hh, rfl⟩ := remove_cases hr
    exact w.kind (l := h₀) hh
  nodup hr := by
    obtain ⟨-, h₀, hh, rfl⟩ := remove_cases hr
    exact (w.nodup hh).filter _
  part {i h p} hr hpm := by
    obtain ⟨hi, h₀, hh, rfl⟩ := remove_cases hr
    have hpm : p ∈ h₀.parts ∧ p ≠ n := by simpa [Links.drop] using hpm
    obtain ⟨q, hq, hb⟩ := w.part hh hpm.1
    exact ⟨q.drop n, remove_of_ne hpm.2 hq, hb⟩
  owner {i h o} hr ho := by
    obtain ⟨hi, h₀, hh, rfl⟩ := remove_cases hr
    obtain ⟨ht, q, s, hq, htq, hip, hs, hs'⟩ := w.owner hh ho
    have hon : o ≠ n := by
      rintro rfl
      obtain rfl := Option.some.inj (hl.symm.trans hq)
      simp [hp] at hip
    exact ⟨ht, q.drop n, s, remove_of_ne hon hq, htq, by simp [Links.drop, hip, hi], hs, hs'⟩
  schema {i h s} hr hs := by
    obtain ⟨hi, h₀, hh, rfl⟩ := remove_cases hr
    obtain ⟨ht, q, hq, htq, hip⟩ := w.schema hh hs
    have hsn : s ≠ n := by
      rintro rfl
      obtain rfl := Option.some.inj (hl.symm.trans hq)
      simp [hp] at hip
    exact ⟨ht, q.drop n, remove_of_ne hsn hq, htq, by simp [Links.drop, hip, hi]⟩
  root {i h c} hr hc := by
    obtain ⟨hi, h₀, hh, rfl⟩ := remove_cases hr
    have hc : c ∈ h₀.roots ∧ c ≠ n := by simpa [Links.drop] using hc
    obtain ⟨hcp, k, q, hk, hs, hq, hq'⟩ := w.root hh hc.1
    exact ⟨by simp [Links.drop, hcp, hc.2], k, q.drop n, hk, hs, remove_of_ne hc.2 hq, hq'⟩

/-! ## Several resources -/

/-- New resources, one after the other. -/
def addAll (N : Network) (ls : List Links) : Network := ls.foldl add N

/-- New resources each of which fits in when those before it are there. -/
def FitAll : Network → List Links → Prop
  | _, [] => True
  | N, l :: ls => Fits N l ∧ FitAll (N.add l) ls

/-- A network without some resources. -/
def removeAll (N : Network) (ns : List Iri) : Network := ns.foldl remove N

theorem Woven.addAll {ls : List Links} (w : Woven N) (hf : FitAll N ls) : Woven (N.addAll ls) := by
  induction ls generalizing N with
  | nil => exact w
  | cons l ls ih => exact ih (w.add hf.1) hf.2

/-- Of what was there before additions the new parts are listed, in order. -/
theorem addAll_of_notMem {ls : List Links} (hi : i ∉ ls.map Links.iri) :
    N.addAll ls i = (N i).map fun h =>
      { h with parts := h.parts ++ (ls.filter fun l => l.HeldBy i).map Links.iri } := by
  induction ls generalizing N with
  | nil => simp [addAll]
  | cons l ls ih =>
    rw [List.map_cons, List.mem_cons, not_or] at hi
    have hstep : N.addAll (l :: ls) = (N.add l).addAll ls := rfl
    rw [hstep, ih hi.2, add_of_ne hi.1, Option.map_map]
    congr 1
    funext h
    by_cases hh : l.HeldBy i <;> simp [hh, Links.push]

/-- What is added was not there. -/
theorem FitAll.fresh {ls : List Links} (hf : FitAll N ls) (hl : l ∈ ls) : N l.iri = none := by
  induction ls generalizing N with
  | nil => cases hl
  | cons l₀ ls ih =>
    rcases List.mem_cons.mp hl with rfl | hl
    · exact hf.1.fresh
    · have hnone := ih hf.2 hl
      unfold add at hnone
      split at hnone
      · cases hnone
      · exact Option.map_eq_none_iff.mp hnone

/-- A new resource is there afterwards, and lists those of the following that it holds. -/
theorem addAll_cons_self {ls : List Links} (hf : FitAll N (l :: ls)) :
    N.addAll (l :: ls) l.iri = some
      { l with parts := l.parts ++ (ls.filter fun e => e.HeldBy l.iri).map Links.iri } := by
  have hnew : l.iri ∉ ls.map Links.iri := fun hmem => by
    obtain ⟨q, hq, heq⟩ := List.mem_map.mp hmem
    have hfresh := hf.2.fresh hq
    rw [heq, add_self] at hfresh
    cases hfresh
  exact (addAll_of_notMem hnew).trans (congrArg _ (add_self N l))

theorem exists_addAll {ls : List Links} (hf : FitAll N ls) (hl : l ∈ ls) :
    ∃ h, N.addAll ls l.iri = some h ∧ h.Alike l := by
  induction ls generalizing N with
  | nil => cases hl
  | cons l₀ ls ih =>
    rcases List.mem_cons.mp hl with rfl | hl
    · exact ⟨_, addAll_cons_self hf, ⟨rfl, rfl, rfl, rfl⟩⟩
    · exact ih hf.2 hl

theorem removeAll_cons (N : Network) (n : Iri) (ns : List Iri) :
    N.removeAll (n :: ns) = (N.remove n).removeAll ns := rfl

theorem removeAll_of_mem {ns : List Iri} (hi : i ∈ ns) : N.removeAll ns i = none := by
  -- What is not there any more does not come back.
  have hgone : ∀ {ns : List Iri} {N : Network}, N i = none → N.removeAll ns i = none := by
    intro ns
    induction ns with
    | nil => exact id
    | cons n ns ih =>
      intro N hN
      refine ih ?_
      rw [remove, hN, Option.map_none, ite_self]
  induction ns generalizing N with
  | nil => cases hi
  | cons n ns ih =>
    rw [removeAll_cons]
    rcases List.mem_cons.mp hi with rfl | hi
    · exact hgone (if_pos rfl)
    · exact ih hi

theorem removeAll_of_notMem {ns : List Iri} (hi : i ∉ ns) :
    N.removeAll ns i = (N i).map fun h =>
      { h with parts := h.parts.filter (· ∉ ns), roots := h.roots.filter (· ∉ ns) } := by
  induction ns generalizing N with
  | nil => simp [removeAll]
  | cons n ns ih =>
    rw [List.mem_cons, not_or] at hi
    rw [removeAll_cons, ih hi.2, remove, if_neg hi.1, Option.map_map]
    congr 1
    funext h
    simp [Links.drop, List.filter_filter, Bool.and_comm]

/-- Removing what was added undoes the addition. -/
theorem removeAll_addAll {ls : List Links} {ns : List Iri} (w : Woven N) (hf : FitAll N ls)
    (hns : ∀ n, n ∈ ns ↔ n ∈ ls.map Links.iri) : (N.addAll ls).removeAll ns = N := by
  have hfresh : ∀ n ∈ ns, N n = none := fun n hn => by
    obtain ⟨l, hl, rfl⟩ := List.mem_map.mp ((hns n).mp hn)
    exact hf.fresh hl
  funext i
  by_cases hi : i ∈ ns
  · rw [removeAll_of_mem hi, hfresh i hi]
  rw [removeAll_of_notMem hi, addAll_of_notMem (mt (hns i).mpr hi), Option.map_map]
  cases hh : N i with
  | none => rfl
  | some h =>
    -- The old lists have nothing of what was added, and the new parts are nothing else.
    have hparts : h.parts.filter (· ∉ ns) = h.parts := List.filter_eq_self.mpr fun p hp => by
      simpa using fun hn => w.not_mem_parts (hfresh p hn) hh hp
    have hroots : h.roots.filter (· ∉ ns) = h.roots := List.filter_eq_self.mpr fun c hc => by
      simpa using fun hn => w.not_mem_parts (hfresh c hn) hh (w.root hh hc).1
    have hnew : ((ls.filter fun l => l.HeldBy i).map Links.iri).filter (· ∉ ns) = [] := by
      refine List.filter_eq_nil_iff.mpr fun n hn => ?_
      obtain ⟨l, hl, rfl⟩ := List.mem_map.mp hn
      simpa using (hns _).mpr (List.mem_map_of_mem (List.mem_of_mem_filter hl))
    rw [Option.map_some, Function.comp, List.filter_append, hparts, hroots, hnew, List.append_nil]

/-! ## Changing the lists of a holder -/

/-- A network in which a holder has other lists. -/
def relist (N : Network) (n : Iri) (parts roots : List Iri) : Network :=
  Function.update N n ((N n).map fun h => { h with parts := parts, roots := roots })

theorem relist_cases {parts roots : List Iri} (hr : N.relist n parts roots i = some h) :
    ∃ h₀, N i = some h₀ ∧ h.Alike h₀ ∧
      ((i = n ∧ h.parts = parts ∧ h.roots = roots) ∨
        (i ≠ n ∧ h.parts = h₀.parts ∧ h.roots = h₀.roots)) := by
  by_cases hi : i = n
  · subst hi
    rw [relist, Function.update_self] at hr
    obtain ⟨h₀, hh, rfl⟩ := Option.map_eq_some_iff.mp hr
    exact ⟨h₀, hh, ⟨rfl, rfl, rfl, rfl⟩, Or.inl ⟨rfl, rfl, rfl⟩⟩
  · rw [relist, Function.update_of_ne hi] at hr
    exact ⟨h, hr, .refl h, Or.inr ⟨hi, rfl, rfl⟩⟩

/-- What was there before the lists changed still is. -/
theorem exists_relist (n : Iri) (parts roots : List Iri) (hh : N i = some h) :
    ∃ h', N.relist n parts roots i = some h' ∧ h'.Alike h ∧
      h'.parts = if i = n then parts else h.parts := by
  by_cases hi : i = n
  · subst hi
    refine ⟨{ h with parts := parts, roots := roots }, ?_, ⟨rfl, rfl, rfl, rfl⟩,
      (if_pos rfl).symm⟩
    rw [relist, Function.update_self, hh, Option.map_some]
  · exact ⟨h, by rw [relist, Function.update_of_ne hi, hh], .refl h, (if_neg hi).symm⟩

/-- What a holder listed it still lists when its parts are only reordered. -/
theorem exists_relisted {parts : List Iri} (roots : List Iri) {p : Iri} (hp : parts.Perm l.parts)
    (hl : N n = some l) (hh : N i = some h) (hi : p ∈ h.parts) :
    ∃ h', N.relist n parts roots i = some h' ∧ h'.Alike h ∧ p ∈ h'.parts := by
  obtain ⟨h', hh', hal, hp'⟩ := exists_relist n parts roots hh
  refine ⟨h', hh', hal, ?_⟩
  rw [hp']
  split
  · obtain rfl := ‹i = n›
    obtain rfl := Option.some.inj (hl.symm.trans hh)
    exact hp.mem_iff.mpr hi
  · exact hi

/-- A holder may have its parts in another order, and any roots that are classes of its
layer out of them. -/
theorem Woven.relist (w : Woven N) (hl : N n = some l) {parts roots : List Iri}
    (hp : parts.Perm l.parts)
    (hr : ∀ c ∈ roots, c ∈ parts ∧ ∃ k q, l.kinds = [k] ∧ k.isSchema = true ∧ N c = some q ∧
      q.kinds = [k.classKind]) : Woven (N.relist n parts roots) where
  key ha := by
    obtain ⟨h₀, hh, hal, -⟩ := relist_cases ha
    exact hal.iri.trans (w.key hh)
  kind ha := by
    obtain ⟨h₀, hh, hal, -⟩ := relist_cases ha
    rw [hal.kinds]
    exact w.kind hh
  nodup ha := by
    obtain ⟨h₀, hh, -, ⟨-, hp', -⟩ | ⟨-, hp', -⟩⟩ := relist_cases ha
    · rw [hp']
      exact hp.nodup_iff.mpr (w.nodup hl)
    · rw [hp']
      exact w.nodup hh
  part {i h p} ha hpm := by
    obtain ⟨h₀, hh, -, hc⟩ := relist_cases ha
    have hpm : p ∈ h₀.parts := by
      rcases hc with ⟨rfl, hp', -⟩ | ⟨-, hp', -⟩
      · obtain rfl := Option.some.inj (hl.symm.trans hh)
        exact hp.mem_iff.mp (hp' ▸ hpm)
      · exact hp' ▸ hpm
    obtain ⟨q, hq, hb⟩ := w.part hh hpm
    obtain ⟨q', hq', hal, -⟩ := exists_relist n parts roots hq
    exact ⟨q', hq', hal.heldBy.mpr hb⟩
  owner ha ho := by
    obtain ⟨h₀, hh, hal, -⟩ := relist_cases ha
    obtain ⟨ht, q, s, hq, htq, hip, hs, hs₀⟩ := w.owner hh (hal.owner.symm.trans ho)
    obtain ⟨q', hq', halq, hi⟩ := exists_relisted roots hp hl hq hip
    exact ⟨hal.tier.trans ht, q', s, hq', halq.tier.trans htq, hi, halq.schema.trans hs,
      hal.schema.trans hs₀⟩
  schema ha hs := by
    obtain ⟨h₀, hh, hal, -⟩ := relist_cases ha
    obtain ⟨ht, q, hq, htq, hip⟩ := w.schema hh (hal.schema.symm.trans hs)
    obtain ⟨q', hq', halq, hi⟩ := exists_relisted roots hp hl hq hip
    exact ⟨hal.tier ▸ ht, q', hq', halq.tier.trans htq, hi⟩
  root {i h c} ha hc := by
    obtain ⟨h₀, hh, hal, hcase⟩ := relist_cases ha
    have old : c ∈ h.parts ∧ ∃ k q, h₀.kinds = [k] ∧ k.isSchema = true ∧ N c = some q ∧
        q.kinds = [k.classKind] := by
      rcases hcase with ⟨rfl, hp', hr'⟩ | ⟨-, hp', hr'⟩
      · obtain rfl := Option.some.inj (hl.symm.trans hh)
        rw [hp']
        exact hr c (hr' ▸ hc)
      · rw [hp']
        exact w.root hh (hr' ▸ hc)
    obtain ⟨hcp, k, q, hk, hs, hq, hq'⟩ := old
    obtain ⟨q', hq'', halq, -⟩ := exists_relist n parts roots hq
    exact ⟨hcp, k, q', hal.kinds.trans hk, hs, hq'', halq.kinds.trans hq'⟩

end Network

end DataSpec
