import DataSpec.Store.Basic
import DataSpec.Proofs.Store.Deletion

/-!
# Link integrity

The resources of a store that started empty are `Linked`, whatever operations it was asked
for and whichever of them it refused (`Store.linked_attemptAll`).

Each operation is first read as a change of the network of links that its diff shows :
creation adds to it, deletion removes from it, and the rest relists one holder or nothing
(`Execution.sound_run`). Networks stay woven under these, so all that is left is to see
that a store with a woven network is linked.
-/

set_option autoImplicit false
set_option linter.unusedSectionVars false

namespace DataSpec

namespace Execution

open ResourceDiff Network

variable {x : Execution} {m m' : Minter} {d : ResourceDiff} {kind : Kind} {iri i : Iri}
  {r : Resource}

/-! ## Attributes, order and roots -/

/-- Changing one stored resource updates the network there. -/
theorem change_eq_ok {f : Resource → Resource} {g : Links → Links}
    (hfg : ∀ r, (f r).links = g r.links) (h : x.change iri f = .ok d) :
    d.Tidy x.resources ∧ ∃ l, x.network iri = some l ∧
      d.network x.resources = Function.update x.network iri (some (g l)) := by
  obtain ⟨htidy, l, hl, hnet⟩ := network_edit hfg (Tidy.empty _) h
  rw [network_empty] at hl hnet
  exact ⟨htidy, l, hl, hnet⟩

/-- Relisting a holder is what changing its lists does. -/
theorem relist_eq_update {N : Network} {l : Links} (hl : N i = some l) (parts roots : List Iri) :
    N.relist i parts roots =
      Function.update N i (some { l with parts := parts, roots := roots }) := by
  rw [relist, hl, Option.map_some]

theorem sound_setAttribute {key : AttributeKey} {value : Option AttributeValue}
    (w : x.network.Woven) (h : x.setAttribute iri key value = .ok d) : d.Sound x.resources := by
  -- A change of attributes that are not links leaves the network as it is.
  have same : ∀ {f : Resource → Resource}, (∀ r, (f r).links = r.links) →
      x.change iri f = .ok d → d.Sound x.resources := by
    intro f hf hd
    obtain ⟨htidy, l, hl, hnet⟩ := change_eq_ok (g := id) hf hd
    refine ⟨htidy, ?_⟩
    rwa [hnet, id, ← hl, Function.update_eq_self]
  unfold setAttribute at h
  split at h
  · simp at h
  rename_i hlink
  have hlink : key.isLink = false := Bool.eq_false_iff.mpr hlink
  obtain ⟨r, -, h⟩ := Except.bind_eq_ok.mp h
  cases value with
  | none => exact same (fun r => r.links_remove hlink) h
  | some v =>
    simp only at h
    split at h
    · simp at h
    split at h
    · simp at h
    · exact same (fun r => r.links_set hlink v) h

/-- Moving an element does not change which elements there are. -/
theorem perm_reorder {parts parts' : List Iri} {moved : Iri} {after : Option Iri}
    (hn : parts.Nodup) (hm : moved ∈ parts) (h : reorder parts moved after = some parts') :
    parts'.Perm parts := by
  have hrest : (moved :: parts.filter (· ≠ moved)).Perm parts := by
    have herase : parts.filter (· ≠ moved) = parts.erase moved := by
      rw [hn.erase_eq_filter]
      exact List.filter_congr fun a _ => by simp [bne, beq_eq_decide]
    rw [herase]
    exact (List.perm_cons_erase hm).symm
  unfold reorder at h
  cases after with
  | none =>
    obtain rfl := Option.some.inj h
    exact hrest
  | some anchor =>
    simp only at h
    split at h
    · obtain rfl := Option.some.inj h
      refine List.perm_middle.trans ?_
      rw [List.take_append_drop]
      exact hrest
    · simp at h

theorem sound_setOrder {moved : Iri} {after : Option Iri} (w : x.network.Woven)
    (h : x.setOrder iri moved after = .ok d) : d.Sound x.resources := by
  unfold setOrder at h
  obtain ⟨r, hr, h⟩ := Except.bind_eq_ok.mp h
  have hl : x.network iri = some r.links := of_eq_some (require_eq_ok hr)
  split at h
  · simp at h
  rename_i hmoved
  have hmoved : moved ∈ r.parts := by simpa using hmoved
  split at h
  · rename_i parts hparts
    obtain ⟨htidy, l, hl', hnet⟩ :=
      change_eq_ok (g := fun l => { l with parts := parts }) (fun r => r.links_set_parts _) h
    obtain rfl := Option.some.inj (hl.symm.trans hl')
    refine ⟨htidy, ?_⟩
    have hp := perm_reorder (w.nodup hl) hmoved hparts
    have hrel : x.network.relist iri parts r.links.roots =
        Function.update x.network iri (some { r.links with parts := parts }) :=
      relist_eq_update hl _ _
    rw [hnet, ← hrel]
    refine w.relist hl hp fun c hc => ?_
    obtain ⟨hcp, rest⟩ := w.root hl hc
    exact ⟨hp.mem_iff.mpr hcp, rest⟩
  · simp at h

theorem sound_setRoots {roots : List Iri} (w : x.network.Woven)
    (h : x.setRoots iri roots = .ok d) : d.Sound x.resources := by
  unfold setRoots at h
  obtain ⟨r, hr, h⟩ := Except.bind_eq_ok.mp h
  have hl : x.network iri = some r.links := of_eq_some (require_eq_ok hr)
  split at h
  · simp at h
  rename_i kind hkind
  obtain ⟨hk, hschema⟩ : r.kind? = some kind ∧ kind.isSchema = true :=
    Option.filter_eq_some_iff.mp hkind
  split at h
  · simp at h
  rename_i hfault
  obtain ⟨htidy, l, hl', hnet⟩ :=
    change_eq_ok (g := fun l => { l with roots := roots }) (fun r => r.links_set_roots _) h
  obtain rfl := Option.some.inj (hl.symm.trans hl')
  refine ⟨htidy, ?_⟩
  have hrel : x.network.relist iri r.links.parts roots =
      Function.update x.network iri (some { r.links with roots := roots }) :=
    relist_eq_update hl _ _
  rw [hnet, ← hrel]
  refine w.relist hl (.refl _) fun c hc => ?_
  have hroot := List.findSome?_eq_none_iff.mp hfault c hc
  unfold rootFault? at hroot
  split at hroot
  · simp at hroot
  rename_i hpart
  split at hroot
  · rename_i q hq
    obtain ⟨hnc, hkc⟩ := kinds_of_requireKind w hq
    obtain ⟨k, hk'⟩ := w.kind hl
    have hk' : r.kinds = [k] := hk'
    obtain rfl : k = kind := by
      rw [Resource.kind?, hk'] at hk
      exact Option.some.inj hk
    have hpart : c ∈ r.parts := by simpa using hpart
    exact ⟨hpart, k, q.links, hk', hschema, hnc, hkc⟩
  · simp at hroot

/-! ## Operations and runs -/

/-- Every operation leaves a woven store woven. -/
theorem sound_run {op : Operation} (w : x.network.Woven) (h : x.run m op = (.ok d, m')) :
    d.Sound x.resources := by
  cases op with
  | create kind owner attributes => exact sound_create w h
  | setAttribute target key value => exact sound_setAttribute w (congrArg Prod.fst h)
  | setOrder owner moved after => exact sound_setOrder w (congrArg Prod.fst h)
  | delete target => exact sound_delete w (congrArg Prod.fst h)
  | setRoots schema roots => exact sound_setRoots w (congrArg Prod.fst h)

end Execution

namespace ResourceMap

/-- Resources whose links agree with one another. -/
structure Linked (m : ResourceMap) : Prop where
  /-- Resources are kept under their own identifiers. -/
  key : ∀ {i r}, m.get? i = some r → r.iri = i
  /-- A resource has exactly one kind. -/
  kind : ∀ {i r}, m.get? i = some r → ∃ k, r.kinds = [k]
  /-- No part is listed twice. -/
  nodup : ∀ {i r}, m.get? i = some r → r.parts.Nodup
  /-- What is listed exists and names the holder of the list. -/
  part : ∀ {i r p}, m.get? i = some r → p ∈ r.parts →
    ∃ q, m.get? p = some q ∧ (q.iri? .owner = some i ∨ q.iri? .schema = some i)
  /-- An owner exists, lists the resource and has the same schema. -/
  owner : ∀ {i r o}, m.get? i = some r → r.iri? .owner = some o →
    ∃ q s, m.get? o = some q ∧ i ∈ q.parts ∧ q.iri? .schema = some s ∧ r.iri? .schema = some s
  /-- A schema exists and lists the resource. -/
  schema : ∀ {i r s}, m.get? i = some r → r.iri? .schema = some s →
    ∃ q, m.get? s = some q ∧ i ∈ q.parts
  /-- The roots of a schema are parts of it, and classes of its layer. -/
  root : ∀ {i r k c}, m.get? i = some r → r.kinds = [k] → k.isSchema = true →
    c ∈ r.iriList .roots → c ∈ r.parts ∧ ∃ q, m.get? c = some q ∧ q.kinds = [k.classKind]

open Network in
theorem linked_of_woven {m : ResourceMap} (w : m.network.Woven) : m.Linked where
  key hr := w.key (of_eq_some hr)
  kind hr := w.kind (of_eq_some hr)
  nodup hr := w.nodup (of_eq_some hr)
  part hr hp := by
    obtain ⟨l, hl, hh⟩ := w.part (of_eq_some hr) hp
    obtain ⟨q, hq, rfl⟩ := of_eq_some_iff.mp hl
    exact ⟨q, hq, hh⟩
  owner hr ho := by
    obtain ⟨-, l, s, hl, -, hi, hs, hs'⟩ := w.owner (of_eq_some hr) ho
    obtain ⟨q, hq, rfl⟩ := of_eq_some_iff.mp hl
    exact ⟨q, s, hq, hi, hs, hs'⟩
  schema hr hs := by
    obtain ⟨-, l, hl, -, hi⟩ := w.schema (of_eq_some hr) hs
    obtain ⟨q, hq, rfl⟩ := of_eq_some_iff.mp hl
    exact ⟨q, hq, hi⟩
  root {i r k c} hr hk _ hc := by
    obtain ⟨hp, k', l, hk', -, hl, hlk⟩ := w.root (of_eq_some hr) hc
    obtain ⟨q, hq, rfl⟩ := of_eq_some_iff.mp hl
    have hk' : r.kinds = [k'] := hk'
    obtain rfl : k = k' := by simpa [hk] using hk'
    exact ⟨hp, q, hq, hlk⟩

end ResourceMap

namespace Store

/-- The store after an operation was asked for : a refusal leaves it as it is. -/
def attempt (s : Store) (now : Instant) (op : Operation) : Store :=
  match s.apply now op with
  | .ok (_, s') => s'
  | .error _ => s

/-- The store after operations were asked for one after the other. -/
def attemptAll (s : Store) (ops : List (Instant × Operation)) : Store :=
  ops.foldl (fun s e => s.attempt e.1 e.2) s

/-- A store carries out an operation if it supports it and what is done is disjoint, and commits
that. -/
theorem applyTo_eq_ok_iff {s : Store} {state state' : StoreState} {now : Instant} {op : Operation}
    {d : ResourceDiff} :
    s.applyTo state now op = .ok (d, state') ↔ s.supported.contains op.tag = true ∧ ∃ m,
      Execution.run ⟨state.resources, s.base⟩ ⟨state.counters, .empty⟩ op = (.ok d, m) ∧
        d.isDisjoint = true ∧ state' = state.commit now op d m.counters := by
  constructor
  · intro h
    unfold applyTo execute at h
    split at h
    · cases h
    rename_i d' m hrun
    split at hrun
    · rename_i hs
      split at h
      · rename_i hdis
        obtain ⟨rfl, rfl⟩ := Prod.mk.inj (Except.ok.inj h)
        exact ⟨hs, m, hrun, hdis, rfl⟩
      · cases h
    · cases hrun
  · rintro ⟨hs, m, hrun, hdis, rfl⟩
    simp only [applyTo, execute, if_pos hs, hrun, if_pos hdis]

theorem apply_eq_ok_iff {s s' : Store} {now : Instant} {op : Operation} {d : ResourceDiff} :
    s.apply now op = .ok (d, s') ↔ s.supported.contains op.tag = true ∧ ∃ m,
      Execution.run ⟨s.state.resources, s.base⟩ ⟨s.state.counters, .empty⟩ op = (.ok d, m) ∧
        d.isDisjoint = true ∧ s' = s.withState (s.state.commit now op d m.counters) := by
  constructor
  · intro h
    obtain ⟨⟨d', state⟩, hd, heq⟩ := Except.map_eq_ok.mp h
    obtain ⟨rfl, rfl⟩ := Prod.mk.inj heq
    obtain ⟨hs, m, hrun, hdis, rfl⟩ := applyTo_eq_ok_iff.mp hd
    exact ⟨hs, m, hrun, hdis, rfl⟩
  · rintro ⟨hs, m, hrun, hdis, rfl⟩
    exact Except.map_eq_ok.mpr ⟨_, applyTo_eq_ok_iff.mpr ⟨hs, m, hrun, hdis, rfl⟩, rfl⟩

/-- What a store commits is what the operation did to its resources. -/
theorem applyTo_eq_ok {s : Store} {state state' : StoreState} {now : Instant} {op : Operation}
    {d : ResourceDiff} (h : s.applyTo state now op = .ok (d, state')) :
    ∃ m, Execution.run ⟨state.resources, s.base⟩ ⟨state.counters, .empty⟩ op = (.ok d, m) ∧
      state' = state.commit now op d m.counters := by
  obtain ⟨-, m, hrun, -, rfl⟩ := applyTo_eq_ok_iff.mp h
  exact ⟨m, hrun, rfl⟩

/-- A store commits only diffs that are disjoint. -/
theorem isDisjoint_of_applyTo {s : Store} {state state' : StoreState} {now : Instant}
    {op : Operation} {d : ResourceDiff} (h : s.applyTo state now op = .ok (d, state')) :
    d.isDisjoint = true := by
  obtain ⟨-, -, -, hdis, -⟩ := applyTo_eq_ok_iff.mp h
  exact hdis

theorem woven_applyTo {s : Store} {state state' : StoreState} {now : Instant} {op : Operation}
    {d : ResourceDiff} (w : state.resources.network.Woven)
    (h : s.applyTo state now op = .ok (d, state')) : state'.resources.network.Woven := by
  obtain ⟨m, hrun, rfl⟩ := applyTo_eq_ok h
  rw [ResourceMap.network, StoreState.commit, ResourceDiff.get?_applyTo]
  exact (Execution.sound_run (x := ⟨state.resources, s.base⟩) w hrun).woven

theorem woven_attempt {s : Store} (w : s.state.resources.network.Woven) (now : Instant)
    (op : Operation) : (s.attempt now op).state.resources.network.Woven := by
  unfold attempt apply
  cases h : s.applyTo s.state now op with
  | error e => exact w
  | ok r => exact woven_applyTo w h

theorem woven_attemptAll {s : Store} (w : s.state.resources.network.Woven)
    (ops : List (Instant × Operation)) : (s.attemptAll ops).state.resources.network.Woven := by
  induction ops generalizing s with
  | nil => exact w
  | cons e ops ih => exact ih (woven_attempt w e.1 e.2)

/-- A store that starts empty is linked after any operations, those it refuses included. -/
theorem linked_attemptAll (base : String) (ops : List (Instant × Operation)) :
    ((new base).attemptAll ops).state.resources.Linked := by
  have w : (new base).state.resources.network.Woven := Network.woven_none
  exact ResourceMap.linked_of_woven (woven_attemptAll w ops)

end Store

end DataSpec
