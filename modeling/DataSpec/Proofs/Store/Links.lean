import DataSpec.Proofs.Store.Diff
import DataSpec.Proofs.Store.Network

/-!
# Links in resources and diffs

How the links of a resource follow its attributes, and how the network that a diff shows
follows its creations, edits and deletions. Proofs about operations are about networks from
here on : they see neither attributes nor the three maps of a diff.
-/

set_option autoImplicit false
set_option linter.unusedSectionVars false

namespace DataSpec

/-! ## Links of resources that change -/

namespace Resource

@[simp]
theorem iri_set (r : Resource) (k : AttributeKey) (v : AttributeValue) :
    (r.set k v).iri = r.iri := rfl

@[simp]
theorem kinds_set (r : Resource) (k : AttributeKey) (v : AttributeValue) :
    (r.set k v).kinds = r.kinds := rfl

@[simp]
theorem get?_set (r : Resource) (k k' : AttributeKey) (v : AttributeValue) :
    (r.set k v).get? k' = if k' = k then some v else r.get? k' :=
  SortedMap.get?_insert r.attributes k v k'

@[simp]
theorem get?_remove (r : Resource) (k k' : AttributeKey) :
    (r.remove k).get? k' = if k' = k then none else r.get? k' :=
  SortedMap.get?_erase r.attributes k k'

/-- Attributes that are not links do not matter. -/
theorem links_set (r : Resource) {k : AttributeKey} (h : k.isLink = false) (v : AttributeValue) :
    (r.set k v).links = r.links := by
  cases k <;> simp_all [links, iri?, parts, iriList, AttributeKey.isLink, set, get?,
    SortedMap.get?_insert]

/-- The same is true of an attribute that is removed. -/
theorem links_remove (r : Resource) {k : AttributeKey} (h : k.isLink = false) :
    (r.remove k).links = r.links := by
  cases k <;> simp_all [links, iri?, parts, iriList, AttributeKey.isLink, remove, get?,
    SortedMap.get?_erase]

/-- Parts that are set are the parts among the links. -/
theorem links_set_parts (r : Resource) (is : List Iri) :
    (r.set .parts (.iriList is)).links = { r.links with parts := is } := by
  simp [links, iri?, parts, iriList]

/-- Roots that are set are the roots among the links. -/
theorem links_set_roots (r : Resource) (is : List Iri) :
    (r.set .roots (.iriList is)).links = { r.links with roots := is } := by
  simp [links, iri?, parts, iriList]

/-- The owner that is set is the one among the links. -/
theorem links_set_owner (r : Resource) (iri : Iri) :
    (r.set .owner (.iri iri)).links = { r.links with owner := some iri } := by
  simp [links, iri?, parts, iriList]

/-- The schema that is set is the one among the links. -/
theorem links_set_schema (r : Resource) (iri : Iri) :
    (r.set .schema (.iri iri)).links = { r.links with schema := some iri } := by
  simp [links, iri?, parts, iriList]

/-- What is given a schema names it. -/
theorem housed_set_schema (r : Resource) (iri : Iri) :
    (r.set .schema (.iri iri)).links.Housed := by
  intro
  rw [links_set_schema]
  exact ⟨iri, rfl⟩

/-- To add a part adds it to the links. -/
theorem links_addPart (r : Resource) (iri : Iri) : (r.addPart iri).links = r.links.push iri :=
  r.links_set_parts _

/-- Taking an identifier out of a list that does not have it changes nothing. -/
theorem iriList_detach (r : Resource) (k k' : AttributeKey) (iri : Iri) :
    (r.detach k iri).iriList k' =
      if k' = k then (r.iriList k).filter (· ≠ iri) else r.iriList k' := by
  unfold detach
  split
  · by_cases h : k' = k
    · subst h
      simp [updateList, iriList]
    · simp [updateList, iriList, h]
  · rename_i hc
    split
    · rename_i h
      subst h
      refine (List.filter_eq_self.mpr fun a ha => ?_).symm
      have : a ≠ iri := fun h => hc (h ▸ List.contains_iff_mem.mpr ha)
      simpa using this
    · rfl

/-- Nothing but the list that it is taken out of changes. -/
theorem iri?_detach (r : Resource) {k k' : AttributeKey} (h : k' ≠ k) (iri : Iri) :
    (r.detach k iri).iri? k' = r.iri? k' := by
  unfold detach
  split <;> simp [updateList, iri?, h]

/-- To take a resource out of both lists drops it from the links. -/
theorem links_detach (r : Resource) (iri : Iri) :
    ((r.detach .parts iri).detach .roots iri).links = r.links.drop iri := by
  have hi : ∀ (r : Resource) k, (r.detach k iri).iri = r.iri := fun r k => by
    unfold detach
    split <;> rfl
  have hk : ∀ (r : Resource) k, (r.detach k iri).kinds = r.kinds := fun r k => by
    unfold detach
    split <;> rfl
  simp [links, parts, Links.drop, hi, hk, iriList_detach, iri?_detach]

end Resource

namespace Network

/-- The links of the resources in a view. -/
def of (v : Iri → Option Resource) : Network := fun iri => (v iri).map Resource.links

/-- A network changes where the resources do. -/
theorem of_update (v : Iri → Option Resource) (iri : Iri) (r : Option Resource) :
    of (Function.update v iri r) = Function.update (of v) iri (r.map Resource.links) := by
  funext i
  by_cases hi : i = iri
  · subst hi
    simp [of]
  · simp [of, hi]

/-- The links at an identifier are those of the resource there. -/
theorem of_eq_some_iff {v : Iri → Option Resource} {iri : Iri} {l : Links} :
    of v iri = some l ↔ ∃ r, v iri = some r ∧ r.links = l :=
  Option.map_eq_some_iff

theorem of_eq_some {v : Iri → Option Resource} {iri : Iri} {r : Resource} (h : v iri = some r) :
    of v iri = some r.links := by
  rw [of, h, Option.map_some]

end Network

/-- The links of the resources of a map. -/
def ResourceMap.network (m : ResourceMap) : Network := .of m.get?

/-- The links that a diff shows of a store. -/
def ResourceDiff.network (d : ResourceDiff) (m : ResourceMap) : Network := .of (d.view m)

namespace ResourceDiff

variable {d d' : ResourceDiff} {m : ResourceMap} {iri : Iri}

/-- An edit that does `g` to the links does so in the network. -/
theorem network_edit {f : Resource → Resource} {g : Links → Links}
    (hfg : ∀ r, (f r).links = g r.links) (h : d.Tidy m) (he : d.edit m iri f = .ok d') :
    d'.Tidy m ∧ ∃ l, d.network m iri = some l ∧
      d'.network m = Function.update (d.network m) iri (some (g l)) := by
  obtain ⟨h', r, hr, hv⟩ := edit_eq_ok h he
  refine ⟨h', r.links, Network.of_eq_some hr, ?_⟩
  rw [network, hv, Network.of_update, Option.map_some, hfg]
  rfl

/-- The same where the links before are known. -/
theorem network_edit_of_eq_some {f : Resource → Resource} {g : Links → Links} {l : Links}
    (hfg : ∀ r, (f r).links = g r.links) (h : d.Tidy m) (hl : d.network m iri = some l)
    (he : d.edit m iri f = .ok d') :
    d'.Tidy m ∧ d'.network m = Function.update (d.network m) iri (some (g l)) := by
  obtain ⟨h', l', hl', hnet⟩ := network_edit hfg h he
  obtain rfl := Option.some.inj (hl.symm.trans hl')
  exact ⟨h', hnet⟩

/-- A creation puts the links of the new resource there. -/
theorem network_create {r : Resource} {l : Links} (h : d.Tidy m) (hm : m.get? iri = none)
    (hi : r.iri = iri) (hl : r.links = l) :
    (d.create r).Tidy m ∧
      (d.create r).network m = Function.update (d.network m) iri (some l) := by
  subst hi hl
  refine ⟨h.create hm, ?_⟩
  rw [network, view_create h hm, Network.of_update, Option.map_some]
  rfl

/-- What is deleted is in the network no more. -/
theorem network_delete (h : d.Tidy m) (hm : m.contains iri = true) :
    (d.delete iri).network m = Function.update (d.network m) iri none := by
  rw [network, view_delete h hm, Network.of_update, Option.map_none]
  rfl

/-- A diff that leaves a store with woven links. -/
structure Sound (d : ResourceDiff) (m : ResourceMap) : Prop where
  tidy : d.Tidy m
  woven : (d.network m).Woven

/-- A diff that adds resources with some links. -/
structure Adds (d : ResourceDiff) (m : ResourceMap) (ls : List Links) : Prop where
  tidy : d.Tidy m
  fits : m.network.FitAll ls
  network : d.network m = m.network.addAll ls

/-- A diff that adds links to a woven network is sound. -/
theorem Adds.sound {ls : List Links} (w : m.network.Woven) (h : d.Adds m ls) : d.Sound m :=
  ⟨h.tidy, h.network ▸ w.addAll h.fits⟩

end ResourceDiff

end DataSpec
