import DataSpec.Proofs.Store.Creation

/-!
# Deletion and the links of a store

A resource may go when it has no parts. Deletion takes it out of the lists of its holders,
which are all that have it, so this removes it from the network (`network_detach_delete`).
With an association its ends go one after the other, and then it has no parts any more. So
deletion removes a resource and its parts, and nothing else (`removes_delete`).
-/

set_option autoImplicit false
set_option linter.unusedSectionVars false

namespace DataSpec

namespace Execution

open ResourceDiff Network

variable {x : Execution} {d : ResourceDiff} {iri i : Iri} {r : Resource}

/-- A diff that creates nothing : while resources are deleted this is so throughout. -/
structure Removing (x : Execution) (d : ResourceDiff) : Prop where
  tidy : d.Tidy x.resources
  created : d.created = .empty

theorem Removing.empty (x : Execution) : x.Removing ResourceDiff.empty := ⟨Tidy.empty _, rfl⟩

/-- What is shown is in the store and not deleted. -/
theorem Removing.of_view (h : x.Removing d) (hv : d.view x.resources i = some r) :
    x.resources.contains i = true ∧ d.deleted.contains i = false := by
  rw [view, h.created] at hv
  cases hc : d.changed.get? i with
  | some r =>
    have hc := SortedMap.contains_iff.mpr ⟨r, hc⟩
    exact ⟨h.tidy.changed hc, h.tidy.apart hc⟩
  | none =>
    simp only [hc, SortedMap.get?_empty, Option.none_or] at hv
    split at hv
    · simp at hv
    · exact ⟨SortedMap.contains_iff.mpr ⟨_, hv⟩, Bool.eq_false_iff.mpr ‹_›⟩

theorem Removing.edit {f : Resource → Resource} {d' : ResourceDiff} (h : x.Removing d)
    (he : d.edit x.resources i f = .ok d') : x.Removing d' := by
  refine ⟨(edit_eq_ok h.tidy he).1, ?_⟩
  obtain ⟨-, ⟨r, hr, rfl⟩ | ⟨r, -, -, rfl⟩⟩ := edit_cases he
  · simp [h.created] at hr
  · exact h.created

theorem Removing.delete (h : x.Removing d) (hi : x.resources.contains i = true) :
    x.Removing (d.delete i) := by
  refine ⟨h.tidy.delete hi, ?_⟩
  simp [ResourceDiff.delete, h.created]

/-- A holder that is there loses a resource from its lists. -/
theorem network_detachFrom {d' : ResourceDiff} {holder : Option Iri} (h : x.Removing d)
    (hd : x.detachFrom d iri holder = .ok d') :
    x.Removing d' ∧ d'.network x.resources = fun i =>
      if holder = some i then (d.network x.resources i).map (·.drop iri)
      else d.network x.resources i := by
  unfold detachFrom at hd
  cases holder with
  | none =>
    obtain rfl := Except.ok.inj hd
    exact ⟨h, by simp⟩
  | some o =>
    simp only at hd
    split at hd
    · rename_i hgone
      obtain rfl := Except.ok.inj hd
      refine ⟨h, funext fun i => ?_⟩
      split
      · rename_i ho
        obtain rfl := Option.some.inj ho
        cases hv : d.view x.resources o with
        | none => simp [ResourceDiff.network, Network.of, hv]
        | some r =>
          obtain ⟨hc, hdel⟩ := h.of_view hv
          rw [hc, hdel] at hgone
          simp at hgone
      · rfl
    · obtain ⟨-, l, hl, hnet⟩ := network_edit (g := (·.drop iri))
        (fun r => r.links_detach iri) h.tidy hd
      refine ⟨h.edit hd, funext fun i => ?_⟩
      rw [hnet]
      by_cases hi : i = o
      · subst hi
        rw [Function.update_self, if_pos rfl, hl, Option.map_some]
      · rw [Function.update_of_ne hi, if_neg fun h => hi (Option.some.inj h).symm]

/-- A resource without parts that is taken out of the lists of its holders and deleted is
removed from the network. -/
theorem network_detach_delete {d' : ResourceDiff} {l : Links} (h : x.Removing d)
    (w : (d.network x.resources).Woven) (hr : x.resources.get? r.iri = some r)
    (hl : d.network x.resources r.iri = some l) (hal : l.Alike r.links)
    (hd : x.detach d r = .ok d') :
    x.Removing (d'.delete r.iri) ∧
      (d'.delete r.iri).network x.resources = (d.network x.resources).remove r.iri := by
  obtain ⟨d₁, ho, hd⟩ := Except.bind_eq_ok.mp hd
  obtain ⟨h₁, hn₁⟩ := network_detachFrom h ho
  obtain ⟨h₂, hn₂⟩ := network_detachFrom h₁ hd
  have hc : x.resources.contains r.iri = true := SortedMap.contains_iff.mpr ⟨r, hr⟩
  refine ⟨h₂.delete hc, ?_⟩
  rw [network_delete h₂.tidy hc]
  funext i
  by_cases hi : i = r.iri
  · subst hi
    rw [Function.update_self, remove, if_pos rfl]
  rw [Function.update_of_ne hi, remove, if_neg hi]
  simp only [hn₂, hn₁]
  cases hq : d.network x.resources i with
  | none => simp
  | some q =>
    by_cases hheld : l.HeldBy i
    · have hdrop : (q.drop r.iri).drop r.iri = q.drop r.iri := by simp [Links.drop]
      have ho' : r.iri? .owner = l.owner := hal.owner.symm
      have hs' : r.iri? .schema = l.schema := hal.schema.symm
      simp only [ho', hs']
      rcases hheld with hh | hh
      · by_cases hh' : l.schema = some i <;> simp [hh, hh', hdrop]
      · by_cases hh' : l.owner = some i <;> simp [hh, hh', hdrop]
    · -- Nobody but the holders lists the resource.
      have hp : r.iri ∉ q.parts := fun hp => by
        obtain ⟨l', hl', hh⟩ := w.part hq hp
        obtain rfl := Option.some.inj (hl.symm.trans hl')
        exact hheld hh
      have hroots : r.iri ∉ q.roots := fun hroot => hp (w.root hq hroot).1
      have ho' : r.iri? .owner ≠ some i := fun h => hheld (Or.inl (hal.owner.trans h))
      have hs' : r.iri? .schema ≠ some i := fun h => hheld (Or.inr (hal.schema.trans h))
      simp [ho', hs', Links.drop_eq_self hp hroots]

/-- Deleting ends one after the other removes them from the network, and leaves it woven. -/
theorem removing_deleteEnds (w₀ : x.network.Woven) :
    ∀ {ends : List Iri} {d d' : ResourceDiff}, ends.Nodup →
      x.Removing d → (d.network x.resources).Woven →
      (∀ e ∈ ends, ∃ l l₀, d.network x.resources e = some l ∧ l.tier = 0 ∧
        x.network e = some l₀ ∧ l.Alike l₀) →
      ends.foldlM x.deleteEnd d = .ok d' →
      x.Removing d' ∧ (d'.network x.resources).Woven ∧
        d'.network x.resources = (d.network x.resources).removeAll ends
  | [], d, d', _, h, w, _, hd => by
    obtain rfl := Except.ok.inj hd
    exact ⟨h, w, rfl⟩
  | e :: ends, d, d', hn, h, w, hends, hd => by
    obtain ⟨hne, hn'⟩ := List.nodup_cons.mp hn
    obtain ⟨l, l₀, hl, ht, hl₀, hal⟩ := hends e List.mem_cons_self
    obtain ⟨r, hr, rfl⟩ := of_eq_some_iff.mp hl₀
    obtain rfl : r.iri = e := w₀.key hl₀
    obtain ⟨d₁, hd₁, hd⟩ := Except.bind_eq_ok.mp hd
    rw [deleteEnd, hr] at hd₁
    obtain ⟨d₂, hdet, hd₁⟩ := Except.bind_eq_ok.mp hd₁
    obtain rfl := Except.ok.inj hd₁
    obtain ⟨h₁, hnet⟩ := network_detach_delete h w hr hl hal hdet
    have w₁ : ((d₂.delete r.iri).network x.resources).Woven := by
      rw [hnet]
      exact w.remove hl (w.parts_eq_nil hl ht)
    obtain ⟨h₂, w₂, hrest⟩ := removing_deleteEnds w₀ hn' h₁ w₁ (fun e he => by
      obtain ⟨l, l₀, hl, ht, hl₀, hal⟩ := hends e (List.mem_cons_of_mem _ he)
      have her : e ≠ r.iri := fun h => hne (h ▸ he)
      refine ⟨l.drop r.iri, l₀, ?_, ht, hl₀, ⟨hal.iri, hal.kinds, hal.owner, hal.schema⟩⟩
      rw [hnet]
      exact remove_of_ne her hl) hd
    refine ⟨h₂, w₂, ?_⟩
    rw [hrest, hnet, removeAll_cons]

/-- What is shown before anything is deleted. -/
theorem removing_start (w : x.network.Woven) :
    x.Removing ResourceDiff.empty ∧ (ResourceDiff.empty.network x.resources).Woven :=
  ⟨.empty x, by rwa [network_empty]⟩

/-- A diff that removes resources from a store, and leaves its links woven. -/
structure Removes (x : Execution) (d : ResourceDiff) (ns : List Iri) : Prop where
  removing : x.Removing d
  woven : (d.network x.resources).Woven
  network : d.network x.resources = x.network.removeAll ns

/-- What has no parts any more once others are removed can be deleted with them. -/
theorem Removes.detach_delete {ns : List Iri} {l : Links} {d' : ResourceDiff} (h : x.Removes d ns)
    (hr : x.resources.get? r.iri = some r) (hl : d.network x.resources r.iri = some l)
    (hal : l.Alike r.links) (hp : l.parts = []) (hd : x.detach d r = .ok d') :
    x.Removes (d'.delete r.iri) (ns ++ [r.iri]) := by
  obtain ⟨h', hnet⟩ := network_detach_delete h.removing h.woven hr hl hal hd
  refine ⟨h', hnet ▸ h.woven.remove hl hp, ?_⟩
  rw [hnet, h.network, removeAll, removeAll, List.foldl_append]
  rfl

/-- What is released with a resource: nothing where it is a schema, the links to it from its
holders, and the ends of an association before that. A resource with other parts is not
released. -/
theorem release_cases {k : Kind} (h : x.release iri r k = .ok d) :
    (k.tier = 2 ∧ r.parts = [] ∧ d = .empty) ∨
      ((k.tier = 0 ∨ r.parts = []) ∧ x.detach .empty r = .ok d) ∨
      (k = .conceptualAssociation ∧ ∃ d₁, r.parts.foldlM x.deleteEnd ResourceDiff.empty = .ok d₁ ∧
        x.detach d₁ r = .ok d) := by
  -- Schemas and classes are refused while they have parts.
  have hempty : ∀ {released : Except StoreError ResourceDiff} {e : StoreError},
      (if r.parts.isEmpty then released else .error e) = .ok d →
        r.parts = [] ∧ released = .ok d := by
    intro released e h
    split at h
    · rename_i hp
      exact ⟨List.isEmpty_iff.mp hp, h⟩
    · cases h
  cases k with
  | conceptualSchema | structuralSchema =>
    obtain ⟨hp, hd⟩ := hempty h
    exact .inl ⟨rfl, hp, (Except.ok.inj hd).symm⟩
  | conceptualClass | structuralClass =>
    obtain ⟨hp, hd⟩ := hempty h
    exact .inr (.inl ⟨.inr hp, hd⟩)
  | conceptualAssociation => exact .inr (.inr ⟨rfl, Except.bind_eq_ok.mp h⟩)
  | conceptualAttribute | structuralAttribute | structuralAssociationEnd
  | structuralClassReference => exact .inr (.inl ⟨.inl rfl, h⟩)
  | conceptualAssociationEnd => cases h

/-- Nobody holds a schema. -/
theorem detach_of_tier (w : x.network.Woven) (hr : x.resources.get? r.iri = some r)
    (ht : r.links.tier = 2) (d : ResourceDiff) : x.detach d r = .ok d := by
  have hl : x.network r.iri = some r.links := of_eq_some hr
  have ho : r.iri? .owner = none := Option.eq_none_iff_forall_ne_some.mpr fun o ho => by
    have := (w.owner hl ho).1
    omega
  have hs : r.iri? .schema = none := Option.eq_none_iff_forall_ne_some.mpr fun s hs => by
    have := (w.schema hl hs).1
    omega
  rw [detach, ho, hs]
  rfl

/-- A resource without parts is removed alone. -/
theorem removes_alone (w : x.network.Woven) (hr : x.resources.get? r.iri = some r)
    (hp : r.parts = []) (hd : x.detach .empty r = .ok d) :
    x.Removes (d.delete r.iri) (r.parts ++ [r.iri]) := by
  obtain ⟨h₀, w₀⟩ := removing_start w
  have hstart : x.Removes .empty [] := ⟨h₀, w₀, x.network_empty⟩
  have hl : ResourceDiff.empty.network x.resources r.iri = some r.links := by
    rw [network_empty]
    exact of_eq_some hr
  rw [hp]
  exact hstart.detach_delete hr hl (.refl _) hp hd

/-- An association is removed with its ends. -/
theorem removes_association (w : x.network.Woven) (hr : x.resources.get? r.iri = some r)
    (ht : r.links.tier = 1) {d₁ : ResourceDiff}
    (hfold : r.parts.foldlM x.deleteEnd ResourceDiff.empty = .ok d₁) (hd : x.detach d₁ r = .ok d) :
    x.Removes (d.delete r.iri) (r.parts ++ [r.iri]) := by
  obtain ⟨h₀, w₀⟩ := removing_start w
  have hl : x.network r.iri = some r.links := of_eq_some hr
  have hself : r.iri ∉ r.parts := fun hp => by
    obtain ⟨q, hq, ho⟩ := w.owner_of_mem_parts hl (by omega) hp
    have := w.tier_lt_of_heldBy hq (Or.inl ho) hl
    obtain rfl := Option.some.inj (hl.symm.trans hq)
    omega
  obtain ⟨h₁, w₁, hnet⟩ := removing_deleteEnds w (w.nodup hl) h₀ w₀ (fun e he => by
    obtain ⟨q, hq, ho⟩ := w.owner_of_mem_parts hl (by omega) he
    exact ⟨q, q, by rwa [network_empty], (w.owner hq ho).1, hq, .refl q⟩) hfold
  have hends : x.Removes d₁ r.parts := ⟨h₁, w₁, by rw [hnet, network_empty]; rfl⟩
  have hl' := congrFun hends.network r.iri
  rw [removeAll_of_notMem hself, hl, Option.map_some] at hl'
  have hnone : r.links.parts.filter (· ∉ r.parts) = [] :=
    List.filter_eq_nil_iff.mpr fun p (hp : p ∈ r.parts) => by simpa using hp
  exact hends.detach_delete hr hl' ⟨rfl, rfl, rfl, rfl⟩ hnone hd

/-- Deletion removes a resource with its parts, which only an association may have. -/
theorem removes_delete (w : x.network.Woven) (h : x.delete iri = .ok d) :
    ∃ r, x.resources.get? iri = some r ∧ x.Removes d (r.parts ++ [iri]) := by
  obtain ⟨r, hr, h⟩ := Except.bind_eq_ok.mp h
  have hr := require_eq_ok hr
  have hl : x.network iri = some r.links := of_eq_some hr
  obtain rfl : r.iri = iri := w.key hl
  obtain ⟨k, hk⟩ := w.kind hl
  have ht : r.links.tier = k.tier := Links.tier_of_kinds hk
  rw [Resource.kind?, show r.kinds = [k] from hk, List.head?_cons] at h
  obtain ⟨d₁, hrelease, h⟩ := Except.bind_eq_ok.mp h
  obtain rfl := Except.ok.inj h
  refine ⟨r, hr, ?_⟩
  obtain ⟨htop, hp, rfl⟩ | ⟨hparts, hdetach⟩ | ⟨rfl, d₂, hfold, hdetach⟩ := release_cases hrelease
  · exact removes_alone w hr hp (detach_of_tier w hr (ht.trans htop) _)
  · exact removes_alone w hr (hparts.elim (fun h₀ => w.parts_eq_nil hl (ht.trans h₀)) id) hdetach
  · exact removes_association w hr ht hfold hdetach

theorem sound_delete (w : x.network.Woven) (h : x.delete iri = .ok d) : d.Sound x.resources := by
  obtain ⟨r, -, hremoves⟩ := removes_delete w h
  exact ⟨hremoves.removing.tidy, hremoves.woven⟩

end Execution

end DataSpec
