import DataSpec.Proofs.Store.History

/-!
# Well-formed diffs

The diff of an operation is `WellFormed` for the resources that the operation read : it creates
what is not there, and a body that it changes stays that of the same resource, with the same kinds
and holders. This asks nothing of the resources. Their links may dangle or contradict one
another, for it is kept by whatever a diff is made of : creation under free identifiers, light
edits, and deletions. So no store ever rejects what an executor does as overlapping
(`Store.commits_wellFormed`).
-/

set_option autoImplicit false

namespace DataSpec

namespace ResourceDiff

open SortedMap

variable {d d' : ResourceDiff} {m : ResourceMap} {r : Resource} {iri : Iri}

/-! ## Changed bodies -/

/-- The new bodies are those of stored resources, and are related to the stored ones. -/
def Changes (R : Resource → Resource → Prop) (d : ResourceDiff) (m : ResourceMap) : Prop :=
  ∀ i r', d.changed.get? i = some r' → ∃ r, m.get? i = some r ∧ R r' r

section

variable {R : Resource → Resource → Prop}

theorem changes_empty : empty.Changes R m := by
  intro i r' h
  simp [empty] at h

/-- A body may be edited several times. -/
theorem Changes.edit {f : Resource → Resource} (htrans : ∀ {a b c}, R a b → R b c → R a c)
    (hf : ∀ r, R (f r) r) (h : d.Changes R m) (he : d.edit m iri f = .ok d') : d'.Changes R m := by
  obtain ⟨-, ⟨r, -, rfl⟩ | ⟨r, -, hbody, rfl⟩⟩ := edit_cases he
  · exact h
  intro i r' hr'
  rw [get?_insert] at hr'
  split at hr'
  · rename_i hi
    subst hi
    obtain rfl := Option.some.inj hr'
    rcases hbody with hch | ⟨-, hm⟩
    · obtain ⟨r₀, hr₀, hR⟩ := h i r hch
      exact ⟨r₀, hr₀, htrans (hf r) hR⟩
    · exact ⟨r, hm, hf r⟩
  · exact h i r' hr'

theorem Changes.delete (h : d.Changes R m) (iri : Iri) : (d.delete iri).Changes R m := by
  have herase : ∀ i r', (d.changed.erase iri).get? i = some r' →
      ∃ r, m.get? i = some r ∧ R r' r := by
    intro i r' hr'
    rw [get?_erase] at hr'
    split at hr'
    · cases hr'
    · exact h i r' hr'
  unfold ResourceDiff.delete
  split <;> exact herase

/-- What is there before and after a diff, and which the diff does not create, is related to
what it was. -/
theorem Changes.applyTo (hrefl : ∀ r, R r r) (h : d.Changes R m) {i : Iri} {r r' : Resource}
    (hc : d.created.get? i = none) (hr : m.get? i = some r)
    (hr' : (d.applyTo m).get? i = some r') : R r' r := by
  rw [get?_applyTo, view, hc, Option.none_or] at hr'
  rcases Option.or_eq_some_iff.mp hr' with hch | ⟨-, hr'⟩
  · obtain ⟨q, hq, hR⟩ := h i r' hch
    exact Option.some.inj (hr.symm.trans hq) ▸ hR
  split at hr'
  · cases hr'
  · exact Option.some.inj (hr.symm.trans hr') ▸ hrefl r

end

/-! ## Well-formed diffs -/

/-- A diff that creates resources that are not there, under their own identifiers, gives stored
resources new bodies of the same identity, and does neither to what it deletes. -/
structure WellFormed (d : ResourceDiff) (m : ResourceMap) : Prop where
  created : ∀ i r, d.created.get? i = some r → m.get? i = none ∧ r.iri = i
  changed : d.Changes Resource.Akin m
  deleted : ∀ i, d.deleted.contains i = true →
    d.created.contains i = false ∧ d.changed.contains i = false

theorem wellFormed_empty (m : ResourceMap) : empty.WellFormed m :=
  ⟨nofun, changes_empty, nofun⟩

theorem WellFormed.isDisjoint (h : d.WellFormed m) : d.isDisjoint = true := by
  refine isDisjoint_iff.mpr ⟨fun i hc => ⟨?_, ?_⟩, fun i hch => ?_⟩
  · refine Bool.eq_false_iff.mpr fun hch => ?_
    obtain ⟨r, hr⟩ := contains_iff.mp hc
    obtain ⟨r', hr'⟩ := contains_iff.mp hch
    obtain ⟨q, hq, -⟩ := h.changed i r' hr'
    rw [(h.created i r hr).1] at hq
    cases hq
  · exact Bool.eq_false_iff.mpr fun hdel => by simp [(h.deleted i hdel).1] at hc
  · exact Bool.eq_false_iff.mpr fun hdel => by simp [(h.deleted i hdel).2] at hch

theorem WellFormed.create (h : d.WellFormed m) (hm : m.get? r.iri = none)
    (hd : d.deleted.contains r.iri = false) : (d.create r).WellFormed m where
  created i q hq := by
    rw [ResourceDiff.create, get?_insert] at hq
    split at hq
    · rename_i hi
      subst hi
      obtain rfl := Option.some.inj hq
      exact ⟨hm, rfl⟩
    · exact h.created i q hq
  changed := h.changed
  deleted i hi := by
    refine ⟨?_, (h.deleted i hi).2⟩
    rw [contains_created_create, (h.deleted i hi).1, Bool.or_false, decide_eq_false_iff_not]
    rintro rfl
    exact Bool.false_ne_true (hd.symm.trans hi)

theorem WellFormed.foldl_create (h : d.WellFormed m) (hd : d.deleted = .empty)
    {rs : List Resource} (hrs : ∀ r ∈ rs, m.get? r.iri = none) :
    (rs.foldl ResourceDiff.create d).WellFormed m := by
  induction rs generalizing d with
  | nil => exact h
  | cons r rs ih =>
    obtain ⟨hr, hrs⟩ := List.forall_mem_cons.mp hrs
    exact ih (h.create hr (by rw [hd, contains_empty])) hd hrs

/-- Editing adds no identifier but that of a stored resource that is not being deleted. -/
theorem WellFormed.edit {f : Resource → Resource} (hf : Light f) (h : d.WellFormed m)
    (he : d.edit m iri f = .ok d') : d'.WellFormed m := by
  refine ⟨fun i r hr => ?_, h.changed.edit .trans hf.akin he, fun i hi => ?_⟩
  · obtain ⟨-, ⟨q, hq, rfl⟩ | ⟨q, -, -, rfl⟩⟩ := edit_cases he
    · rw [get?_insert] at hr
      split at hr
      · rename_i hi
        subst hi
        obtain rfl := Option.some.inj hr
        obtain ⟨hm, hiri⟩ := h.created i q hq
        exact ⟨hm, (hf.akin q).iri.trans hiri⟩
      · exact h.created i r hr
    · exact h.created i r hr
  · rw [contains_created_edit he]
    obtain ⟨hdel, ⟨q, -, rfl⟩ | ⟨q, -, -, rfl⟩⟩ := edit_cases he
    · exact h.deleted i hi
    · refine ⟨(h.deleted i hi).1, ?_⟩
      rw [contains_insert, (h.deleted i hi).2, Bool.or_false, decide_eq_false_iff_not]
      rintro rfl
      exact Bool.false_ne_true (hdel.symm.trans hi)

/-- What is deleted is neither created nor changed any more, even if it was never there. -/
theorem WellFormed.delete (h : d.WellFormed m) (iri : Iri) : (d.delete iri).WellFormed m := by
  refine ⟨fun i r hr => ?_, h.changed.delete iri, fun i hi => ?_⟩
  · unfold ResourceDiff.delete at hr
    split at hr
    · rw [get?_erase] at hr
      split at hr
      · cases hr
      · exact h.created i r hr
    · exact h.created i r hr
  · unfold ResourceDiff.delete at hi ⊢
    split at hi
    · rename_i hc
      rw [if_pos hc, contains_erase, contains_erase, (h.deleted i hi).1, (h.deleted i hi).2]
      simp
    · rename_i hc
      rw [if_neg hc, contains_erase]
      rw [SortedSet.contains_add, Bool.or_eq_true, decide_eq_true_eq] at hi
      rcases hi with rfl | hi
      · exact ⟨Bool.eq_false_iff.mpr hc, by simp⟩
      · rw [(h.deleted i hi).1, (h.deleted i hi).2]
        simp

theorem kept_wellFormed (m : ResourceMap) : Kept Light m (·.WellFormed m) :=
  ⟨wellFormed_empty m, fun hf h he => h.edit hf he, fun iri h => h.delete iri⟩

/-- What is there before and after a well-formed diff is the same resource. -/
theorem WellFormed.akin (h : d.WellFormed m) {i : Iri} {r r' : Resource} (hr : m.get? i = some r)
    (hr' : (d.applyTo m).get? i = some r') : r'.Akin r := by
  refine h.changed.applyTo .refl (Option.eq_none_iff_forall_ne_some.mpr fun q hq => ?_) hr hr'
  rw [(h.created i q hq).1] at hr
  cases hr

end ResourceDiff

/-! ## Operations -/

namespace Execution

open ResourceDiff

variable {x : Execution} {m m' : Minter} {d : ResourceDiff}

/-- Identifiers that are minted are not those of resources. -/
theorem Mints.absent {is : List Iri} (h : x.Mints m is m') :
    ∀ i ∈ is, x.resources.get? i = none := by
  induction h with
  | nil m => nofun
  | cons hm _ ih => exact List.forall_mem_cons.mpr ⟨(mint_eq_ok hm).1, ih⟩

/-- Every successful operation has a well-formed diff, whatever the resources are. -/
theorem wellFormed_run {op : Operation} (h : x.run m op = (.ok d, m')) :
    d.WellFormed x.resources := by
  by_cases hop : op.tag = .create
  · obtain ⟨rs, is, hmints, hperm, -, hedits⟩ := makes_run h hop
    have habsent : ∀ r ∈ rs, x.resources.get? r.iri = none := fun r hr =>
      hmints.absent _ (hperm.mem_iff.mp (List.mem_map_of_mem hr))
    have hcreated := (wellFormed_empty x.resources).foldl_create rfl habsent
    exact hedits.keep (P := (·.WellFormed x.resources)) (fun hf hd he => hd.edit hf.light he)
      hcreated
  · exact (kept_run (kept_wellFormed x.resources) h hop).1

end Execution

/-! ## Stores -/

namespace Store

/-- What is executed on a store has a well-formed diff, which the store commits, whatever its
resources and counters are. No operation changes the identity of a resource, its kinds, its owner
or its schema. -/
theorem commits_wellFormed (s : Store) (now : Instant) (op : Operation) :
    (∀ d m, execute s.supported ⟨s.state.resources, s.base⟩ ⟨s.state.counters, .empty⟩ op =
        (.ok d, m) →
      d.isDisjoint = true ∧ d.WellFormed s.state.resources ∧
        s.apply now op = .ok (d, s.withState (s.state.commit now op d m.counters))) ∧
    ∀ i r r', s.read? i = some r → (s.attempt now op).read? i = some r' → r'.Akin r := by
  constructor
  · intro d m h
    unfold execute at h
    split at h
    · rename_i hs
      have hd := Execution.wellFormed_run h
      exact ⟨hd.isDisjoint, hd, apply_eq_ok_iff.mpr ⟨hs, m, h, hd.isDisjoint, rfl⟩⟩
    · cases h
  · intro i r r' hr hr'
    obtain heq | ⟨d, state, hd, heq⟩ := s.attempt_cases now op
    · rw [heq] at hr'
      exact Option.some.inj (hr.symm.trans hr') ▸ .refl r
    · obtain ⟨m, hrun, rfl⟩ := applyTo_eq_ok hd
      rw [heq] at hr'
      exact (Execution.wellFormed_run (x := ⟨s.state.resources, s.base⟩) hrun).akin hr hr'

/-- An association that has its own schema, itself, and what is not there among its ends, and an
end that another schema holds. -/
def tangled : Store := (new "b").withState ⟨.ofResources
  [(Resource.new "s" .conceptualSchema).set .parts (.iriList ["a", "e"]),
    (Resource.new "t" .conceptualSchema).set .parts (.iriList ["e"]),
    ((Resource.new "a" .conceptualAssociation).set .schema (.iri "s")).set .parts
      (.iriList ["s", "e", "a", "x"]),
    ((Resource.new "e" .conceptualAssociationEnd).set .owner (.iri "a")).set .schema (.iri "t")],
  [], .empty⟩

/-- With the association goes all that it lists, and the other schema loses the end. -/
theorem commits_wellFormed_tangled :
    (∃ d s', tangled.apply .epoch (.delete "a") = .ok (d, s') ∧ d.changed.keys = ["t"] ∧
      d.deleted.keys = ["a", "e", "s", "x"] ∧ d.WellFormed tangled.state.resources) ∧
    ∃ r r', tangled.read? "t" = some r ∧
      (tangled.attempt .epoch (.delete "a")).read? "t" = some r' ∧
      r'.parts = [] ∧ r'.Akin r := by
  obtain ⟨hdiff, hakin⟩ := tangled.commits_wellFormed .epoch (.delete "a")
  constructor
  · obtain ⟨d, hd, hkeys⟩ : ∃ d,
        execute tangled.supported ⟨tangled.state.resources, tangled.base⟩
          ⟨tangled.state.counters, .empty⟩ (.delete "a") = (.ok d, ⟨.empty, .empty⟩) ∧
        (d.changed.keys, d.deleted.keys) = (["t"], ["a", "e", "s", "x"]) := by
      refine ⟨_, rfl, ?_⟩
      decide +kernel
    obtain ⟨hchanged, hdeleted⟩ := Prod.mk.inj hkeys
    obtain ⟨-, hwf, happly⟩ := hdiff d _ hd
    exact ⟨d, _, happly, hchanged, hdeleted, hwf⟩
  · obtain ⟨r, hr⟩ : ∃ r, tangled.read? "t" = some r := ⟨_, rfl⟩
    obtain ⟨r', hr', hparts⟩ : ∃ r', (tangled.attempt .epoch (.delete "a")).read? "t" = some r' ∧
        r'.parts = [] := ⟨_, rfl, by decide +kernel⟩
    exact ⟨r, r', hr, hr', hparts, hakin "t" r r' hr hr'⟩

end Store

end DataSpec
