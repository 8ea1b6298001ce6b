import DataSpec.Proofs.Store.Ownership
import DataSpec.Store.Copy

/-!
# What copies show

Every resource of a copy is as it was when it was read (`get?_copy`), at some moment after the
first step and before the last. The copy as a whole shows the store at one moment exactly if
all readings agree with that moment and it has nothing that was not listed
(`copy_eq_resources_iff`); that is so if no command changes what is read meanwhile. A command
between two readings may touch a resource that was read already and one that was not yet, and
then there is no such moment.
-/

set_option autoImplicit false

namespace DataSpec

/-- The identifiers of a store are listed once, and all that have a resource are. -/
class LawfulReader (σ : Type) [Reader σ] : Prop where
  nodup : ∀ s : σ, (Reader.list s).Nodup
  listed : ∀ {s : σ} {iri : Iri} {r : Resource}, Reader.read? s iri = some r →
    iri ∈ Reader.list s

instance : LawfulReader Store where
  nodup s := SortedMap.nodup_keys s.state.resources
  listed h := SortedMap.mem_keys_of_get? h

instance : LawfulReader Federation where
  nodup f := SortedMap.nodup_keys _
  listed {f iri r} h := by
    obtain ⟨m, hm, hr⟩ := List.exists_of_findSome?_eq_some h
    refine SortedMap.mem_keys_iff.mpr (SortedSet.contains_ofList_iff.mpr ?_)
    exact List.mem_flatMap.mpr ⟨m, List.mem_reverse.mp hm, SortedMap.mem_keys_of_get? hr⟩

namespace Reader

variable {σ κ : Type} [Reader σ] {effect : σ → κ → σ} {s s₀ t : σ} {iri k : Iri}
  {done : ResourceMap} {steps : List (Reading κ)}

/-! ## Readings -/

/-- The states in which resources are read. -/
def moments (effect : σ → κ → σ) : σ → List (Reading κ) → List (Iri × σ)
  | _, [] => []
  | s, step :: rest =>
    let s := step.before.foldl effect s
    (step.iri, s) :: moments effect s rest

/-- A state that the store passes while it is copied. -/
def Passes (effect : σ → κ → σ) (s : σ) (steps : List (Reading κ)) (t : σ) : Prop :=
  ∃ given, given <+: steps.flatMap Reading.before ∧ t = given.foldl effect s

omit [Reader σ] in
theorem map_fst_moments (effect : σ → κ → σ) :
    ∀ (steps : List (Reading κ)) (s : σ),
      (moments effect s steps).map Prod.fst = steps.map Reading.iri
  | [], _ => rfl
  | step :: rest, _ => congrArg (step.iri :: ·) (map_fst_moments effect rest _)

omit [Reader σ] in
/-- What is read is read from a state that the store passes. -/
theorem passes_of_mem_moments {e : Iri × σ} :
    ∀ {steps : List (Reading κ)} {s : σ}, e ∈ moments effect s steps →
      Passes effect s steps e.2 := by
  intro steps
  induction steps with
  | nil => exact nofun
  | cons step rest ih =>
    intro s he
    rcases List.mem_cons.mp he with rfl | he
    · exact ⟨step.before, List.prefix_append _ _, rfl⟩
    · obtain ⟨given, hgiven, heq⟩ := ih he
      refine ⟨step.before ++ given, (List.prefix_append_right_inj _).mpr hgiven, ?_⟩
      rw [heq, List.foldl_append]

theorem copyFrom_eq_foldl (effect : σ → κ → σ) :
    ∀ (steps : List (Reading κ)) (s : σ) (done : ResourceMap), copyFrom effect s done steps =
      (moments effect s steps).foldl (fun done e => collect done e.1 e.2) done
  | [], _, _ => rfl
  | _ :: rest, _, _ => copyFrom_eq_foldl effect rest _ _

/-- A reading settles its own identifier and no other. -/
theorem get?_collect (h : done.get? iri = none) :
    (collect done iri s).get? k = if k = iri then read? s iri else done.get? k := by
  unfold collect
  split
  · rename_i r hr
    rw [SortedMap.get?_insert, hr]
  · rename_i hr
    split
    · rename_i hk
      rw [hk, h, hr]
    · rfl

/-- Readings of different identifiers settle each of these, and no other. -/
theorem get?_foldl_collect {l : List (Iri × σ)} (done : ResourceMap) (hl : (l.map Prod.fst).Nodup)
    (hfresh : ∀ e ∈ l, done.get? e.1 = none) :
    (∀ e ∈ l, (l.foldl (fun done e => collect done e.1 e.2) done).get? e.1 = read? e.2 e.1) ∧
      ∀ k ∉ l.map Prod.fst,
        (l.foldl (fun done e => collect done e.1 e.2) done).get? k = done.get? k := by
  induction l generalizing done with
  | nil => exact ⟨nofun, fun _ _ => rfl⟩
  | cons e l ih =>
    obtain ⟨he, hl⟩ := List.nodup_cons.mp hl
    have hget : ∀ k, (collect done e.1 e.2).get? k =
        if k = e.1 then read? e.2 e.1 else done.get? k := fun k =>
      get?_collect (hfresh e List.mem_cons_self)
    have hne : ∀ e' ∈ l, e'.1 ≠ e.1 := fun e' he' heq =>
      he (heq ▸ List.mem_map_of_mem he')
    obtain ⟨hmem, hnot⟩ := ih (collect done e.1 e.2) hl fun e' he' => by
      rw [hget, if_neg (hne e' he'), hfresh e' (List.mem_cons_of_mem _ he')]
    refine ⟨fun e' he' => ?_, fun k hk => ?_⟩
    · rcases List.mem_cons.mp he' with rfl | he'
      · rw [List.foldl_cons, hnot _ he, hget, if_pos rfl]
      · exact hmem e' he'
    · rw [List.map_cons, List.mem_cons, not_or] at hk
      rw [List.foldl_cons, hnot k hk.2, hget, if_neg hk.1]

/-! ## Copies -/

variable [LawfulReader σ]

/-- All resources at one moment are what is read at it. -/
theorem get?_resources (s : σ) (k : Iri) : (resources s).get? k = read? s k := by
  have hfold : resources s = ((list s).map fun iri => (iri, s)).foldl
      (fun done e => collect done e.1 e.2) .empty := by
    rw [resources, List.foldl_map]
  have hkeys : ((list s).map fun iri => (iri, s)).map Prod.fst = list s := by
    rw [List.map_map]
    exact List.map_id _
  obtain ⟨hmem, hnot⟩ := get?_foldl_collect (l := (list s).map fun iri => (iri, s)) .empty
    (hkeys.symm ▸ LawfulReader.nodup s) fun _ _ => rfl
  rw [hfold]
  by_cases hk : k ∈ list s
  · exact hmem (k, s) (List.mem_map.mpr ⟨k, hk, rfl⟩)
  · rw [hnot k (hkeys.symm ▸ hk)]
    cases hr : read? s k with
    | none => rfl
    | some r => exact absurd (LawfulReader.listed hr) hk

/-- A copy has what was read, for the identifiers that were listed. -/
theorem get?_copy (effect : σ → κ → σ) (hsteps : steps.map Reading.iri = list s₀) :
    (∀ e ∈ moments effect s₀ steps, (copy effect s₀ steps).get? e.1 = read? e.2 e.1) ∧
      ∀ k ∉ list s₀, (copy effect s₀ steps).get? k = none := by
  have hkeys : (moments effect s₀ steps).map Prod.fst = list s₀ :=
    (map_fst_moments effect steps s₀).trans hsteps
  have h := get?_foldl_collect .empty (hkeys.symm ▸ LawfulReader.nodup s₀) fun _ _ => rfl
  rw [copy, copyFrom_eq_foldl]
  exact ⟨h.1, fun k hk => h.2 k (hkeys.symm ▸ hk)⟩

/-- A copy shows a state if and only if the state has nothing that was not listed, and what is
listed is there as it was read. -/
theorem copy_eq_resources_iff (hsteps : steps.map Reading.iri = list s₀) :
    copy effect s₀ steps = resources t ↔ (∀ k ∉ list s₀, read? t k = none) ∧
      ∀ e ∈ moments effect s₀ steps, read? e.2 e.1 = read? t e.1 := by
  obtain ⟨hread, hnone⟩ := get?_copy effect hsteps
  constructor
  · intro h
    refine ⟨fun k hk => ?_, fun e he => ?_⟩
    · rw [← get?_resources, ← h, hnone k hk]
    · rw [← hread e he, h, get?_resources]
  · rintro ⟨habsent, hsame⟩
    refine SortedMap.ext_get? fun k => ?_
    rw [get?_resources]
    by_cases hk : k ∈ list s₀
    · rw [← hsteps, ← map_fst_moments effect steps s₀] at hk
      obtain ⟨e, he, rfl⟩ := List.mem_map.mp hk
      rw [hread e he, hsame e he]
    · rw [hnone k hk, habsent k hk]

/-- In a store, what is read at one moment is the map of its resources. -/
theorem resources_store (s : Store) : resources s = s.state.resources :=
  SortedMap.ext_get? fun k => get?_resources s k

/-- The resources of a federation are what is read at one moment. -/
theorem resources_federation (f : Federation) : resources f = f.resources := by
  refine SortedMap.ext_get? fun k => ?_
  have hmem : ∀ r, (k, r) ∈ f.list.filterMap (fun iri => (f.read? iri).map fun r => (iri, r)) ↔
      f.read? k = some r := by
    intro r
    rw [List.mem_filterMap]
    constructor
    · rintro ⟨iri, -, h⟩
      obtain ⟨r', hr, heq⟩ := Option.map_eq_some_iff.mp h
      obtain ⟨rfl, rfl⟩ := Prod.mk.inj heq
      exact hr
    · intro hr
      exact ⟨k, LawfulReader.listed (s := f) hr, by rw [hr]; rfl⟩
  rw [get?_resources]
  show f.read? k = f.resources.get? k
  cases hr : f.read? k with
  | some r =>
    have hkey : k ∈ (f.list.filterMap fun iri => (f.read? iri).map fun r => (iri, r)).map
        Prod.fst := List.mem_map.mpr ⟨(k, r), (hmem r).mpr hr, rfl⟩
    obtain ⟨r', hr'⟩ := SortedMap.contains_iff.mp (SortedMap.contains_ofList_iff.mpr hkey)
    rw [Federation.resources, hr', ← hr, (hmem r').mp (SortedMap.mem_of_get?_ofList hr')]
  | none =>
    cases hr' : f.resources.get? k with
    | none => rfl
    | some r =>
      rw [(hmem r).mp (SortedMap.mem_of_get?_ofList hr')] at hr
      simp at hr

/-! ## Consistency -/

/-- A copy shows all resources at some moment between its first and its last step exactly if
there is a moment at which nothing is there but what was listed, and all of that as it was
read. Each resource by itself is as it was at some moment. And if no command changes what is
read meanwhile, the copy shows the store. -/
theorem copy_consistent_iff (hsteps : steps.map Reading.iri = list s₀) :
    ((∃ t, Passes effect s₀ steps t ∧ copy effect s₀ steps = resources t) ↔
      ∃ t, Passes effect s₀ steps t ∧ (∀ k ∉ list s₀, read? t k = none) ∧
        ∀ e ∈ moments effect s₀ steps, read? e.2 e.1 = read? t e.1) ∧
    (∀ k r, (copy effect s₀ steps).get? k = some r →
      ∃ t, Passes effect s₀ steps t ∧ read? t k = some r) ∧
    ((∀ t, Passes effect s₀ steps t → ∀ k, read? t k = read? s₀ k) →
      copy effect s₀ steps = resources s₀) := by
  refine ⟨exists_congr fun t => and_congr_right fun _ => copy_eq_resources_iff hsteps,
    fun k r hk => ?_, fun hsame => (copy_eq_resources_iff hsteps).mpr ⟨fun k hk => ?_, ?_⟩⟩
  · obtain ⟨hread, hnone⟩ := get?_copy effect hsteps
    have hlisted : k ∈ list s₀ := Classical.byContradiction fun hk' => by
      simp [hnone k hk'] at hk
    rw [← hsteps, ← map_fst_moments effect steps s₀] at hlisted
    obtain ⟨e, he, rfl⟩ := List.mem_map.mp hlisted
    exact ⟨e.2, passes_of_mem_moments he, by rw [← hread e he, hk]⟩
  · cases hr : read? s₀ k with
    | none => rfl
    | some r => exact absurd (LawfulReader.listed hr) hk
  · exact fun e he => hsame e.2 (passes_of_mem_moments he) e.1

/-- What an operation does to a store, at a time. -/
def operate (s : Store) (e : Instant × Operation) : Store := s.attempt e.1 e.2

/-- A store with a schema that has one class. -/
def classStore : Store :=
  (Store.new "b").attemptAll [(.epoch, .create .structuralSchema none .empty),
    (.epoch, .create .structuralClass (some "b/psm-schema/1") .empty)]

/-- The deletion of that class. -/
def classDeletion : Instant × Operation := (.epoch, .delete "b/psm-class/1")

/-- The class is deleted after it was listed and before it is read. -/
def deletedBefore : List (Reading (Instant × Operation)) :=
  [⟨[classDeletion], "b/psm-class/1"⟩, ⟨[], "b/psm-schema/1"⟩]

/-- The class is deleted after it was read and before its schema is. -/
def deletedBetween : List (Reading (Instant × Operation)) :=
  [⟨[], "b/psm-class/1"⟩, ⟨[classDeletion], "b/psm-schema/1"⟩]

/-- A federation with that store. -/
def classFederation : Federation := Federation.empty.attempt (.add "store" classStore)

/-- Readings between which nothing else happens. -/
def undisturbed (s : σ) : List (Reading κ) := (list s).map (Reading.mk [])

omit [LawfulReader σ] in
theorem eq_of_passes_undisturbed (h : Passes effect s (undisturbed s) t) : t = s := by
  obtain ⟨given, hgiven, rfl⟩ := h
  have hnothing : (undisturbed s).flatMap (@Reading.before κ) = [] := by
    simp [undisturbed, List.flatMap_map]
  rw [hnothing, List.prefix_nil] at hgiven
  rw [hgiven, List.foldl_nil]

/-- The copy is what the store has after the class is deleted, and that of a federation which is
left alone is what the federation has. -/
theorem copy_consistent_iff_deletedBefore :
    (deletedBefore.map Reading.iri = list classStore ∧
      ∃ t, Passes operate classStore deletedBefore t ∧
        copy operate classStore deletedBefore = t.state.resources) ∧
    (undisturbed classFederation : List (Reading Federation.Command)).map Reading.iri =
        ["b/psm-class/1", "b/psm-schema/1"] ∧
      copy Federation.attempt classFederation (undisturbed classFederation) =
        classFederation.resources := by
  constructor
  · have hsteps : deletedBefore.map Reading.iri = list classStore := by decide +kernel
    have hlist : list (operate classStore classDeletion) = ["b/psm-schema/1"] := by decide +kernel
    have hread : ∀ e ∈ moments operate classStore deletedBefore,
        read? e.2 e.1 = read? (operate classStore classDeletion) e.1 := by decide +kernel
    have habsent : ∀ k ∉ list classStore, read? (operate classStore classDeletion) k = none := by
      intro k hk
      refine Option.eq_none_iff_forall_ne_some.mpr fun r hr => hk ?_
      have hlisted := LawfulReader.listed hr
      rw [hlist, List.mem_singleton] at hlisted
      rw [← hsteps, hlisted]
      simp [deletedBefore]
    obtain ⟨t, ht, hcopy⟩ := (copy_consistent_iff hsteps).1.mpr
      ⟨operate classStore classDeletion, ⟨[classDeletion], List.prefix_refl _, rfl⟩, habsent, hread⟩
    exact ⟨hsteps, t, ht, hcopy.trans (resources_store t)⟩
  · have hsteps : (undisturbed classFederation : List (Reading Federation.Command)).map
        Reading.iri = list classFederation := by
      rw [undisturbed, List.map_map]
      exact List.map_id _
    have hsame : ∀ t, Passes Federation.attempt classFederation (undisturbed classFederation) t →
        ∀ k, read? t k = read? classFederation k := fun t ht k => by
      rw [eq_of_passes_undisturbed ht]
    have halone := (copy_consistent_iff hsteps).2.2 hsame
    exact ⟨by decide +kernel, halone.trans (resources_federation _)⟩

/-- If the class is deleted between the two readings, the copy has the class and a schema that
does not list it, which the store never had. -/
theorem not_copy_consistent :
    ¬ ∀ (s : Store) (steps : List (Reading (Instant × Operation))),
      steps.map Reading.iri = list s →
        ∃ t, Passes operate s steps t ∧ copy operate s steps = resources t := by
  intro h
  obtain ⟨t, ⟨given, hgiven, rfl⟩, ht⟩ := h classStore deletedBetween (by decide +kernel)
  have hnever : ∀ given ∈ [[], [classDeletion]], copy operate classStore deletedBetween ≠
      resources (given.foldl operate classStore) := by decide +kernel
  refine hnever given ?_ ht
  rcases List.prefix_cons_iff.mp hgiven with rfl | ⟨rest, rfl, hrest⟩
  · simp
  · simp [List.prefix_nil.mp hrest]

end Reader

end DataSpec
