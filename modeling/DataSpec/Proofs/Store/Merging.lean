import DataSpec.Proofs.Store.Diff

/-!
# Diffs that follow one another

`ResourceDiff.merge` makes one diff of two that follow one another, and so of any number
(`mergeAll`). What becomes of an identifier depends only on what the diffs say about it, its
`Mark` : merging and carrying out both work on one mark at a time (`mark_merge`).

A merged diff does not remember whether the store had an identifier that one of the diffs
creates. If such an identifier is deleted in the end, the merged diff is silent about it, as
if it had never been there (`Net`). So a merged diff has the effect of the diffs in turn
exactly when every stored resource that is created again along the way stays
(`applyTo_mergeAll_iff`); without that its deletion is lost (`applyTo_mergeAll_ne`).
-/

set_option autoImplicit false
set_option linter.unusedSectionVars false

namespace DataSpec

/-! ## What a diff says about one identifier -/

/-- What a diff says about one identifier : the resource it creates there, the one it puts
in the place of a stored one, and whether it deletes the stored one. -/
structure Mark where
  created : Option Resource
  changed : Option Resource
  deleted : Bool

namespace Mark

variable {k l : Mark} {m n : Option Resource} {again : Bool}

/-- Nothing is said. -/
def silent : Mark := ⟨none, none, false⟩

/-- What is there after a diff, if `m` was there before. -/
def after (k : Mark) (m : Option Resource) : Option Resource :=
  k.changed.or (k.created.or (if k.deleted then none else m))

/-- A creation takes back a deletion. -/
def create (r : Resource) (k : Mark) : Mark := { k with created := some r, deleted := false }

/-- A change of what was created is part of its creation. -/
def change (r : Resource) (k : Mark) : Mark :=
  if k.created.isSome then { k with created := some r } else { k with changed := some r }

/-- A deletion voids all that was said, and is itself void if that was a creation. -/
def delete (k : Mark) : Mark := ⟨none, none, k.deleted || !k.created.isSome⟩

/-- A mark with one put over it that a later diff has. -/
def merge (k later : Mark) : Mark :=
  let k := later.created.elim k (create · k)
  let k := later.changed.elim k (change · k)
  if later.deleted then k.delete else k

/-- At most one thing is said. -/
def Apart (k : Mark) : Prop :=
  (k.created.isSome → k.changed = none ∧ k.deleted = false) ∧
    (k.changed.isSome → k.deleted = false)

/-- Marks that make sense if `n` is there : only what is not there is created, and only what
is there is changed or deleted. -/
inductive Fits : Option Resource → Mark → Prop where
  | silent (n : Option Resource) : Fits n silent
  | created (r : Resource) : Fits none ⟨some r, none, false⟩
  | changed (r₀ r : Resource) : Fits (some r₀) ⟨none, some r, false⟩
  | deleted (r₀ : Resource) : Fits (some r₀) ⟨none, none, true⟩

/-- What the mark of a merged diff says when `m` was there at first and `n` is there now,
`again` being whether something was created along the way. -/
structure Net (m : Option Resource) (again : Bool) (n : Option Resource) (k : Mark) : Prop where
  apart : k.Apart
  /-- Nothing that is there no longer is kept. -/
  gone : n = none → k.created = none ∧ k.changed = none
  /-- What is there and was created along the way is a creation. -/
  made : n ≠ none → k.created.isSome = again
  /-- What is gone after it was created along the way shows what was there at first. -/
  after : k.after m = if again ∧ n = none then m else n

theorem Net.start (m : Option Resource) : Net m false m silent where
  apart := ⟨nofun, nofun⟩
  gone _ := ⟨rfl, rfl⟩
  made _ := rfl
  after := by simp [silent, Mark.after]

/-- What is there and was not deleted is what the mark shows. -/
theorem Net.not_deleted {r : Resource} (h : Net m again (some r) k) : k.deleted = false := by
  by_contra hd
  have hd : k.deleted = true := by simpa using hd
  have hc : k.created = none := Option.not_isSome_iff_eq_none.mp fun hc => by
    simp [(h.apart.1 hc).2] at hd
  have hch : k.changed = none := Option.not_isSome_iff_eq_none.mp fun hch => by
    simp [h.apart.2 hch] at hd
  have := h.after
  simp [Mark.after, hc, hch, hd] at this

/-- One more diff. -/
theorem Net.merge (h : Net m again n k) (hl : Fits n l) :
    Net m (again || l.created.isSome) (l.after n) (k.merge l) := by
  cases hl with
  | silent => simpa [silent, Mark.merge, Mark.after] using h
  | created r =>
    obtain ⟨hc, hch⟩ := h.gone rfl
    refine ⟨⟨fun _ => ⟨hch, rfl⟩, fun hs => ?_⟩, ?_, fun _ => ?_, ?_⟩
    · simp [Mark.merge, create, hch] at hs
    · simp [Mark.after]
    · simp [Mark.merge, create]
    · simp [Mark.after, Mark.merge, create, hch]
  | changed r₀ r =>
    have hd := h.not_deleted
    have hmade := h.made (by simp)
    cases hc : k.created with
    | some r₁ =>
      have hch := (h.apart.1 (by simp [hc])).1
      refine ⟨⟨fun _ => ⟨?_, ?_⟩, fun _ => ?_⟩, ?_, fun _ => ?_, ?_⟩ <;>
        simp_all [Mark.merge, change, Mark.after]
    | none =>
      refine ⟨⟨fun _ => ⟨?_, ?_⟩, fun _ => ?_⟩, ?_, fun _ => ?_, ?_⟩ <;>
        simp_all [Mark.merge, change, Mark.after]
  | deleted r₀ =>
    have hd := h.not_deleted
    have hmade := h.made (by simp)
    refine ⟨⟨nofun, nofun⟩, fun _ => ⟨rfl, rfl⟩, by simp [Mark.after], ?_⟩
    cases hag : again <;> simp_all [Mark.merge, delete, Mark.after]

end Mark

namespace ResourceDiff

variable {d later : ResourceDiff} {m : ResourceMap} {iri : Iri}

/-- What a diff says about an identifier. -/
def mark (d : ResourceDiff) (iri : Iri) : Mark :=
  ⟨d.created.get? iri, d.changed.get? iri, d.deleted.contains iri⟩

theorem get?_applyTo_eq_after (d : ResourceDiff) (m : ResourceMap) (iri : Iri) :
    (d.applyTo m).get? iri = (d.mark iri).after (m.get? iri) := by
  rw [get?_applyTo]
  rfl

/-- Whether a diff is tidy shows on the identifiers that it lists. -/
theorem tidy_iff : d.Tidy m ↔ (∀ i ∈ d.created.keys, m.get? i = none) ∧
    (∀ i ∈ d.changed.keys, m.contains i = true ∧ d.deleted.contains i = false) ∧
    ∀ i ∈ d.deleted.keys, m.contains i = true := by
  simp only [SortedMap.mem_keys_iff]
  exact ⟨fun h => ⟨fun _ => h.created, fun _ hc => ⟨h.changed hc, h.apart hc⟩, fun _ => h.deleted⟩,
    fun h => ⟨fun hc => h.1 _ hc, fun hc => (h.2.1 _ hc).1, fun hd => h.2.2 _ hd,
      fun hc => (h.2.1 _ hc).2⟩⟩

instance (d : ResourceDiff) (m : ResourceMap) : Decidable (d.Tidy m) :=
  decidable_of_iff _ tidy_iff.symm

/-- What a tidy diff says about an identifier fits what the store has there. -/
theorem Tidy.fits (h : d.Tidy m) (iri : Iri) : Mark.Fits (m.get? iri) (d.mark iri) := by
  rw [mark]
  cases hm : m.get? iri with
  | none =>
    have hm' : m.contains iri = false := SortedMap.contains_eq_false_iff.mpr hm
    have hd : d.deleted.contains iri = false :=
      Bool.eq_false_iff.mpr fun hd => by simp [h.deleted hd] at hm'
    rw [h.changed_eq_none hm, hd]
    cases d.created.get? iri with
    | none => exact .silent none
    | some r => exact .created r
  | some r₀ =>
    have hm' : m.contains iri = true := SortedMap.contains_iff.mpr ⟨r₀, hm⟩
    rw [h.created_eq_none hm']
    cases hch : d.changed.get? iri with
    | some r =>
      rw [h.apart (SortedMap.contains_iff.mpr ⟨r, hch⟩)]
      exact .changed r₀ r
    | none =>
      cases d.deleted.contains iri with
      | false => exact .silent _
      | true => exact .deleted r₀

/-- No identifier is in two of the sets when every mark says one thing at most. -/
theorem isDisjoint_of_apart (h : ∀ iri, (d.mark iri).Apart) : d.isDisjoint = true := by
  refine isDisjoint_iff.mpr ⟨fun iri hc => ?_, fun iri hc => (h iri).2 hc⟩
  obtain ⟨hch, hd⟩ := (h iri).1 hc
  exact ⟨SortedMap.contains_eq_false_iff.mpr hch, hd⟩

/-! ## Merging -/

theorem mark_thenCreated (d : ResourceDiff) (e : Iri × Resource) (iri : Iri) :
    (d.thenCreated e.1 e.2).mark iri =
      if iri = e.1 then (d.mark iri).create e.2 else d.mark iri := by
  by_cases h : iri = e.1 <;>
    simp [mark, thenCreated, Mark.create, SortedMap.get?_insert, h]

theorem mark_thenChanged (d : ResourceDiff) (e : Iri × Resource) (iri : Iri) :
    (d.thenChanged e.1 e.2).mark iri =
      if iri = e.1 then (d.mark iri).change e.2 else d.mark iri := by
  have hc : d.created.contains e.1 = (d.created.get? e.1).isSome := rfl
  unfold thenChanged
  by_cases h : iri = e.1
  · subst h
    cases hs : (d.created.get? e.1).isSome <;>
      simp [mark, Mark.change, SortedMap.get?_insert, hc, hs]
  · cases hs : (d.created.get? e.1).isSome <;>
      simp [mark, SortedMap.get?_insert, hc, hs, h]

theorem mark_delete (d : ResourceDiff) (i iri : Iri) :
    (d.delete i).mark iri = if iri = i then (d.mark iri).delete else d.mark iri := by
  have hc : d.created.contains i = (d.created.get? i).isSome := rfl
  unfold delete
  by_cases h : iri = i
  · subst h
    cases hs : (d.created.get? iri).isSome <;>
      simp_all [mark, Mark.delete, SortedMap.get?_erase]
  · cases hs : (d.created.get? i).isSome <;>
      simp [mark, SortedMap.get?_erase, hc, hs, h]

/-- Merging works on the mark of each identifier by itself. -/
theorem mark_merge (d later : ResourceDiff) (iri : Iri) :
    (d.merge later).mark iri = (d.mark iri).merge (later.mark iri) := by
  have hkeys : ∀ d : ResourceDiff, later.deleted.keys.foldl delete d =
      later.deleted.toList.foldl (fun d e => d.delete e.1) d := fun d => List.foldl_map ..
  rw [merge, hkeys]
  rw [SortedMap.foldl_toList_at mark (fun _ => Mark.delete) (fun d e k => mark_delete d e.1 k),
    SortedMap.foldl_toList_at mark Mark.change mark_thenChanged,
    SortedMap.foldl_toList_at mark Mark.create mark_thenCreated]
  have hdel : ∀ (o : Option Unit) (k : Mark),
      o.elim k (fun _ => k.delete) = if o.isSome then k.delete else k := fun o k => by
    cases o <;> rfl
  exact hdel _ _

/-- One diff for all that follow one another. -/
def mergeAll (ds : List ResourceDiff) : ResourceDiff := ds.foldl merge .empty

/-- The resources after diffs that are carried out in turn. -/
def inTurn (m : ResourceMap) (ds : List ResourceDiff) : ResourceMap :=
  ds.foldl (fun m d => d.applyTo m) m

/-- Diffs that can be carried out in turn : each one creates only what is not there then,
and changes and deletes only what is. -/
def Follow : ResourceMap → List ResourceDiff → Prop
  | _, [] => True
  | m, d :: ds => d.Tidy m ∧ Follow (d.applyTo m) ds

instance Follow.decidable : ∀ (m : ResourceMap) (ds : List ResourceDiff), Decidable (Follow m ds)
  | _, [] => .isTrue trivial
  | m, d :: ds =>
    have := Follow.decidable (d.applyTo m) ds
    inferInstanceAs (Decidable (d.Tidy m ∧ Follow (d.applyTo m) ds))

/-- Whether one of the diffs creates a resource with an identifier. -/
def creates (ds : List ResourceDiff) (iri : Iri) : Bool := ds.any fun d => d.created.contains iri

/-- What a merged diff says about an identifier. -/
theorem net_foldl_merge (m₀ : ResourceMap) (iri : Iri) :
    ∀ {ds : List ResourceDiff} {d : ResourceDiff} {m : ResourceMap} {again : Bool},
      Follow m ds → Mark.Net (m₀.get? iri) again (m.get? iri) (d.mark iri) →
      Mark.Net (m₀.get? iri) (again || creates ds iri) ((inTurn m ds).get? iri)
        ((ds.foldl merge d).mark iri)
  | [], d, m, again, _, h => by simpa [creates, inTurn] using h
  | d' :: ds, d, m, again, hf, h => by
    have hstep := h.merge (hf.1.fits iri)
    rw [← mark_merge, ← get?_applyTo_eq_after] at hstep
    have hrest := net_foldl_merge m₀ iri hf.2 hstep
    rw [Bool.or_assoc] at hrest
    exact hrest

theorem net_mergeAll {ds : List ResourceDiff} (h : Follow m ds) (iri : Iri) :
    Mark.Net (m.get? iri) (creates ds iri) ((inTurn m ds).get? iri) ((mergeAll ds).mark iri) :=
  net_foldl_merge (d := .empty) m iri h (.start _)

/-- A merged diff does what the diffs do in turn, except that a resource that is gone in the
end after it was created along the way comes out as it was at first. -/
theorem get?_applyTo_mergeAll {ds : List ResourceDiff} (h : Follow m ds) (iri : Iri) :
    ((mergeAll ds).applyTo m).get? iri =
      if creates ds iri ∧ (inTurn m ds).get? iri = none then m.get? iri
      else (inTurn m ds).get? iri := by
  rw [get?_applyTo_eq_after]
  exact (net_mergeAll h iri).after

/-- A merged diff is disjoint, and it does what the diffs do in turn exactly when no
resource of the store is created again along the way and gone in the end. -/
theorem applyTo_mergeAll_iff {ds : List ResourceDiff} (h : Follow m ds) :
    (mergeAll ds).isDisjoint = true ∧
      ((mergeAll ds).applyTo m = inTurn m ds ↔
        ∀ iri, m.contains iri = true → creates ds iri = true →
          (inTurn m ds).contains iri = true) := by
  refine ⟨isDisjoint_of_apart fun iri => (net_mergeAll h iri).apart, fun heq iri hm hc => ?_,
    fun hstay => SortedMap.ext_get? fun iri => ?_⟩
  · by_contra hgone
    have hgone : (inTurn m ds).get? iri = none :=
      SortedMap.contains_eq_false_iff.mp (Bool.eq_false_iff.mpr hgone)
    have hlost := get?_applyTo_mergeAll h iri
    rw [if_pos ⟨hc, hgone⟩, heq, hgone] at hlost
    rw [SortedMap.contains, ← hlost] at hm
    simp at hm
  · rw [get?_applyTo_mergeAll h iri]
    split
    · rename_i hlost
      rw [hlost.2]
      refine SortedMap.contains_eq_false_iff.mp (Bool.eq_false_iff.mpr fun hm => ?_)
      have := hstay iri hm hlost.1
      rw [SortedMap.contains, hlost.2] at this
      simp at this
    · rfl

/-! ## Lost and kept -/

/-- A store with one class. -/
def classMap : ResourceMap := .ofResources [Resource.new "a" .structuralClass]

/-- The class is deleted. -/
def classDeleted : ResourceDiff := ⟨.empty, .empty, .ofList ["a"]⟩

/-- The class is created. -/
def classCreated : ResourceDiff := ⟨classMap, .empty, .empty⟩

/-- A class that is deleted and created again stays, and merging shows that. -/
theorem applyTo_mergeAll_recreated :
    Follow classMap [classDeleted, classCreated] ∧
      (mergeAll [classDeleted, classCreated]).applyTo classMap =
        inTurn classMap [classDeleted, classCreated] := by
  have h : Follow classMap [classDeleted, classCreated] := by decide
  refine ⟨h, (applyTo_mergeAll_iff h).2.mpr fun iri hm _ => ?_⟩
  have hkeys : classMap.keys = ["a"] := by decide
  rw [← SortedMap.mem_keys_iff, hkeys, List.mem_singleton] at hm
  subst hm
  decide

/-- When it is deleted once more, merging has lost that it was there. -/
theorem applyTo_mergeAll_ne :
    Follow classMap [classDeleted, classCreated, classDeleted] ∧
      (mergeAll [classDeleted, classCreated, classDeleted]).applyTo classMap ≠
        inTurn classMap [classDeleted, classCreated, classDeleted] := by
  decide

end ResourceDiff

end DataSpec
