import DataSpec.Proofs.Store.Refusals

/-!
# Moving a part

`Moves` says what moving a part within the list of its owner is : nothing else in the list
changes places with anything else, and the part then stands where it was asked to. Where a list
has no part twice, moving succeeds exactly if the part is listed and the anchor is another
listed part, and nothing happens to the store but to that list (`Store.setOrder_moves`).
-/

set_option autoImplicit false

namespace DataSpec

/-- The second list is the first one with an element moved behind another one, or to the
front. -/
structure Moves (moved : Iri) (after : Option Iri) (parts parts' : List Iri) : Prop where
  perm : parts'.Perm parts
  /-- The other elements keep their order. -/
  others : parts'.filter (· ≠ moved) = parts.filter (· ≠ moved)
  first : after = none → ∃ rest, parts' = moved :: rest
  next : ∀ a ∈ after, ∃ front rest, parts' = front ++ a :: moved :: rest

namespace Execution

variable {x : Execution} {owner moved : Iri} {after : Option Iri}

/-- Inserting an element into the others does not change their order. -/
theorem filter_reorder {parts parts' : List Iri} (h : reorder parts moved after = some parts') :
    parts'.filter (· ≠ moved) = parts.filter (· ≠ moved) := by
  have hinsert : ∀ front rest : List Iri, front ++ rest = parts.filter (· ≠ moved) →
      (front ++ moved :: rest).filter (· ≠ moved) = parts.filter (· ≠ moved) := by
    intro front rest heq
    have hothers : (front ++ moved :: rest).filter (· ≠ moved) =
        (front ++ rest).filter (· ≠ moved) := by
      simp
    rw [hothers, heq, List.filter_filter]
    simp
  unfold reorder at h
  split at h
  · obtain rfl := Option.some.inj h
    exact hinsert [] _ rfl
  simp only at h
  split at h
  · obtain rfl := Option.some.inj h
    exact hinsert _ _ (List.take_append_drop _ _)
  · cases h

/-- The moved element comes right behind the anchor. -/
theorem reorder_some {parts parts' : List Iri} {a : Iri}
    (h : reorder parts moved (some a) = some parts') :
    ∃ front rest, parts' = front ++ a :: moved :: rest := by
  simp only [reorder] at h
  split at h
  · rename_i ha
    -- The position after the anchor is counted in the list without the moved element.
    obtain ⟨front, rest, heq, hfront⟩ :=
      List.eq_append_cons_of_mem (List.contains_iff_mem.mp ha)
    have hidx : (front ++ a :: rest).idxOf a = front.length := by
      rw [List.idxOf_append_of_notMem hfront, List.idxOf_cons_self, Nat.add_zero]
    rw [heq, hidx] at h
    have htake : (front ++ a :: rest).take (front.length + 1) = front ++ [a] := by
      simp [List.take_append, List.take_of_length_le]
    have hdrop : (front ++ a :: rest).drop (front.length + 1) = rest := by
      simp [List.drop_append, List.drop_of_length_le]
    refine ⟨front, rest, ?_⟩
    rw [← Option.some.inj h, htake, hdrop, List.append_assoc]
    rfl
  · cases h

theorem moves_of_reorder {parts parts' : List Iri} (hn : parts.Nodup) (hm : moved ∈ parts)
    (h : reorder parts moved after = some parts') : Moves moved after parts parts' where
  perm := perm_reorder hn hm h
  others := filter_reorder h
  first hnone := by
    subst hnone
    exact ⟨_, (Option.some.inj h).symm⟩
  next a ha := by
    obtain rfl : after = some a := ha
    exact reorder_some h

/-- The diff that gives one stored resource a new body. -/
theorem change_eq_ok_iff {iri : Iri} {f : Resource → Resource} {d : ResourceDiff} :
    x.change iri f = .ok d ↔ ∃ r, x.resources.get? iri = some r ∧
      d = ⟨.empty, SortedMap.empty.insert iri (f r), .empty⟩ := by
  cases hr : x.resources.get? iri with
  | none => simp [change, ResourceDiff.edit, ResourceDiff.empty, hr]
  | some r => simp [change, ResourceDiff.edit, ResourceDiff.empty, hr, eq_comm]

theorem setOrder_eq_ok_iff {d : ResourceDiff} :
    x.setOrder owner moved after = .ok d ↔ ∃ r parts, x.resources.get? owner = some r ∧
      moved ∈ r.parts ∧ reorder r.parts moved after = some parts ∧
      d = ⟨.empty, SortedMap.empty.insert owner (r.set .parts (.iriList parts)), .empty⟩ := by
  constructor
  · intro h
    obtain ⟨r, hr, h⟩ := Except.bind_eq_ok.mp h
    have hr := require_eq_ok hr
    split at h
    · cases h
    rename_i hmoved
    split at h
    · rename_i parts hparts
      obtain ⟨r', hr', rfl⟩ := change_eq_ok_iff.mp h
      obtain rfl := Option.some.inj (hr.symm.trans hr')
      exact ⟨r, parts, hr, by simpa using hmoved, hparts, rfl⟩
    · cases h
  · rintro ⟨r, parts, hr, hmoved, hparts, rfl⟩
    have hrequire : x.require owner = .ok r := by rw [require, hr]
    have hlisted : ¬ (!r.parts.contains moved) = true := by simpa using hmoved
    rw [setOrder, hrequire, Except.bind, if_neg hlisted, hparts]
    exact change_eq_ok_iff.mpr ⟨r, hr, rfl⟩

end Execution

namespace Store

variable {s s' : Store} {now : Instant} {d : ResourceDiff}

/-- The parts of an owner, if it is there, none of which is listed twice. -/
def Unrepeated (s : Store) (owner : Iri) : Prop := ∀ r, s.read? owner = some r → r.parts.Nodup

/-- In a store that started empty no owner lists a part twice. -/
theorem unrepeated_attemptAll (base : String) (ops : List (Instant × Operation)) (owner : Iri) :
    ((new base).attemptAll ops).Unrepeated owner := fun _ hr =>
  (woven_attemptAll (s := new base) Network.woven_none ops).nodup (Network.of_eq_some hr)

/-- What a store commits for an order is a new list of one owner. -/
theorem apply_setOrder_eq_ok_iff {owner moved : Iri} {after : Option Iri}
    (hs : s.supported.contains .setOrder = true) :
    s.apply now (.setOrder owner moved after) = .ok (d, s') ↔
      ∃ r parts, s.read? owner = some r ∧ moved ∈ r.parts ∧
        Execution.reorder r.parts moved after = some parts ∧
        d = ⟨.empty, SortedMap.empty.insert owner (r.set .parts (.iriList parts)), .empty⟩ ∧
        s' = s.withState
          { s.state with
            resources := s.state.resources.insert owner (r.set .parts (.iriList parts))
            log := s.state.log ++ [⟨.setOrder owner moved after, now, [], [owner], []⟩] } := by
  rw [apply_eq_ok_iff]
  constructor
  · rintro ⟨-, m, hrun, -, rfl⟩
    obtain ⟨hd, rfl⟩ := Prod.mk.inj hrun
    obtain ⟨r, parts, hr, hmoved, hparts, rfl⟩ := Execution.setOrder_eq_ok_iff.mp hd
    exact ⟨r, parts, hr, hmoved, hparts, rfl, rfl⟩
  · rintro ⟨r, parts, hr, hmoved, hparts, rfl, rfl⟩
    have hd : Execution.setOrder ⟨s.state.resources, s.base⟩ owner moved after =
        .ok ⟨.empty, SortedMap.empty.insert owner (r.set .parts (.iriList parts)), .empty⟩ :=
      Execution.setOrder_eq_ok_iff.mpr ⟨r, parts, hr, hmoved, hparts, rfl⟩
    exact ⟨hs, _, Prod.ext hd rfl, rfl, rfl⟩

/-- Moving a part succeeds exactly if it is listed and the anchor is none or another listed part.
Then the list of the owner is that with the part moved, and nothing else in the store changes but
the log. -/
theorem setOrder_moves {owner : Iri} (hs : s.supported.contains .setOrder = true)
    (hn : s.Unrepeated owner) (now : Instant) (moved : Iri) (after : Option Iri) :
    ((∃ d s', s.apply now (.setOrder owner moved after) = .ok (d, s')) ↔
      ∃ r, s.read? owner = some r ∧ moved ∈ r.parts ∧ ∀ a ∈ after, a ∈ r.parts ∧ a ≠ moved) ∧
    ∀ d s', s.apply now (.setOrder owner moved after) = .ok (d, s') →
      ∃ r parts, s.read? owner = some r ∧ Moves moved after r.parts parts ∧
        s' = s.withState
          { s.state with
            resources := s.state.resources.insert owner (r.set .parts (.iriList parts))
            log := s.state.log ++ [⟨.setOrder owner moved after, now, [], [owner], []⟩] } := by
  simp only [apply_setOrder_eq_ok_iff hs]
  constructor
  · constructor
    · rintro ⟨-, -, r, parts, hr, hmoved, hparts, -⟩
      refine ⟨r, hr, hmoved, fun a ha => ?_⟩
      by_contra hanchor
      cases hparts.symm.trans (Execution.reorder_eq_none_iff.mpr ⟨a, ha, hanchor⟩)
    · rintro ⟨r, hr, hmoved, hanchor⟩
      cases hparts : Execution.reorder r.parts moved after with
      | none =>
        obtain ⟨a, ha, hnot⟩ := Execution.reorder_eq_none_iff.mp hparts
        exact absurd (hanchor a ha) hnot
      | some parts => exact ⟨_, _, r, parts, hr, hmoved, hparts, rfl, rfl⟩
  · rintro d s' ⟨r, parts, hr, hmoved, hparts, -, rfl⟩
    exact ⟨r, parts, hr, Execution.moves_of_reorder (hn r hr) hmoved hparts, rfl⟩

/-- A schema with three classes. -/
def threeClasses : List (Instant × Operation) :=
  [(.epoch, .create .structuralSchema none .empty),
    (.epoch, .create .structuralClass (some "b/psm-schema/1") .empty),
    (.epoch, .create .structuralClass (some "b/psm-schema/1") .empty),
    (.epoch, .create .structuralClass (some "b/psm-schema/1") .empty)]

/-- The last class goes behind the first one. -/
theorem setOrder_threeClasses :
    let s := (new "b").attemptAll threeClasses
    let op := Operation.setOrder "b/psm-schema/1" "b/psm-class/3" (some "b/psm-class/1")
    s.Unrepeated "b/psm-schema/1" ∧ (∃ d s', s.apply .epoch op = .ok (d, s')) ∧
      ((s.attempt .epoch op).read? "b/psm-schema/1").map Resource.parts =
        some ["b/psm-class/1", "b/psm-class/3", "b/psm-class/2"] := by
  intro s op
  have hn : s.Unrepeated "b/psm-schema/1" := unrepeated_attemptAll "b" threeClasses _
  have hparts : (s.read? "b/psm-schema/1").map Resource.parts =
      some ["b/psm-class/1", "b/psm-class/2", "b/psm-class/3"] := by decide +kernel
  obtain ⟨r, hr, hp⟩ := Option.map_eq_some_iff.mp hparts
  have hs : s.supported.contains .setOrder = true := by decide +kernel
  refine ⟨hn, (setOrder_moves hs hn .epoch "b/psm-class/3" (some "b/psm-class/1")).1.mpr
    ⟨r, hr, ?_, ?_⟩, by decide +kernel⟩
  · rw [hp]
    decide
  · rintro _ ⟨rfl⟩
    rw [hp]
    decide

end Store

end DataSpec
