import DataSpec.Proofs.Store.Integrity
import DataSpec.Proofs.Store.Minting
import DataSpec.Proofs.Store.Staging

/-!
# The log as a history

The log of a store that started empty tells how it came to its resources. They are what was
created and not deleted, no identifier was created or deleted twice, and the operations of
the log lead from an empty store to the same state once more (`Store.faithful_attemptAll`).

The counters are what carries this. They have come to the number of every identifier that
was ever created (`StoreState.Counted`), so a new identifier differs from all of them, also
from those of resources that are gone. A counter cannot have come further than there are
created identifiers, so it does not overflow before there are 2^64 of them.
-/

set_option autoImplicit false
set_option linter.unusedSectionVars false

namespace DataSpec

namespace StoreState

variable {s s' : StoreState} {base : String}

/-- The identifiers that the log tells were created, the oldest first. -/
def created (s : StoreState) : List Iri := s.log.flatMap OperationRecord.created

/-- The identifiers that the log tells were deleted, the oldest first. -/
def deleted (s : StoreState) : List Iri := s.log.flatMap OperationRecord.deleted

theorem created_commit (s : StoreState) (now : Instant) (op : Operation) (d : ResourceDiff)
    (counters : Counters) : (s.commit now op d counters).created = s.created ++ d.created.keys := by
  simp [created, commit]

theorem deleted_commit (s : StoreState) (now : Instant) (op : Operation) (d : ResourceDiff)
    (counters : Counters) : (s.commit now op d counters).deleted = s.deleted ++ d.deleted.keys := by
  simp [deleted, commit]

/-- A state whose counters account for what was ever created, and whose log for what there
is. -/
structure Counted (base : String) (s : StoreState) : Prop where
  woven : s.resources.network.Woven
  present : ∀ iri, s.resources.contains iri = true ↔ iri ∈ s.created ∧ iri ∉ s.deleted
  created_nodup : s.created.Nodup
  deleted_nodup : s.deleted.Nodup
  deleted_subset : s.deleted ⊆ s.created
  issued : ∀ iri ∈ s.created, Issued base s.counters iri
  bounded : ∀ kind, (s.counters.current kind).toNat ≤ s.created.length

theorem counted_empty (base : String) : Counted base .empty where
  woven := Network.woven_none
  present _ := ⟨nofun, fun h => nomatch h.1⟩
  created_nodup := List.nodup_nil
  deleted_nodup := List.nodup_nil
  deleted_subset := List.nil_subset _
  issued := nofun
  bounded _ := Nat.le_refl 0

section

variable {now : Instant} {op : Operation} {d : ResourceDiff} {m : Minter}

/-- What an operation creates has identifiers that were never used, and the counters come no
further than to these. -/
theorem Counted.fresh_run (h : s.Counted base)
    (hrun : Execution.run ⟨s.resources, base⟩ ⟨s.counters, .empty⟩ op = (.ok d, m))
    (hroom : (s.created ++ d.created.keys).length < UInt64.size) :
    (∀ iri ∈ d.created.keys, iri ∉ s.created ∧ Issued base m.counters iri) ∧
      s.counters.Within d.created.keys.length m.counters := by
  obtain ⟨is, hmints, hcreates⟩ := Execution.mints_of_run hrun
  have hlen : d.created.keys.length = is.length := hcreates.length_keys hmints.nodup.1
  have haccounted : Execution.Accounted ⟨s.resources, base⟩ ⟨s.counters, .empty⟩ := by
    intro iri htaken
    rw [Minter.isTaken, SortedMap.contains_empty, Bool.or_false] at htaken
    exact h.issued iri ((h.present iri).mp htaken).1
  have hbounds : s.counters.Room is.length := by
    intro kind
    have hbounded := h.bounded kind
    rw [List.length_append, hlen] at hroom
    omega
  obtain ⟨hfresh, hwithin⟩ := hmints.fresh haccounted hbounds
  refine ⟨fun iri hi => ?_, hlen ▸ hwithin⟩
  obtain ⟨hnew, hissued⟩ := hfresh iri ((hcreates iri).mp (SortedMap.mem_keys_iff.mp hi))
  exact ⟨fun hc => hnew (h.issued iri hc), hissued⟩

/-- What is there after an operation was created and not deleted, if the operation creates
nothing that was ever deleted. -/
theorem Counted.present_commit {counters : Counters} (h : s.Counted base)
    (htidy : d.Tidy s.resources)
    (hapart : ∀ iri ∈ d.created.keys, iri ∉ s.deleted ++ d.deleted.keys) (iri : Iri) :
    (s.commit now op d counters).resources.contains iri = true ↔
      iri ∈ (s.commit now op d counters).created ∧ iri ∉ (s.commit now op d counters).deleted := by
  rw [created_commit, deleted_commit]
  refine (ResourceDiff.contains_applyTo fun hc => ⟨htidy.changed hc, htidy.apart hc⟩).trans ?_
  rw [h.present, ← Bool.not_eq_true, ← SortedMap.mem_keys_iff, ← SortedMap.mem_keys_iff]
  constructor
  · rintro (hi | ⟨⟨hc, hd⟩, hi⟩)
    · exact ⟨List.mem_append_right _ hi, hapart iri hi⟩
    · exact ⟨List.mem_append_left _ hc, fun hdel => (List.mem_append.mp hdel).elim hd hi⟩
  · rintro ⟨hc, hdel⟩
    rw [List.mem_append, not_or] at hdel
    exact (List.mem_append.mp hc).elim (fun hc => Or.inr ⟨⟨hc, hdel.1⟩, hdel.2⟩) Or.inl

/-- Operations keep the state counted while there is room for more identifiers. -/
theorem Counted.commit (h : s.Counted base)
    (hrun : Execution.run ⟨s.resources, base⟩ ⟨s.counters, .empty⟩ op = (.ok d, m))
    (hroom : (s.commit now op d m.counters).created.length < UInt64.size) :
    (s.commit now op d m.counters).Counted base := by
  rw [created_commit] at hroom
  obtain ⟨hfresh, hwithin⟩ := h.fresh_run hrun hroom
  obtain ⟨htidy, hwoven⟩ := Execution.sound_run (x := ⟨s.resources, base⟩) h.woven hrun
  have hgone : ∀ iri ∈ d.deleted.keys, iri ∈ s.created ∧ iri ∉ s.deleted := fun iri hi =>
    (h.present iri).mp (htidy.deleted (SortedMap.mem_keys_iff.mp hi))
  have hapart : ∀ iri ∈ d.created.keys, iri ∉ s.deleted ++ d.deleted.keys := fun iri hi hdel =>
    (List.mem_append.mp hdel).elim (fun hdel => (hfresh iri hi).1 (h.deleted_subset hdel))
      fun hdel => (hfresh iri hi).1 (hgone iri hdel).1
  have hnodup : (s.created ++ d.created.keys).Nodup :=
    List.nodup_append'.mpr ⟨h.created_nodup, d.created.nodup_keys,
      fun iri hc hi => (hfresh iri hi).1 hc⟩
  refine ⟨?_, fun iri => ?_, ?_, ?_, ?_, fun iri hc => ?_, fun kind => ?_⟩
  · rw [ResourceMap.network, StoreState.commit, ResourceDiff.get?_applyTo]
    exact hwoven
  · exact h.present_commit htidy hapart iri
  · rw [created_commit]
    exact hnodup
  · rw [deleted_commit]
    exact List.nodup_append'.mpr ⟨h.deleted_nodup, SortedMap.nodup_keys _,
      fun iri hd hi => (hgone iri hi).2 hd⟩
  · rw [created_commit, deleted_commit]
    exact List.append_subset.mpr ⟨fun iri hd => List.mem_append_left _ (h.deleted_subset hd),
      fun iri hi => List.mem_append_left _ (hgone iri hi).1⟩
  · rw [created_commit] at hc
    rcases List.mem_append.mp hc with hc | hc
    · exact (h.issued iri hc).within hwithin
    · exact (hfresh iri hc).2
  · have hbounded := h.bounded kind
    have hk := (hwithin kind).2
    rw [created_commit, List.length_append]
    exact Nat.le_trans hk (Nat.add_le_add_right hbounded _)

end

end StoreState

namespace Store

variable {s t : Store}

/-! ## Runs -/

@[simp]
theorem base_attempt (s : Store) (now : Instant) (op : Operation) :
    (s.attempt now op).base = s.base := by
  unfold attempt apply
  cases s.applyTo s.state now op <;> rfl

theorem base_attemptAll (s : Store) (ops : List (Instant × Operation)) :
    (s.attemptAll ops).base = s.base := by
  induction ops generalizing s with
  | nil => rfl
  | cons e ops ih => exact (ih (s.attempt e.1 e.2)).trans (s.base_attempt e.1 e.2)

/-- An operation that a store is asked for is refused, or committed. -/
theorem attempt_cases (s : Store) (now : Instant) (op : Operation) :
    s.attempt now op = s ∨ ∃ d state, s.applyTo s.state now op = .ok (d, state) ∧
      s.attempt now op = s.withState state := by
  unfold attempt apply
  cases h : s.applyTo s.state now op with
  | error e => exact Or.inl rfl
  | ok r => exact Or.inr ⟨r.1, r.2, rfl, rfl⟩

/-- Nothing that the log tells is forgotten. -/
theorem created_attempt (s : Store) (now : Instant) (op : Operation) :
    s.state.created <+: (s.attempt now op).state.created := by
  obtain h | ⟨d, state, hd, h⟩ := s.attempt_cases now op
  · exact h.symm ▸ List.prefix_rfl
  · obtain ⟨m, -, rfl⟩ := applyTo_eq_ok hd
    rw [h]
    exact ⟨d.created.keys, (StoreState.created_commit ..).symm⟩

theorem created_attemptAll (s : Store) (ops : List (Instant × Operation)) :
    s.state.created <+: (s.attemptAll ops).state.created := by
  induction ops generalizing s with
  | nil => exact List.prefix_rfl
  | cons e ops ih => exact (s.created_attempt e.1 e.2).trans (ih (s.attempt e.1 e.2))

theorem counted_attempt {now : Instant} {op : Operation} (h : s.state.Counted s.base)
    (hroom : (s.attempt now op).state.created.length < UInt64.size) :
    (s.attempt now op).state.Counted s.base := by
  obtain heq | ⟨d, state, hd, heq⟩ := s.attempt_cases now op
  · rw [heq]
    exact h
  · obtain ⟨m, hrun, rfl⟩ := applyTo_eq_ok hd
    rw [heq] at hroom ⊢
    exact h.commit hrun hroom

theorem counted_attemptAll {ops : List (Instant × Operation)} (h : s.state.Counted s.base)
    (hroom : (s.attemptAll ops).state.created.length < UInt64.size) :
    (s.attemptAll ops).state.Counted s.base := by
  induction ops generalizing s with
  | nil => exact h
  | cons e ops ih =>
    have hstep : (s.attempt e.1 e.2).state.Counted s.base := counted_attempt h
      (Nat.lt_of_le_of_lt ((s.attempt e.1 e.2).created_attemptAll ops).length_le hroom)
    have hbase := s.base_attempt e.1 e.2
    have hrest := ih (s := s.attempt e.1 e.2) (hbase.symm ▸ hstep) hroom
    rwa [hbase] at hrest

/-! ## Replaying a log -/

/-- Apply operations one after the other, from the `n`-th on, up to the first that is
refused. -/
def applyEach (s : Store) (clock : Nat → Instant) : Nat → List Operation → Except StoreError Store
  | _, [] => .ok s
  | n, op :: rest => (s.apply (clock n) op).bind fun r => r.2.applyEach clock (n + 1) rest

/-- Two stores of the same kind in states that agree. -/
structure Agrees (s t : Store) : Prop where
  base : s.base = t.base
  supported : s.supported = t.supported
  state : s.state.Agrees t.state

theorem Agrees.refl (s : Store) : s.Agrees s := ⟨rfl, rfl, .refl _⟩

/-- What one store commits another one commits too. -/
theorem Agrees.apply (h : s.Agrees t) {now : Instant} {op : Operation} {d : ResourceDiff}
    {state : StoreState} (hd : s.applyTo s.state now op = .ok (d, state)) (now' : Instant) :
    ∃ state', t.apply now' op = .ok (d, t.withState state') ∧
      (s.withState state).Agrees (t.withState state') := by
  obtain ⟨e, he, -⟩ | ⟨a, b, ha, hb, hab, hagrees⟩ :=
    related_applyTo h.base h.supported h.state now now' op
  · rw [hd] at he
    simp at he
  · obtain rfl := Except.ok.inj (hd.symm.trans ha)
    refine ⟨b.2, ?_, h.base, h.supported, hagrees⟩
    rw [Store.apply, hb]
    exact congrArg (fun d => Except.ok (d, t.withState b.2)) hab.symm

/-- The operations that a run adds to the log do to an agreeing store what the run did. -/
theorem applyEach_of_attemptAll (clock : Nat → Instant) :
    ∀ (ops : List (Instant × Operation)) {s t : Store} (n : Nat), s.Agrees t →
      ∃ records t', (s.attemptAll ops).state.log = s.state.log ++ records ∧
        t.applyEach clock n (records.map OperationRecord.operation) = .ok t' ∧
        (s.attemptAll ops).Agrees t'
  | [], s, t, n, h => ⟨[], t, (List.append_nil _).symm, rfl, h⟩
  | (now, op) :: ops, s, t, n, h => by
    obtain heq | ⟨d, state, hd, heq⟩ := s.attempt_cases now op
    · have hrun : s.attemptAll ((now, op) :: ops) = s.attemptAll ops := by
        rw [attemptAll, List.foldl_cons, heq, attemptAll]
      rw [hrun]
      exact applyEach_of_attemptAll clock ops n h
    · obtain ⟨state', happly, hagrees⟩ := h.apply hd (clock n)
      obtain ⟨records, t', hlog, hreplay, hagrees'⟩ :=
        applyEach_of_attemptAll clock ops (n + 1) hagrees
      obtain ⟨m, -, rfl⟩ := applyTo_eq_ok hd
      have hrun : s.attemptAll ((now, op) :: ops) =
          (s.withState (s.state.commit now op d m.counters)).attemptAll ops := by
        rw [attemptAll, List.foldl_cons, heq, attemptAll]
      refine ⟨⟨op, now, d.created.keys, d.changed.keys, d.deleted.keys⟩ :: records, t', ?_, ?_, ?_⟩
      · rw [hrun, hlog]
        simp [withState, StoreState.commit]
      · rw [List.map_cons, applyEach, happly]
        exact hreplay
      · rw [hrun]
        exact hagrees'

/-! ## Faithful logs -/

/-- A store whose log is its history from an empty store on. -/
structure Faithful (s : Store) : Prop where
  /-- There is what was created and not deleted. -/
  present : ∀ iri, iri ∈ s.state.resources.keys ↔ iri ∈ s.state.created ∧ iri ∉ s.state.deleted
  /-- No identifier is created twice, -/
  created_nodup : s.state.created.Nodup
  /-- and none is deleted twice. -/
  deleted_nodup : s.state.deleted.Nodup
  /-- At whatever times, the operations of the log lead from an empty store to the same state. -/
  replays : ∀ clock, ∃ t, (new s.base).applyEach clock 0
    (s.state.log.map OperationRecord.operation) = .ok t ∧ s.Agrees t

/-- The log of a store that started empty is its history, whatever operations it was asked for
and whichever of them it refused. -/
theorem faithful_attemptAll (base : String) (ops : List (Instant × Operation))
    (h : ((new base).attemptAll ops).state.created.length < UInt64.size) :
    ((new base).attemptAll ops).Faithful := by
  have hcounted := counted_attemptAll (s := new base) (StoreState.counted_empty base) h
  refine ⟨fun iri => ?_, hcounted.created_nodup, hcounted.deleted_nodup, fun clock => ?_⟩
  · rw [SortedMap.mem_keys_iff]
    exact hcounted.present iri
  · obtain ⟨records, t, hlog, hreplay, hagrees⟩ :=
      applyEach_of_attemptAll clock ops 0 (Agrees.refl (new base))
    have hlog : ((new base).attemptAll ops).state.log = records := hlog
    rw [base_attemptAll, hlog]
    exact ⟨t, hreplay, hagrees⟩

/-- Two classes, of which the first one is gone when the second one is created. A schema that
is in use is not deleted. -/
def twoClasses : List (Instant × Operation) :=
  [(.epoch, .create .structuralSchema none .empty),
    (.epoch, .create .structuralClass (some "b/psm-schema/1") .empty),
    (.epoch, .delete "b/psm-schema/1"),
    (.epoch, .delete "b/psm-class/1"),
    (.epoch, .create .structuralClass (some "b/psm-schema/1") .empty)]

/-- The second class does not get the identifier of the first one. -/
theorem faithful_attemptAll_twoClasses :
    ((new "b").attemptAll twoClasses).state.created =
      ["b/psm-schema/1", "b/psm-class/1", "b/psm-class/2"] ∧
    ((new "b").attemptAll twoClasses).state.deleted = ["b/psm-class/1"] ∧
    ((new "b").attemptAll twoClasses).Faithful := by
  have hcreated : ((new "b").attemptAll twoClasses).state.created =
      ["b/psm-schema/1", "b/psm-class/1", "b/psm-class/2"] := by decide +kernel
  have hroom : ((new "b").attemptAll twoClasses).state.created.length < UInt64.size := by
    rw [hcreated]
    decide
  exact ⟨hcreated, by decide +kernel, faithful_attemptAll "b" twoClasses hroom⟩

end Store

end DataSpec
