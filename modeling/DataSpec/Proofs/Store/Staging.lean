import DataSpec.Store.Federation
import DataSpec.Proofs.Except
import Mathlib.Data.List.Forall2

/-!
# Complex operations refine sequential ones

`Federation.applyAll` carries out operations on copies of the states of all members, and
`Federation.apply` carries out one operation on the members themselves. The two do the same
(`Federation.applyAll_eq_applyEach`) : a complex operation succeeds when its operations do
one after the other, and then leaves the same states behind, and it fails with the failure
of the first one that does not, and then leaves everything as it was.

The copies follow the members through the sequential run (`Staging.Matches`). Times are not
compared : the two runs may read different clocks, and no operation looks at the log.
-/

set_option autoImplicit false
set_option linter.unusedSectionVars false

namespace DataSpec

/-! ## Equality up to times -/

/-- A record without its time. -/
def OperationRecord.untimed (r : OperationRecord) : Operation × List Iri × List Iri × List Iri :=
  (r.operation, r.created, r.changed, r.deleted)

/-- The same resources, counters and log, the times in the log aside. -/
structure StoreState.Agrees (s t : StoreState) : Prop where
  resources : s.resources = t.resources
  counters : s.counters = t.counters
  log : s.log.map OperationRecord.untimed = t.log.map OperationRecord.untimed

/-- The same member in states that agree. -/
structure Member.Agrees (m n : Member) : Prop where
  id : m.id = n.id
  name : m.name = n.name
  base : m.store.base = n.store.base
  supported : m.store.supported = n.store.supported
  location : m.store.location = n.store.location
  state : m.store.state.Agrees n.store.state

theorem StoreState.Agrees.refl (s : StoreState) : s.Agrees s := ⟨rfl, rfl, rfl⟩

theorem Member.Agrees.refl (m : Member) : m.Agrees m := ⟨rfl, rfl, rfl, rfl, rfl, .refl _⟩

theorem StoreState.Agrees.commit {s t : StoreState} (h : s.Agrees t) (now now' : Instant)
    (op : Operation) (d : ResourceDiff) (counters : Counters) :
    (s.commit now op d counters).Agrees (t.commit now' op d counters) := by
  refine ⟨?_, rfl, ?_⟩
  · simp only [StoreState.commit, h.resources]
  · simp [StoreState.commit, h.log, OperationRecord.untimed]

/-- An operation does the same to states that agree. -/
theorem Store.related_applyTo {s t : Store} {u v : StoreState} (hb : s.base = t.base)
    (hs : s.supported = t.supported) (h : u.Agrees v) (now now' : Instant) (op : Operation) :
    Except.Related (fun a b => a.1 = b.1 ∧ a.2.Agrees b.2) (s.applyTo u now op)
      (t.applyTo v now' op) := by
  unfold Store.applyTo
  rw [hb, hs, h.resources, h.counters]
  cases execute t.supported ⟨v.resources, t.base⟩ ⟨v.counters, .empty⟩ op with
  | mk r m =>
    cases r with
    | error e => exact Or.inl ⟨e, rfl, rfl⟩
    | ok d =>
      by_cases hd : d.isDisjoint = true
      · simp only [hd, if_true]
        exact Or.inr ⟨_, _, rfl, rfl, rfl, h.commit now now' op d m.counters⟩
      · simp only [hd, Bool.false_eq_true, if_false]
        exact Or.inl ⟨_, rfl, rfl⟩

namespace Federation

/-! ## Routing -/

/-- Where a handle leads depends only on the handles of the members. -/
theorem related_place? {ms ns : List Member} (h : ms.map Member.id = ns.map Member.id)
    (id : StoreId) :
    Except.Related (fun i j => i.val = j.val) (place? ms id) (place? ns id) := by
  have hidx : ∀ l : List Member, (l.findFinIdx? fun m => decide (m.id = id)).map (·.val) =
      (l.map Member.id).findIdx? fun i => decide (i = id) := fun l => by
    rw [← List.findIdx?_eq_map_findFinIdx?_val, List.findIdx?_map]
    rfl
  have hval := (hidx ms).trans ((congrArg _ h).trans (hidx ns).symm)
  unfold place?
  cases hm : ms.findFinIdx? fun m => decide (m.id = id) with
  | none =>
    rw [hm, Option.map_none, eq_comm, Option.map_eq_none_iff] at hval
    rw [hval]
    exact Or.inl ⟨_, rfl, rfl⟩
  | some i =>
    rw [hm, Option.map_some, eq_comm, Option.map_eq_some_iff] at hval
    obtain ⟨j, hj, hij⟩ := hval
    rw [hj]
    exact Or.inr ⟨i, j, rfl, rfl, hij.symm⟩

/-- So where an operation goes depends only on the handles and the owners. -/
theorem related_route {ms ns : List Member} (h : ms.map Member.id = ns.map Member.id)
    (owners : SortedMap Iri StoreId) (op : Operation) :
    Except.Related (fun i j => i.val = j.val) (route ms owners op) (route ns owners op) := by
  have hlen : ms.length = ns.length := by simpa using congrArg List.length h
  unfold route
  by_cases hpos : 0 < ms.length
  · rw [dif_pos hpos, dif_pos (hlen ▸ hpos)]
    cases op.routingIri? with
    | none => exact Or.inr ⟨_, _, rfl, rfl, by simp only [hlen]⟩
    | some iri =>
      cases howner : owners.get? iri with
      | none =>
        simp only [howner]
        exact Or.inl ⟨_, rfl, rfl⟩
      | some id =>
        simp only [howner]
        exact related_place? h id
  · rw [dif_neg hpos, dif_neg (hlen ▸ hpos)]
    exact Or.inl ⟨_, rfl, rfl⟩

/-! ## One run and the other -/

/-- Apply operations one after the other, from the `n`-th on, up to the first that fails. -/
def applyEach (f : Federation) (clock : Nat → Instant) :
    Nat → List Operation → Except ComplexError Federation
  | _, [] => .ok f
  | n, op :: rest =>
    match f.apply (clock n) op with
    | .error e => .error ⟨n, e⟩
    | .ok (_, f) => f.applyEach clock (n + 1) rest

namespace Staging

variable {members : List Member} {g : Staging members} {f : Federation}

@[simp]
theorem length_release (g : Staging members) : g.release.length = members.length :=
  List.length_ofFn

theorem get_release (g : Staging members) {i : Nat} (h : i < members.length)
    (h' : i < g.release.length) :
    g.release.get ⟨i, h'⟩ =
      { members[i] with store := members[i].store.withState (g.states ⟨i, h⟩) } := by
  simp [release]

/-- The copies hold what the members of a federation do. -/
structure Matches (g : Staging members) (f : Federation) : Prop where
  members : List.Forall₂ Member.Agrees g.release f.members
  owners : g.owners = f.owners

theorem Matches.start (f : Federation) : f.staging.Matches f := by
  have hrel : f.staging.release = f.members := by
    refine List.ext_get (by simp) fun i h h' => ?_
    rw [get_release _ h']
    rfl
  refine ⟨?_, rfl⟩
  rw [hrel]
  exact List.forall₂_same.mpr fun m _ => .refl m

theorem Matches.length (h : g.Matches f) : members.length = f.members.length := by
  simpa using h.members.length_eq

theorem Matches.agrees (h : g.Matches f) {i : Nat} (hi : i < members.length)
    (hi' : i < f.members.length) :
    { members[i] with store := members[i].store.withState (g.states ⟨i, hi⟩) : Member }.Agrees
      f.members[i] := by
  have := (List.forall₂_iff_get.mp h.members).2 i (by simpa using hi) hi'
  rwa [get_release g hi] at this

theorem Matches.map_id (h : g.Matches f) :
    members.map Member.id = f.members.map Member.id := by
  refine List.ext_getElem (by simpa using h.length) fun i hi hi' => ?_
  simp only [List.length_map] at hi hi'
  rw [List.getElem_map, List.getElem_map]
  exact (h.agrees hi hi').id

/-- The copies match again when a state of one and the member behind it are replaced by
states that agree. -/
theorem Matches.set (h : g.Matches f) {i : Fin members.length} {j : Fin f.members.length}
    (hij : i.val = j.val) {u v : StoreState} (hu : u.Agrees v) (owners : SortedMap Iri StoreId) :
    Matches ⟨g.set i u, owners⟩
      { f with
        members := f.members.set j
          { f.members[j] with store := f.members[j].store.withState v }
        owners } := by
  refine ⟨List.forall₂_iff_get.mpr ⟨by simpa using h.length, fun k hk hk' => ?_⟩, rfl⟩
  have hk : k < members.length := by simpa using hk
  have hk' : k < f.members.length := by simpa using hk'
  have hold := h.agrees hk hk'
  rw [get_release _ hk, List.get_eq_getElem, List.getElem_set]
  by_cases hkj : j.val = k
  · obtain rfl := hkj
    have hi : (⟨j.val, hk⟩ : Fin members.length) = i := Fin.ext hij.symm
    have hset : g.set i u ⟨j.val, hk⟩ = u := by rw [Staging.set, if_pos hi]
    rw [if_pos rfl]
    simp only [hset]
    exact ⟨hold.id, hold.name, hold.base, hold.supported, hold.location, hu⟩
  · have hi : (⟨k, hk⟩ : Fin members.length) ≠ i := fun h =>
      hkj (hij.symm.trans (congrArg Fin.val h).symm)
    have hset : g.set i u ⟨k, hk⟩ = g.states ⟨k, hk⟩ := by rw [Staging.set, if_neg hi]
    rw [if_neg hkj]
    simp only [hset]
    exact hold

/-- One operation does to the copies what it does to the members. -/
theorem related_apply (h : g.Matches f) (now now' : Instant) (op : Operation) :
    Except.Related (fun a b => a.1 = b.1 ∧ a.2.Matches b.2) (g.apply now op)
      (f.apply now' op) := by
  unfold Staging.apply Federation.apply
  rw [h.owners]
  obtain ⟨e, hi, hj⟩ | ⟨i, j, hi, hj, hij⟩ := related_route h.map_id f.owners op
  · rw [hi, hj]
    exact Or.inl ⟨e, rfl, rfl⟩
  · rw [hi, hj]
    obtain ⟨j, hlt⟩ := j
    obtain rfl : i.val = j := hij
    have hold := h.agrees i.isLt hlt
    simp only [applyAt, commitOn, Store.apply, Fin.getElem_fin]
    obtain ⟨e, hu, hv⟩ | ⟨⟨d, u⟩, ⟨d', v⟩, hu, hv, rfl, huv⟩ :=
      Store.related_applyTo hold.base hold.supported hold.state now now' op
    · have hu : members[i.val].store.applyTo (g.states i) now op = .error e := hu
      rw [hu, hv]
      exact Or.inl ⟨e, rfl, rfl⟩
    · have hu : members[i.val].store.applyTo (g.states i) now op = .ok (d, u) := hu
      rw [hu, hv]
      refine Or.inr ⟨_, _, rfl, rfl, rfl, ?_⟩
      have hid : members[i.val].id = f.members[i.val].id := hold.id
      have hm := h.set (i := i) (j := ⟨i.val, hlt⟩) rfl huv
        (recordOwners f.owners f.members[i.val].id d)
      rw [hid]
      exact ⟨hm.members, hm.owners⟩

/-- The operations do to the copies what they do to the members one after the other. -/
theorem related_applyAll (clock clock' : Nat → Instant) :
    ∀ (n : Nat) {g : Staging members} {f : Federation} (done : ResourceDiff) (ops : List Operation),
      g.Matches f → Except.Related (fun a h => a.2.Matches h)
        (g.applyAll clock n done ops) (f.applyEach clock' n ops)
  | _, g, f, done, [], h => Or.inr ⟨(done, g), f, rfl, rfl, h⟩
  | n, g, f, done, op :: rest, h => by
    rw [Staging.applyAll, applyEach]
    obtain ⟨e, hg, hf⟩ | ⟨⟨d, g'⟩, ⟨d', f'⟩, hg, hf, -, h'⟩ :=
      related_apply h (clock n) (clock' n) op
    · rw [hg, hf]
      exact Or.inl ⟨⟨n, e⟩, rfl, rfl⟩
    · rw [hg, hf]
      exact related_applyAll clock clock' (n + 1) (done.merge d) rest h'

end Staging

/-- A complex operation succeeds exactly when its operations do one after the other, and
then members and owners are, but for times in the logs, what they are after these. Else it
reports the first operation that fails and why, and leaves everything as it was. -/
theorem applyAll_eq_applyEach (f : Federation) (clock clock' : Nat → Instant)
    (ops : List Operation) :
    match f.applyEach clock' 0 ops with
    | .ok g => ∃ d h, f.applyAll clock ops = (.ok d, h) ∧
        List.Forall₂ Member.Agrees h.members g.members ∧ h.owners = g.owners
    | .error e => f.applyAll clock ops = (.error e, f) := by
  unfold applyAll
  obtain ⟨e, hg, hf⟩ | ⟨⟨d, g⟩, f', hg, hf, h⟩ :=
    Staging.related_applyAll clock clock' 0 .empty ops (.start f)
  · rw [hg, hf]
  · rw [hg, hf]
    exact ⟨d, _, rfl, h.members, h.owners⟩

end Federation

end DataSpec
