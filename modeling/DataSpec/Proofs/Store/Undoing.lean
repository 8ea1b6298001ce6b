import DataSpec.Proofs.Store.Identity
import DataSpec.Proofs.Store.Refusals

/-!
# Deletion undoes creation

Creation adds links to a network, deletion removes them, and what was added and is then removed
leaves the links as they were (`Network.removeAll_addAll`). Both change no more of the other
resources than their lists (`Resource.Relisted`). So all of a resource that may differ is its
list of parts where it is empty, which was perhaps not written before (`Resource.compact`), and a
store that deletes what it just created has the resources that it had
(`Store.delete_created`).
-/

set_option autoImplicit false

namespace DataSpec

/-! ## Resources with the same links -/

namespace Resource

variable {r r' : Resource}

theorem ext_get? (hi : r.iri = r'.iri) (hk : r.kinds = r'.kinds) (h : ∀ k, r.get? k = r'.get? k) :
    r = r' := by
  obtain ⟨iri, kinds, attributes⟩ := r
  obtain ⟨iri', kinds', attributes'⟩ := r'
  obtain rfl : iri = iri' := hi
  obtain rfl : kinds = kinds' := hk
  obtain rfl : attributes = attributes' := SortedMap.ext_get? h
  rfl

/-- The resource without its list of parts, if that is empty. -/
def compact (r : Resource) : Resource :=
  if r.get? .parts = some (.iriList []) then r.remove .parts else r

theorem iri_compact (r : Resource) : r.compact.iri = r.iri := by
  unfold compact
  split <;> rfl

theorem kinds_compact (r : Resource) : r.compact.kinds = r.kinds := by
  unfold compact
  split <;> rfl

theorem get?_compact_of_ne (r : Resource) {k : AttributeKey} (hk : k ≠ .parts) :
    r.compact.get? k = r.get? k := by
  unfold compact
  split
  · rw [get?_remove, if_neg hk]
  · rfl

theorem get?_compact_parts (h : r.Shaped) :
    r.compact.get? .parts = if r.parts = [] then none else some (.iriList r.parts) := by
  unfold compact
  rcases h.get?_list (k := .parts) rfl with ⟨hnone, hparts⟩ | hsome
  · rw [if_neg (by simp [hnone]), hnone, parts, if_pos hparts]
  · by_cases hparts : r.parts = []
    · rw [parts] at hparts
      rw [if_pos (by rw [hsome, hparts]), get?_remove, if_pos rfl, parts, if_pos hparts]
    · rw [if_neg hparts, if_neg fun h => hparts (iriList_eq h)]
      exact hsome

/-- A resource whose lists changed back and forth is what it was, but for an empty list. -/
theorem Relisted.compact_eq (h : r'.Relisted r) (hr : r.Shaped) (hl : r'.links = r.links) :
    r'.compact = r.compact := by
  have hparts : r'.parts = r.parts := congrArg Links.parts hl
  have hroots : r'.get? .roots = r.get? .roots := by
    rcases h.roots with heq | ⟨is, his, hlt⟩
    · exact heq
    · have hsame : r'.iriList .roots = r.iriList .roots := congrArg Links.roots hl
      rw [iriList_eq his] at hsame
      exact absurd (congrArg List.length hsame) (Nat.ne_of_lt hlt)
  have hiri : r'.compact.iri = r.compact.iri := by rw [iri_compact, iri_compact, h.iri]
  have hkinds : r'.compact.kinds = r.compact.kinds := by rw [kinds_compact, kinds_compact, h.kinds]
  refine ext_get? hiri hkinds fun k => ?_
  by_cases hp : k = .parts
  · subst hp
    rw [get?_compact_parts (h.shaped hr), get?_compact_parts hr, hparts]
  rw [get?_compact_of_ne _ hp, get?_compact_of_ne _ hp]
  by_cases hk : k = .roots
  · subst hk
    exact hroots
  · exact h.get? k hp hk

end Resource

/-- The resources, each without its list of parts if that is empty. -/
def ResourceMap.compact (m : ResourceMap) : ResourceMap := m.mapValues fun _ r => r.compact

/-! ## Bodies -/

namespace Execution

open ResourceDiff Network

variable {x : Execution} {m m' : Minter} {d : ResourceDiff} {kind : Kind} {iri : Iri}

theorem kept_changes (m : ResourceMap) : Kept Relists m (·.Changes Resource.Relisted m) :=
  ⟨changes_empty, fun hf h he => h.edit .trans hf he, fun iri h => h.delete iri⟩

/-- Creation changes no more of other resources than their lists. -/
theorem relists_create {owner : Option Iri} {attributes : Attributes}
    (h : x.create m kind owner attributes = (.ok d, m')) :
    d.Changes Resource.Relisted x.resources := by
  obtain ⟨rs, is, -, -, -, hedits⟩ := makes_create h
  refine hedits.keep (P := (·.Changes Resource.Relisted x.resources))
    (kept_changes x.resources).edit fun i r' hr' => ?_
  rw [changed_foldl_create] at hr'
  exact changes_empty i r' hr'

theorem relists_delete (h : x.delete iri = .ok d) : d.Changes Resource.Relisted x.resources :=
  kept_delete (kept_changes x.resources) h

/-- The first of the resources that are added has the others as its parts. -/
theorem created_of_adds {l : Links} {ends : List Links} (hl : l.Heads kind ends)
    (ha : d.Adds x.resources (l :: ends)) :
    ∃ r, d.created.get? l.iri = some r ∧ d.view x.resources l.iri = some r ∧ r.kinds = [kind] ∧
      r.parts = ends.map Links.iri := by
  have hheld : ends.filter (fun e => e.HeldBy l.iri) = ends := List.filter_eq_self.mpr fun e he =>
    decide_eq_true (Or.inl (hl.ends e he).2)
  have hself := addAll_cons_self ha.fits
  rw [hheld, ← ha.network] at hself
  obtain ⟨r, hview, hlinks⟩ := of_eq_some_iff.mp hself
  have habsent : x.resources.get? l.iri = none :=
    Option.map_eq_none_iff.mp (ha.fits.fresh List.mem_cons_self)
  have hcreated : d.created.get? l.iri = some r := by
    rw [view, ha.tidy.changed_eq_none habsent, habsent, ite_self, Option.or_none,
      Option.none_or] at hview
    exact hview
  have hparts : r.parts = l.parts ++ ends.map Links.iri := congrArg Links.parts hlinks
  rw [show l.parts = [] from ha.fits.1.parts, List.nil_append] at hparts
  exact ⟨r, hcreated, hview, (congrArg Links.kinds hlinks).trans hl.kinds, hparts⟩

/-- What is created was added. -/
theorem mem_of_created {ls : List Links} (ha : d.Adds x.resources ls) {i : Iri} {q : Resource}
    (hq : d.created.get? i = some q) : ∃ l ∈ ls, i = l.iri ∧ q.kinds = l.kinds := by
  have hnone : x.resources.get? i = none := ha.tidy.created (SortedMap.contains_iff.mpr ⟨q, hq⟩)
  have hnet : x.network.addAll ls i = some q.links := by
    have hview : d.view x.resources i = some q := by
      rw [view, ha.tidy.changed_eq_none hnone, hq, Option.none_or, Option.some_or]
    exact (congrFun ha.network i).symm.trans (of_eq_some hview)
  have hadded : i ∈ ls.map Links.iri := by
    by_contra hi
    rw [addAll_of_notMem hi, network_eq_none hnone, Option.map_none] at hnet
    cases hnet
  obtain ⟨l, hl, rfl⟩ := List.mem_map.mp hadded
  obtain ⟨h, hh, halike⟩ := exists_addAll ha.fits hl
  obtain rfl := Option.some.inj (hnet.symm.trans hh)
  exact ⟨l, hl, rfl, halike.kinds⟩

/-- Nothing else of the kind of the first resource is created, since its ends are of another
one. -/
theorem eq_of_created {l : Links} {ends : List Links} (hl : l.Heads kind ends)
    (ha : d.Adds x.resources (l :: ends)) {i : Iri} {q : Resource}
    (hq : d.created.get? i = some q) (hkind : q.kinds = [kind]) : i = l.iri := by
  obtain ⟨e, he, rfl, hkinds⟩ := mem_of_created ha hq
  rcases List.mem_cons.mp he with rfl | hend
  · rfl
  · rw [hkind, (hl.ends e hend).1] at hkinds
    exact absurd (List.singleton_inj.mp hkinds) hl.kind_ne

/-- What was just created may be deleted, and then the links are as before. -/
theorem exists_delete {y : Execution} {l : Links} {ends : List Links} (w : x.network.Woven)
    (hl : l.Heads kind ends) (ha : d.Adds x.resources (l :: ends))
    (hx : y.resources = d.applyTo x.resources) :
    ∃ d', y.delete l.iri = .ok d' ∧ y.Removing d' ∧ d'.network y.resources = x.network := by
  obtain ⟨r, -, hview, hkinds, hparts⟩ := created_of_adds hl ha
  have hget : y.resources.get? = d.view x.resources := by rw [hx, get?_applyTo]
  have hnet : y.network = x.network.addAll (l :: ends) :=
    (congrArg Network.of hget).trans ha.network
  have w₁ : y.network.Woven := hnet ▸ w.addAll ha.fits
  have hr : y.resources.get? l.iri = some r := hget ▸ hview
  have his : ∀ {k}, r.is k = true → k = kind := fun hk => by simpa [Resource.is, hkinds] using hk
  have hallow : y.resources.Allows (.delete l.iri) := by
    refine ⟨r, hr, Bool.eq_false_iff.mpr fun hend => hl.kind_ne (his hend).symm,
      fun k hk hkind => ?_⟩
    obtain rfl := his hk
    rw [hparts, hl.alone (by rintro rfl; simp [Kind.isSchema, Kind.isClass] at hkind),
      List.map_nil]
  cases hdel : y.delete l.iri with
  | error e =>
    have hlinked := ResourceMap.linked_of_woven w₁
    exact absurd hallow
      (ResourceMap.not_allows_of_refuses hlinked ((settles_delete hlinked l.iri).of_error hdel))
  | ok d' =>
    obtain ⟨r', hr', hremoves⟩ := removes_delete w₁ hdel
    obtain rfl := Option.some.inj (hr.symm.trans hr')
    refine ⟨d', rfl, hremoves.removing, ?_⟩
    rw [hremoves.network, hnet, hparts]
    exact removeAll_addAll w ha.fits fun n => by simp [or_comm]

/-- Where lists are all that two diffs change of resources, and the links are as before, so are
the resources but for empty lists. -/
theorem compact_applyTo {y : Execution} {d' : ResourceDiff} (hp : x.resources.Proper)
    (hx : y.resources = d.applyTo x.resources) (ht : d.Tidy x.resources)
    (hc : d.Changes Resource.Relisted x.resources) (h' : y.Removing d')
    (hc' : d'.Changes Resource.Relisted y.resources)
    (hnet : d'.network y.resources = x.network) :
    (d'.applyTo y.resources).compact = x.resources.compact := by
  refine SortedMap.ext_get? fun i => ?_
  rw [ResourceMap.compact, ResourceMap.compact, SortedMap.get?_mapValues, SortedMap.get?_mapValues]
  have hlinks : ((d'.applyTo y.resources).get? i).map Resource.links =
      (x.resources.get? i).map Resource.links := by
    rw [get?_applyTo]
    exact congrFun hnet i
  cases hr : x.resources.get? i with
  | none =>
    rw [hr, Option.map_none, Option.map_eq_none_iff] at hlinks
    rw [hlinks, Option.map_none]
  | some r =>
    rw [hr] at hlinks
    obtain ⟨r₂, hr₂, hlinks⟩ := Option.map_eq_some_iff.mp hlinks
    obtain ⟨r₁, hr₁⟩ := SortedMap.contains_iff.mp (h'.of_view (get?_applyTo d' _ ▸ hr₂)).1
    have hcreated : d.created.get? i = none :=
      ht.created_eq_none (SortedMap.contains_iff.mpr ⟨r, hr⟩)
    have hrelisted : r₂.Relisted r := by
      have h₂ := hc'.applyTo .refl (by rw [h'.created, SortedMap.get?_empty]) hr₁ hr₂
      exact h₂.trans (hc.applyTo .refl hcreated hr (hx ▸ hr₁))
    rw [hr₂, Option.map_some, Option.map_some, hrelisted.compact_eq (hp i r hr).shaped hlinks]

end Execution

/-! ## Stores -/

/-- Of the resources that a creation adds, the one that was asked for. -/
def ResourceDiff.CreatesOf (d : ResourceDiff) (kind : Kind) (iri : Iri) : Prop :=
  ∃ r, d.created.get? iri = some r ∧ r.kinds = [kind]

namespace Store

open Execution ResourceDiff

/-- The state after a creation, and the one after the new resource was deleted again. -/
theorem apply_delete_created {s s₁ : Store} {d : ResourceDiff} {now : Instant} {kind : Kind}
    {owner : Option Iri} {attributes : Attributes} (w : s.state.resources.network.Woven)
    (hp : s.state.resources.Proper) (hs : s.supported.contains .delete = true)
    (h : s.apply now (.create kind owner attributes) = .ok (d, s₁)) (now' : Instant) :
    (∃ iri, d.CreatesOf kind iri) ∧ ∀ iri, d.CreatesOf kind iri → ∃ d' resources,
      s₁.apply now' (.delete iri) = .ok (d', s.withState ⟨resources,
        s₁.state.log ++ [⟨.delete iri, now', d'.created.keys, d'.changed.keys, d'.deleted.keys⟩],
        s₁.state.counters⟩) ∧
      resources.compact = s.state.resources.compact := by
  obtain ⟨-, m, hrun, -, rfl⟩ := apply_eq_ok_iff.mp h
  obtain ⟨l, ends, hheads, hadds⟩ := adds_create (x := ⟨s.state.resources, s.base⟩) w hrun
  obtain ⟨r, hcreated, -, hkinds, -⟩ := created_of_adds hheads hadds
  refine ⟨⟨l.iri, r, hcreated, hkinds⟩, fun iri hi => ?_⟩
  obtain rfl : iri = l.iri := by
    obtain ⟨q, hq, hkq⟩ := hi
    exact eq_of_created hheads hadds hq hkq
  obtain ⟨d', hdel, hremoving, hnet⟩ := exists_delete (x := ⟨s.state.resources, s.base⟩)
    (y := ⟨d.applyTo s.state.resources, s.base⟩) w hheads hadds rfl
  refine ⟨d', d'.applyTo (d.applyTo s.state.resources), apply_eq_ok_iff.mpr
    ⟨hs, ⟨m.counters, .empty⟩, Prod.ext hdel rfl, hremoving.tidy.isDisjoint, rfl⟩, ?_⟩
  exact compact_applyTo (x := ⟨s.state.resources, s.base⟩) hp rfl hadds.tidy (relists_create hrun)
    hremoving (relists_delete hdel) hnet

/-- In a store that started empty, whatever it was asked for before, deleting a resource that was
just created succeeds and gives back the resources that were there, but for empty lists of parts.
All else that is left of both operations is the log, and counters that have come further. -/
theorem delete_created (base : String) (ops : List (Instant × Operation)) (now now' : Instant)
    (kind : Kind) (owner : Option Iri) (attributes : Attributes) {d : ResourceDiff} {s₁ : Store}
    (h : ((new base).attemptAll ops).apply now (.create kind owner attributes) = .ok (d, s₁)) :
    let s := (new base).attemptAll ops
    (∃ iri, d.CreatesOf kind iri) ∧ ∀ iri, d.CreatesOf kind iri → ∃ d' resources records,
      s₁.apply now' (.delete iri) =
        .ok (d', s.withState ⟨resources, s.state.log ++ records, s₁.state.counters⟩) ∧
      resources.compact = s.state.resources.compact ∧
      records.map OperationRecord.operation = [.create kind owner attributes, .delete iri] ∧
      (s₁.state.created.length < UInt64.size →
        s.state.counters.Within d.created.keys.length s₁.state.counters) := by
  intro s
  have w : s.state.resources.network.Woven :=
    woven_attemptAll (s := new base) Network.woven_none ops
  have hp : s.state.resources.Proper := proper_attemptAll (s := new base) nofun ops
  have hs : s.supported.contains .delete = true := by
    rw [supported_attemptAll]
    rfl
  obtain ⟨hexists, hdelete⟩ := apply_delete_created w hp hs h now'
  refine ⟨hexists, fun iri hi => ?_⟩
  obtain ⟨d', resources, happly, hcompact⟩ := hdelete iri hi
  obtain ⟨-, m, hrun, -, rfl⟩ := apply_eq_ok_iff.mp h
  refine ⟨d', resources,
    [⟨.create kind owner attributes, now, d.created.keys, d.changed.keys, d.deleted.keys⟩,
      ⟨.delete iri, now', d'.created.keys, d'.changed.keys, d'.deleted.keys⟩],
    ?_, hcompact, rfl, fun hroom => ?_⟩
  · rw [happly]
    simp [withState, StoreState.commit, s]
  · have hroom : (s.state.created ++ d.created.keys).length < UInt64.size := by
      rwa [← StoreState.created_commit]
    have hcounted : s.state.Counted base := counted_attemptAll (StoreState.counted_empty base)
      (Nat.lt_of_le_of_lt (List.prefix_append _ _).length_le hroom)
    rw [base_attemptAll] at hrun
    exact (hcounted.fresh_run hrun hroom).2

/-- A schema with two classes. -/
def twoConcepts : List (Instant × Operation) :=
  [(.epoch, .create .conceptualSchema none .empty),
    (.epoch, .create .conceptualClass (some "b/schema/1") .empty),
    (.epoch, .create .conceptualClass (some "b/schema/1") .empty)]

/-- With a new association between them its two ends go as well. -/
theorem delete_created_association :
    let s := (new "b").attemptAll twoConcepts
    let op := Operation.create .conceptualAssociation (some "b/schema/1")
      (SortedMap.empty.insert .ends (.iriList ["b/class/1", "b/class/2"]))
    ∃ d s₁ d' resources records, s.apply .epoch op = .ok (d, s₁) ∧ d.created.size = 3 ∧
      s₁.apply .epoch (.delete "b/association/1") =
        .ok (d', s.withState ⟨resources, s.state.log ++ records, s₁.state.counters⟩) ∧
      resources.compact = s.state.resources.compact := by
  intro s op
  have hout : ((s.apply .epoch op).map fun r => (r.1.created.size,
      (r.1.created.get? "b/association/1").map Resource.kinds)) =
        .ok (3, some [.conceptualAssociation]) := by decide +kernel
  obtain ⟨⟨d, s₁⟩, happly, hr⟩ := Except.map_eq_ok.mp hout
  obtain ⟨hsize, hkinds⟩ := Prod.mk.inj hr
  obtain ⟨-, hdelete⟩ := delete_created "b" twoConcepts .epoch .epoch _ _ _ happly
  obtain ⟨d', resources, records, hd', hcompact, -⟩ :=
    hdelete "b/association/1" (Option.map_eq_some_iff.mp hkinds)
  exact ⟨d, s₁, d', resources, records, happly, hsize, hd', hcompact⟩

end Store

end DataSpec
