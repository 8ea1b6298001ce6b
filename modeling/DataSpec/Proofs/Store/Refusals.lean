import DataSpec.Proofs.Store.History

/-!
# Why operations are refused

`ResourceMap.Allows` is the precondition of an operation, and `ResourceMap.Refuses` are the
reasons for which it may be refused, each with what is wrong then. No reason applies to an
operation that is allowed (`not_allows_of_refuses`).

A store that started empty refuses operations for these reasons only, and carries out those
that are allowed (`Store.apply_attemptAll`). The other failures that executing an operation
has a name for do not happen there : a resource has a kind, a class names a schema
(`Links.Housed`), what is edited is there and not being deleted, and no diff overlaps. All that
remains is that no identifier is left, which takes nearly 2^64 resources
(`Minter.size_le_of_mint_eq_none`).
-/

set_option autoImplicit false
set_option linter.unusedSectionVars false

namespace DataSpec

/-! ## What resources are like -/

/-- Resources each of which names a schema, unless it is one. -/
def ResourceMap.Housed (m : ResourceMap) : Prop :=
  ∀ i r, m.get? i = some r → r.links.Housed

/-- Resources each of which is as those of a store that started empty are. -/
def ResourceMap.Proper (m : ResourceMap) : Prop := ∀ i r, m.get? i = some r → r.Proper

namespace ResourceDiff

variable {d d' : ResourceDiff} {m : ResourceMap} {r : Resource} {i : Iri}

/-- A diff all of whose bodies are proper. -/
def Proper (d : ResourceDiff) : Prop :=
  ∀ i r, d.created.get? i = some r ∨ d.changed.get? i = some r → r.Proper

theorem proper_empty : empty.Proper := by
  intro i r h
  simp [empty] at h

theorem Proper.create (h : d.Proper) (hr : r.Proper) : (d.create r).Proper := by
  intro i q hq
  rw [ResourceDiff.create, SortedMap.get?_insert] at hq
  split at hq
  · rcases hq with hq | hq
    · exact Option.some.inj hq ▸ hr
    · exact h i q (Or.inr hq)
  · exact h i q hq

theorem Proper.edit {f : Resource → Resource} (hf : Light f) (hm : m.Proper) (h : d.Proper)
    (he : d.edit m i f = .ok d') : d'.Proper := by
  obtain ⟨-, ⟨r, hr, rfl⟩ | ⟨r, -, hr, rfl⟩⟩ := edit_cases he
  · have hnew : (f r).Proper := hf.proper (h i r (Or.inl hr))
    intro j q hq
    rw [SortedMap.get?_insert] at hq
    split at hq
    · exact hq.elim (fun hq => Option.some.inj hq ▸ hnew) fun hq => h j q (Or.inr hq)
    · exact h j q hq
  · have hnew : (f r).Proper :=
      hf.proper (hr.elim (fun hr => h i r (Or.inr hr)) fun hr => hm i r hr.2)
    intro j q hq
    rw [SortedMap.get?_insert] at hq
    split at hq
    · exact hq.elim (fun hq => h j q (Or.inl hq)) fun hq => Option.some.inj hq ▸ hnew
    · exact h j q hq

theorem Proper.delete (h : d.Proper) (i : Iri) : (d.delete i).Proper := by
  have herase : ∀ {m : ResourceMap} {j r}, (m.erase i).get? j = some r → m.get? j = some r := by
    intro m j r hr
    rw [SortedMap.get?_erase] at hr
    split at hr
    · cases hr
    · exact hr
  intro j r hr
  unfold ResourceDiff.delete at hr
  split at hr
  · exact h j r (hr.imp herase herase)
  · exact h j r (hr.imp_right herase)

theorem kept_proper (hm : m.Proper) : Kept Light m Proper :=
  ⟨proper_empty, fun hf h he => h.edit hf hm he, fun i h => h.delete i⟩

theorem Proper.applyTo (hm : m.Proper) (h : d.Proper) : (d.applyTo m).Proper := by
  intro i r hr
  rw [get?_applyTo, view] at hr
  rcases Option.or_eq_some_iff.mp hr with hr | ⟨-, hr⟩
  · exact h i r (Or.inr hr)
  rcases Option.or_eq_some_iff.mp hr with hr | ⟨-, hr⟩
  · exact h i r (Or.inl hr)
  split at hr
  · cases hr
  · exact hm i r hr

end ResourceDiff

/-- What an operation creates is proper, and what is proper stays so. -/
theorem Execution.proper_run {x : Execution} {m m' : Minter} {op : Operation} {d : ResourceDiff}
    (hm : x.resources.Proper) (h : x.run m op = (.ok d, m')) : d.Proper := by
  by_cases hop : op.tag = .create
  · obtain ⟨rs, is, -, -, hrs, hedits⟩ := makes_run h hop
    have hcreated : (rs.foldl ResourceDiff.create .empty).Proper :=
      List.foldlRecOn rs ResourceDiff.create ResourceDiff.proper_empty
        fun d hd r hr => hd.create (hrs r hr)
    exact hedits.keep (fun hf hd he => hd.edit hf.light hm he) hcreated
  · exact (kept_run (ResourceDiff.kept_proper hm) h hop).1

namespace Store

theorem proper_attempt {s : Store} (h : s.state.resources.Proper) (now : Instant)
    (op : Operation) : (s.attempt now op).state.resources.Proper := by
  obtain heq | ⟨d, state, hd, heq⟩ := s.attempt_cases now op
  · rw [heq]
    exact h
  · obtain ⟨m, hrun, rfl⟩ := applyTo_eq_ok hd
    rw [heq]
    exact (Execution.proper_run (x := ⟨s.state.resources, s.base⟩) h hrun).applyTo h

/-- The resources of a store that started empty are proper. -/
theorem proper_attemptAll {s : Store} (h : s.state.resources.Proper)
    (ops : List (Instant × Operation)) : (s.attemptAll ops).state.resources.Proper := by
  induction ops generalizing s with
  | nil => exact h
  | cons e ops ih => exact ih (proper_attempt h e.1 e.2)

/-- In a store that started empty every class names its schema. -/
theorem housed_attemptAll {s : Store} (h : s.state.resources.Proper)
    (ops : List (Instant × Operation)) : (s.attemptAll ops).state.resources.Housed := fun i r hr =>
  (proper_attemptAll h ops i r hr).housed

end Store

/-! ## Running out of identifiers -/

theorem SortedMap.size_eq_length_keys {α β : Type} [KeyOrder α] (m : SortedMap α β) :
    m.size = m.keys.length := (List.length_map _).symm

/-- An element more makes a set larger by one at most. -/
theorem SortedSet.size_add_le {α : Type} [KeyOrder α] [DecidableEq α] (s : SortedSet α) (k : α) :
    SortedMap.size (SortedSet.add s k) ≤ SortedMap.size s + 1 := by
  rw [SortedMap.size_eq_length_keys, SortedMap.size_eq_length_keys]
  have hsub : (SortedMap.keys (SortedSet.add s k)) ⊆ k :: SortedMap.keys s := by
    intro j hj
    rw [SortedMap.mem_keys_iff, SortedSet.contains_add, Bool.or_eq_true, decide_eq_true_eq] at hj
    exact List.mem_cons.mpr (hj.imp_right SortedMap.mem_keys_iff.mpr)
  exact (List.subperm_of_subset (SortedMap.nodup_keys _) hsub).length_le

namespace Minter

/-- A search that fails finds taken all numbers that it tries. -/
theorem isTaken_of_firstFree_eq_none {idOf : UInt64 → Iri} {isTaken : Iri → Bool} :
    ∀ {taken : List Iri} {n : UInt64}, firstFree idOf isTaken taken n = none →
      ∀ j ≤ taken.length, isTaken (idOf (n + UInt64.ofNat j)) = true
  | [], n, h, j, hj => by
    obtain rfl : j = 0 := Nat.le_zero.mp hj
    unfold firstFree at h
    split at h
    · simpa
    · cases h
  | _ :: taken, n, h, j, hj => by
    unfold firstFree at h
    split at h
    · rename_i htaken
      cases j with
      | zero => simpa
      | succ j =>
        have hrest := isTaken_of_firstFree_eq_none h j (Nat.le_of_succ_le_succ hj)
        rwa [UInt64.add_assoc, ← UInt64.ofNat_one, ← UInt64.ofNat_add, Nat.add_comm] at hrest
    · cases h

/-- Identifiers are found as long as there are fewer of them in use than there are numbers. -/
theorem size_le_of_mint_eq_none {m : Minter} {resources : ResourceMap} {base : String}
    {kind : Kind} (h : m.mint resources base kind = none) :
    UInt64.size ≤ resources.size + m.minted.size := by
  have hnone := isTaken_of_firstFree_eq_none (Option.map_eq_none_iff.mp h)
  rw [SortedMap.size_eq_length_keys, SortedMap.size_eq_length_keys, ← List.length_append]
  generalize hall : resources.keys ++ m.minted.keys = all at hnone ⊢
  refine Nat.le_of_not_lt fun hlt => ?_
  -- Otherwise one more identifiers are taken than are in use.
  have hnodup : ((List.range (all.length + 1)).map fun j =>
      identifier base kind (m.counters.current kind + 1 + UInt64.ofNat j)).Nodup := by
    refine List.nodup_range.map_on fun i hi j hj hij => ?_
    have hij := (UInt64.add_right_inj _).mp (identifier_injective hij).2
    have hi := List.mem_range.mp hi
    have hj := List.mem_range.mp hj
    have := congrArg UInt64.toNat hij
    rwa [UInt64.toNat_ofNat_of_lt' (by omega), UInt64.toNat_ofNat_of_lt' (by omega)] at this
  have hsub : ((List.range (all.length + 1)).map fun j =>
      identifier base kind (m.counters.current kind + 1 + UInt64.ofNat j)) ⊆ all := by
    intro i hi
    obtain ⟨j, hj, rfl⟩ := List.mem_map.mp hi
    have htaken := hnone j (Nat.le_of_lt_succ (List.mem_range.mp hj))
    rw [isTaken, Bool.or_eq_true, ← SortedMap.mem_keys_iff, ← SortedMap.mem_keys_iff,
      ← List.mem_append, hall] at htaken
    exact htaken
  have hlen := (List.subperm_of_subset hnodup hsub).length_le
  rw [List.length_map, List.length_range] at hlen
  omega

end Minter

/-! ## Preconditions -/

/-- What a resource of a kind is created in : a schema or a class of its layer. Schemas are in
nothing, and an association end is not created by itself. -/
def Kind.hostKind? : Kind → Option Kind
  | .conceptualSchema | .structuralSchema | .conceptualAssociationEnd => none
  | .conceptualClass => some .conceptualSchema
  | .structuralClass | .structuralClassReference => some .structuralSchema
  | .conceptualAssociation => some .conceptualSchema
  | .conceptualAttribute => some .conceptualClass
  | .structuralAttribute | .structuralAssociationEnd => some .structuralClass

theorem Kind.hostKind?_eq_none {k : Kind} (h : k.isSchema = true) : k.hostKind? = none := by
  cases k <;> first | rfl | cases h

/-- An attribute that a new resource may be given : it is no link of the store, but an
association is told its ends. -/
def Kind.Writable (kind : Kind) (k : AttributeKey) : Prop :=
  k.isLink = true → k = .ends ∧ kind = .conceptualAssociation

namespace ResourceMap

variable {m : ResourceMap} {i : Iri} {k : Kind} {op : Operation} {e : StoreError}

/-- A resource that is there and has a kind. -/
def IsA (m : ResourceMap) (i : Iri) (k : Kind) : Prop :=
  ∃ r, m.get? i = some r ∧ r.is k = true

/-- The owner of a new resource : a schema has none. -/
def Hosts (m : ResourceMap) (kind : Kind) : Option Iri → Prop
  | none => kind.isSchema = true
  | some owner => ∃ k, kind.hostKind? = some k ∧ m.IsA owner k

/-- Ends that name the two classes of a new association. -/
def Joins (m : ResourceMap) (attributes : Attributes) : Prop :=
  ∃ a b, attributes.get? .ends = some (.iriList [a, b]) ∧
    m.IsA a .conceptualClass ∧ m.IsA b .conceptualClass

/-- What an operation needs of the resources that it is applied to. -/
def Allows (m : ResourceMap) : Operation → Prop
  | .create kind owner attributes =>
    (∀ key v, attributes.get? key = some v → kind.Writable key ∧ key.accepts v = true) ∧
      m.Hosts kind owner ∧ (kind = .conceptualAssociation → m.Joins attributes)
  | .setAttribute target key value =>
    key.isLink = false ∧ m.contains target = true ∧
      ∀ v ∈ value, key.accepts v = true ∧
        ∀ parents, key = .parents → v = .iriList parents → target ∉ parents
  | .setOrder owner moved after =>
    ∃ r, m.get? owner = some r ∧ moved ∈ r.parts ∧ ∀ a ∈ after, a ∈ r.parts ∧ a ≠ moved
  | .delete target =>
    ∃ r, m.get? target = some r ∧ r.is .conceptualAssociationEnd = false ∧
      ∀ k, r.is k = true → k.isSchema = true ∨ k.isClass = true → r.parts = []
  | .setRoots schema roots =>
    ∃ r k, m.get? schema = some r ∧ r.is k = true ∧ k.isSchema = true ∧
      ∀ c ∈ roots, c ∈ r.parts ∧ m.IsA c k.classKind

/-- Why a resource is not one of a kind. -/
inductive NotA (m : ResourceMap) (i : Iri) (k : Kind) : StoreError → Prop
  | missing : m.get? i = none → NotA m i k (.missing i)
  | notOfKind {r : Resource} : m.get? i = some r → r.is k = false → NotA m i k (.notOfKind i k)

/-- The reasons for which an operation may be refused, each with what is wrong then. -/
inductive Refuses (m : ResourceMap) : Operation → StoreError → Prop
  /-- An attribute of a new resource is a link, -/
  | unwritable {kind : Kind} {owner : Option Iri} {attributes : Attributes} {key : AttributeKey}
      {v : AttributeValue} : attributes.get? key = some v → ¬ kind.Writable key →
      Refuses m (.create kind owner attributes) (.linkAttribute key)
  /-- or has a value of another shape. -/
  | misshapen {kind : Kind} {owner : Option Iri} {attributes : Attributes} {key : AttributeKey}
      {v : AttributeValue} : attributes.get? key = some v → key.accepts v = false →
      Refuses m (.create kind owner attributes) (.wrongShape key)
  /-- A schema is to be owned, -/
  | owned {kind : Kind} {owner : Iri} {attributes : Attributes} : kind.isSchema = true →
      Refuses m (.create kind (some owner) attributes) (.ownedSchema owner)
  /-- an association end is to be created by itself, -/
  | alone {owner : Option Iri} {attributes : Attributes} :
      Refuses m (.create .conceptualAssociationEnd owner attributes) .loneEnd
  /-- or another resource without an owner. -/
  | ownerless {kind : Kind} {attributes : Attributes} : kind.isSchema = false →
      Refuses m (.create kind none attributes) (.noOwner kind)
  /-- The owner is not what a resource of the kind is created in. -/
  | owner {kind k : Kind} {owner : Iri} {attributes : Attributes} {e : StoreError} :
      kind.hostKind? = some k → m.NotA owner k e →
      Refuses m (.create kind (some owner) attributes) e
  /-- A new association does not have two ends, -/
  | ends {owner : Option Iri} {attributes : Attributes} :
      (∀ a b, attributes.get? .ends ≠ some (.iriList [a, b])) →
      Refuses m (.create .conceptualAssociation owner attributes) .notTwoEnds
  /-- or one of them is not a class. -/
  | participant {owner : Option Iri} {attributes : Attributes} {ends : List Iri} {c : Iri}
      {e : StoreError} : attributes.get? .ends = some (.iriList ends) → c ∈ ends →
      m.NotA c .conceptualClass e → Refuses m (.create .conceptualAssociation owner attributes) e
  /-- What the operation is about is not there. -/
  | missing {op : Operation} {i : Iri} : op.tag ≠ .create → op.routingIri? = some i →
      m.get? i = none → Refuses m op (.missing i)
  /-- The attribute to set is a link, -/
  | link {target : Iri} {key : AttributeKey} {value : Option AttributeValue} :
      key.isLink = true → Refuses m (.setAttribute target key value) (.linkAttribute key)
  /-- the value has another shape, -/
  | shape {target : Iri} {key : AttributeKey} {v : AttributeValue} : key.accepts v = false →
      Refuses m (.setAttribute target key (some v)) (.wrongShape key)
  /-- or has a class extend itself. -/
  | itself {target : Iri} {parents : List Iri} : target ∈ parents →
      Refuses m (.setAttribute target .parents (some (.iriList parents))) (.selfExtension target)
  /-- What is to be moved is not a part of the owner, -/
  | unlisted {owner moved : Iri} {after : Option Iri} {r : Resource} : m.get? owner = some r →
      moved ∉ r.parts → Refuses m (.setOrder owner moved after) (.notPart moved owner)
  /-- or the anchor is not another part. -/
  | anchor {owner moved anchor : Iri} {r : Resource} : m.get? owner = some r →
      ¬ (anchor ∈ r.parts ∧ anchor ≠ moved) →
      Refuses m (.setOrder owner moved (some anchor)) (.anchorNotPart anchor owner)
  /-- Roots are given to what is not a schema, -/
  | rootless {schema : Iri} {roots : List Iri} {r : Resource} : m.get? schema = some r →
      (∀ k, r.is k = true → k.isSchema = false) →
      Refuses m (.setRoots schema roots) (.notSchema schema)
  /-- a root is not a part of the schema, -/
  | foreign {schema c : Iri} {roots : List Iri} {r : Resource} : m.get? schema = some r →
      c ∈ roots → c ∉ r.parts → Refuses m (.setRoots schema roots) (.rootNotPart c schema)
  /-- or is not a class of its layer. -/
  | root {schema c : Iri} {roots : List Iri} {k : Kind} {e : StoreError} : m.IsA schema k →
      k.isSchema = true → c ∈ roots → m.NotA c k.classKind e → Refuses m (.setRoots schema roots) e
  /-- An association end is to be deleted by itself, -/
  | endInUse {target : Iri} : m.IsA target .conceptualAssociationEnd →
      Refuses m (.delete target) (.endInUse target)
  /-- or a schema that has parts, -/
  | schemaInUse {target : Iri} {r : Resource} {k : Kind} : m.get? target = some r →
      r.is k = true → k.isSchema = true → r.parts ≠ [] →
      Refuses m (.delete target) (.schemaInUse target r.parts.length)
  /-- or a class that has parts. -/
  | classInUse {target : Iri} {r : Resource} {k : Kind} : m.get? target = some r →
      r.is k = true → k.isClass = true → r.parts ≠ [] →
      Refuses m (.delete target) (.classInUse target r.parts.length)

theorem IsA.contains (h : m.IsA i k) : m.contains i = true :=
  h.elim fun r hr => SortedMap.contains_iff.mpr ⟨r, hr.1⟩

/-- What is not of a kind is not one of it. -/
theorem NotA.not_isA (h : m.NotA i k e) : ¬ m.IsA i k := by
  rintro ⟨r, hr, hk⟩
  cases h with
  | missing hnone => simp [hnone] at hr
  | notOfKind hr' hk' =>
    obtain rfl := Option.some.inj (hr'.symm.trans hr)
    simp [hk'] at hk

/-- An operation that is allowed needs what it is about to be there. -/
theorem Allows.contains (h : m.Allows op) (hop : op.tag ≠ .create) (hi : op.routingIri? = some i) :
    m.contains i = true := by
  cases op with
  | create => exact absurd rfl hop
  | setAttribute target key value =>
    obtain rfl := Option.some.inj hi
    exact h.2.1
  | setOrder | delete =>
    obtain rfl := Option.some.inj hi
    obtain ⟨r, hr, -⟩ := h
    exact SortedMap.contains_iff.mpr ⟨r, hr⟩
  | setRoots =>
    obtain rfl := Option.some.inj hi
    obtain ⟨r, k, hr, -⟩ := h
    exact SortedMap.contains_iff.mpr ⟨r, hr⟩

/-- In linked resources each one has a kind, -/
theorem Linked.exists_kind (h : m.Linked) {r : Resource} (hr : m.get? i = some r) :
    ∃ k, r.kind? = some k ∧ r.is k = true := by
  obtain ⟨k, hk⟩ := h.kind hr
  exact ⟨k, by rw [Resource.kind?, hk, List.head?_cons], by simp [Resource.is, hk]⟩

/-- and no other one. -/
theorem Linked.is_iff (h : m.Linked) {r : Resource} (hr : m.get? i = some r) (hk : r.is k = true)
    {k' : Kind} : r.is k' = true ↔ k' = k := by
  obtain ⟨k₀, hkinds⟩ := h.kind hr
  simp only [Resource.is, hkinds, List.contains_iff_mem, List.mem_singleton] at hk ⊢
  rw [hk]

/-- There is no reason to refuse an operation that is allowed. -/
theorem not_allows_of_refuses (hl : m.Linked) (h : m.Refuses op e) : ¬ m.Allows op := by
  intro ha
  cases h with
  | unwritable hv hw => exact hw (ha.1 _ _ hv).1
  | misshapen hv hs => simp [(ha.1 _ _ hv).2] at hs
  | owned hk =>
    obtain ⟨k, hhost, -⟩ := ha.2.1
    cases (Kind.hostKind?_eq_none hk).symm.trans hhost
  | @alone owner =>
    cases owner with
    | none => exact absurd ha.2.1 Bool.false_ne_true
    | some owner =>
      obtain ⟨k, hhost, -⟩ := ha.2.1
      cases hhost
  | ownerless hk => exact absurd (hk.symm.trans ha.2.1) Bool.false_ne_true
  | owner hhost hn =>
    obtain ⟨k, hhost', ho⟩ := ha.2.1
    obtain rfl := Option.some.inj (hhost.symm.trans hhost')
    exact hn.not_isA ho
  | ends hn =>
    obtain ⟨a, b, hends, -⟩ := ha.2.2 rfl
    exact hn a b hends
  | participant hends hc hn =>
    obtain ⟨a, b, hends', ha, hb⟩ := ha.2.2 rfl
    obtain rfl := AttributeValue.iriList.inj (Option.some.inj (hends.symm.trans hends'))
    rcases List.mem_pair.mp hc with rfl | rfl
    · exact hn.not_isA ha
    · exact hn.not_isA hb
  | missing hop hi hn =>
    have hc := ha.contains hop hi
    rw [SortedMap.contains_eq_false_iff.mpr hn] at hc
    exact Bool.false_ne_true hc
  | link hk => exact absurd (ha.1.symm.trans hk) Bool.false_ne_true
  | shape hs => exact absurd (hs.symm.trans (ha.2.2 _ rfl).1) Bool.false_ne_true
  | itself hp => exact (ha.2.2 _ rfl).2 _ rfl rfl hp
  | unlisted hr hm =>
    obtain ⟨r, hr', hm', -⟩ := ha
    obtain rfl := Option.some.inj (hr.symm.trans hr')
    exact hm hm'
  | anchor hr hm =>
    obtain ⟨r, hr', -, hm'⟩ := ha
    obtain rfl := Option.some.inj (hr.symm.trans hr')
    exact hm (hm' _ rfl)
  | rootless hr hk =>
    obtain ⟨r, k, hr', hk', hs, -⟩ := ha
    obtain rfl := Option.some.inj (hr.symm.trans hr')
    exact absurd ((hk k hk').symm.trans hs) Bool.false_ne_true
  | foreign hr hc hp =>
    obtain ⟨r, k, hr', -, -, hroots⟩ := ha
    obtain rfl := Option.some.inj (hr.symm.trans hr')
    exact hp (hroots _ hc).1
  | root hk hs hc hn =>
    obtain ⟨r, hr, hk⟩ := hk
    obtain ⟨r', k', hr', hk', -, hroots⟩ := ha
    obtain rfl := Option.some.inj (hr.symm.trans hr')
    obtain rfl := (hl.is_iff hr hk).mp hk'
    exact hn.not_isA (hroots _ hc).2
  | endInUse hk =>
    obtain ⟨r, hr, hk⟩ := hk
    obtain ⟨r', hr', hk', -⟩ := ha
    obtain rfl := Option.some.inj (hr.symm.trans hr')
    exact absurd (hk'.symm.trans hk) Bool.false_ne_true
  | schemaInUse hr hk hs hp =>
    obtain ⟨r', hr', -, hempty⟩ := ha
    obtain rfl := Option.some.inj (hr.symm.trans hr')
    exact hp (hempty _ hk (Or.inl hs))
  | classInUse hr hk hc hp =>
    obtain ⟨r', hr', -, hempty⟩ := ha
    obtain rfl := Option.some.inj (hr.symm.trans hr')
    exact hp (hempty _ hk (Or.inr hc))

end ResourceMap

/-! ## What each operation checks -/

/-- No identifier is left, of nearly 2^64. -/
def ResourceMap.Exhausted (m : ResourceMap) (e : StoreError) : Prop :=
  (∃ kind, e = .noNumber kind) ∧ UInt64.size ≤ m.size + 2

/-- Running out of identifiers is none of the reasons. -/
theorem ResourceMap.not_refuses_noNumber {m : ResourceMap} {op : Operation} {kind : Kind} :
    ¬ m.Refuses op (.noNumber kind) := by
  intro h
  cases h with
  | owner _ hn | participant _ _ hn | root _ _ _ hn => cases hn

/-- Editing fails only when the resource is not there, or goes. -/
theorem ResourceDiff.exists_edit {d : ResourceDiff} {m : ResourceMap} {i : Iri}
    (hd : d.deleted.contains i = false) (hm : m.contains i = true) (f : Resource → Resource) :
    ∃ d', d.edit m i f = .ok d' ∧ d'.deleted = d.deleted := by
  obtain ⟨r, hr⟩ := SortedMap.contains_iff.mp hm
  unfold edit
  rw [hd, if_neg Bool.false_ne_true, hr]
  split
  · exact ⟨_, rfl, rfl⟩
  · split <;> exact ⟨_, rfl, rfl⟩

namespace Execution

open ResourceMap

variable {x : Execution} {m : Minter} {i target : Iri} {kind : Kind} {attributes : Attributes}

section

variable {A : Prop} {P : StoreError → Prop}

/-- What goes on with a resource that has to be there. -/
theorem settles_require_bind {α : Type} {f : Resource → Except StoreError α}
    (hmissing : x.resources.get? i = none → P (.missing i))
    (hf : ∀ r, x.resources.get? i = some r → (f r).Settles A P) :
    ((x.require i).bind f).Settles A P := by
  unfold require
  cases hr : x.resources.get? i with
  | none => exact hmissing hr
  | some r => exact hf r hr

theorem settles_change (h : x.resources.contains i = true) (f : Resource → Resource) (hA : A) :
    (x.change i f).Settles A P := by
  obtain ⟨d, hd, -⟩ := ResourceDiff.exists_edit (d := .empty) rfl h f
  rw [change, hd]
  exact hA

end

theorem settles_requireKind (hl : x.resources.Linked) (i : Iri) (kind : Kind) :
    (x.requireKind i kind).Settles (x.resources.IsA i kind) (x.resources.NotA i kind) := by
  refine settles_require_bind .missing fun r hr => ?_
  unfold Resource.require
  split
  · exact ⟨r, hr, ‹_›⟩
  · rw [hl.key hr]
    exact .notOfKind hr (Bool.eq_false_iff.mpr ‹_›)

/-- Minting fails only where no identifier is left. -/
theorem settles_mint (hm : m.minted.size ≤ 2) (kind : Kind) :
    (x.mint m kind).Settles True x.resources.Exhausted := by
  unfold mint
  split
  · trivial
  · rename_i hnone
    exact ⟨⟨kind, rfl⟩,
      Nat.le_trans (Minter.size_le_of_mint_eq_none hnone) (Nat.add_le_add_left hm _)⟩

/-! ### Attributes -/

theorem extendsItself_iff {key : AttributeKey} {v : AttributeValue} :
    extendsItself target key v = true ↔
      ∃ parents, key = .parents ∧ v = .iriList parents ∧ target ∈ parents := by
  cases v <;> simp [extendsItself]

theorem settles_setAttribute (x : Execution) (target : Iri) (key : AttributeKey)
    (value : Option AttributeValue) :
    (x.setAttribute target key value).Settles
      (x.resources.Allows (.setAttribute target key value))
      (x.resources.Refuses (.setAttribute target key value)) := by
  unfold setAttribute
  split
  · exact .link ‹_›
  rename_i hlink
  have hlink : key.isLink = false := Bool.eq_false_iff.mpr hlink
  refine settles_require_bind (.missing nofun rfl) fun r hr => ?_
  have hthere : x.resources.contains target = true := SortedMap.contains_iff.mpr ⟨r, hr⟩
  cases value with
  | none => exact settles_change hthere _ ⟨hlink, hthere, nofun⟩
  | some v =>
    simp only
    split
    · rename_i hshape
      exact .shape (by simpa using hshape)
    rename_i hshape
    split
    · rename_i hself
      obtain ⟨parents, rfl, rfl, hp⟩ := extendsItself_iff.mp hself
      exact .itself hp
    · rename_i hself
      refine settles_change hthere _ ⟨hlink, hthere, ?_⟩
      rintro _ ⟨rfl⟩
      exact ⟨by simpa using hshape, fun parents hkey hv hp =>
        hself (extendsItself_iff.mpr ⟨parents, hkey, hv, hp⟩)⟩

/-! ### Order and roots -/

/-- There is a new order if the anchor is another element. -/
theorem reorder_eq_none_iff {parts : List Iri} {moved : Iri} {after : Option Iri} :
    reorder parts moved after = none ↔ ∃ a, after = some a ∧ ¬ (a ∈ parts ∧ a ≠ moved) := by
  cases after with
  | none => simp [reorder]
  | some a =>
    have hother : (parts.filter (· ≠ moved)).contains a = true ↔ a ∈ parts ∧ a ≠ moved := by
      rw [List.contains_iff_mem, List.mem_filter, decide_eq_true_eq]
    have hanchor : (∃ b, some a = some b ∧ ¬ (b ∈ parts ∧ b ≠ moved)) ↔
        ¬ (a ∈ parts ∧ a ≠ moved) := by simp
    rw [hanchor, ← hother]
    unfold reorder
    simp only
    split
    · exact iff_of_false nofun (not_not_intro ‹_›)
    · exact iff_of_true rfl ‹_›

theorem settles_setOrder (x : Execution) (owner moved : Iri) (after : Option Iri) :
    (x.setOrder owner moved after).Settles (x.resources.Allows (.setOrder owner moved after))
      (x.resources.Refuses (.setOrder owner moved after)) := by
  refine settles_require_bind (.missing nofun rfl) fun r hr => ?_
  split
  · rename_i hmoved
    exact .unlisted hr (by simpa using hmoved)
  rename_i hmoved
  split
  · rename_i parts hparts
    refine settles_change (SortedMap.contains_iff.mpr ⟨r, hr⟩) _
      ⟨r, hr, by simpa using hmoved, fun a ha => ?_⟩
    by_contra hanchor
    cases hparts.symm.trans (reorder_eq_none_iff.mpr ⟨a, ha, hanchor⟩)
  · rename_i hparts
    obtain ⟨a, rfl, hanchor⟩ := reorder_eq_none_iff.mp hparts
    exact .anchor hr hanchor

/-- A root without a fault is a part of the schema and a class. -/
theorem rootFault?_eq_none (hl : x.resources.Linked) {schema : Resource} {root : Iri}
    (h : x.rootFault? schema i kind root = none) :
    root ∈ schema.parts ∧ x.resources.IsA root kind.classKind := by
  have hclass := settles_requireKind hl root kind.classKind
  unfold rootFault? at h
  split at h
  · cases h
  rename_i hpart
  split at h
  · rename_i r hr
    exact ⟨by simpa using hpart, hclass.of_ok hr⟩
  · cases h

theorem rootFault?_eq_some (hl : x.resources.Linked) {schema : Resource} {root : Iri}
    {e : StoreError} (h : x.rootFault? schema i kind root = some e) :
    e = .rootNotPart root i ∧ root ∉ schema.parts ∨ x.resources.NotA root kind.classKind e := by
  have hclass := settles_requireKind hl root kind.classKind
  unfold rootFault? at h
  split at h
  · rename_i hpart
    exact Or.inl ⟨(Option.some.inj h).symm, by simpa using hpart⟩
  split at h
  · cases h
  · rename_i e' he
    exact Or.inr (Option.some.inj h ▸ hclass.of_error he)

theorem settles_setRoots (hl : x.resources.Linked) (schema : Iri) (roots : List Iri) :
    (x.setRoots schema roots).Settles (x.resources.Allows (.setRoots schema roots))
      (x.resources.Refuses (.setRoots schema roots)) := by
  refine settles_require_bind (.missing nofun rfl) fun r hr => ?_
  obtain ⟨k, hkind, hk⟩ := hl.exists_kind hr
  rw [hkind]
  cases hs : k.isSchema with
  | false =>
    rw [Option.filter_some, if_neg (Bool.eq_false_iff.mp hs)]
    exact .rootless hr fun k' hk' => (hl.is_iff hr hk).mp hk' ▸ hs
  | true =>
    rw [Option.filter_some, if_pos hs]
    simp only
    split
    · rename_i e he
      obtain ⟨c, hc, he⟩ := List.exists_of_findSome?_eq_some he
      obtain ⟨rfl, hp⟩ | hn := rootFault?_eq_some hl he
      · exact .foreign hr hc hp
      · exact .root ⟨r, hr, hk⟩ hs hc hn
    · rename_i hnone
      refine settles_change (SortedMap.contains_iff.mpr ⟨r, hr⟩) _
        ⟨r, k, hr, hk, hs, fun c hc => ?_⟩
      exact rootFault?_eq_none hl (List.findSome?_eq_none_iff.mp hnone c hc)

/-! ### Deletion -/

/-- Taking a resource out of the lists of its holders does not fail. -/
theorem exists_detachFrom (x : Execution) (d : ResourceDiff) (i : Iri) (holder : Option Iri) :
    ∃ d', x.detachFrom d i holder = .ok d' := by
  unfold detachFrom
  split
  · exact ⟨d, rfl⟩
  split
  · exact ⟨d, rfl⟩
  · rename_i hthere
    simp only [Bool.or_eq_true, Bool.not_eq_true', not_or, Bool.not_eq_false,
      Bool.not_eq_true] at hthere
    obtain ⟨d', hd, -⟩ := ResourceDiff.exists_edit hthere.2 hthere.1 _
    exact ⟨d', hd⟩

theorem exists_detach (x : Execution) (d : ResourceDiff) (r : Resource) :
    ∃ d', x.detach d r = .ok d' := by
  obtain ⟨d₁, h₁⟩ := x.exists_detachFrom d r.iri (r.iri? .owner)
  obtain ⟨d₂, h₂⟩ := x.exists_detachFrom d₁ r.iri (r.iri? .schema)
  exact ⟨d₂, Except.bind_eq_ok.mpr ⟨d₁, h₁, h₂⟩⟩

theorem exists_deleteEnd (x : Execution) (d : ResourceDiff) (i : Iri) :
    ∃ d', x.deleteEnd d i = .ok d' := by
  unfold deleteEnd
  split
  · rename_i r _
    obtain ⟨d', hd⟩ := x.exists_detach d r
    exact ⟨_, Except.bind_eq_ok.mpr ⟨d', hd, rfl⟩⟩
  · exact ⟨_, rfl⟩

/-- What is deleted is released by its holders, unless it is an end, or still holds something. -/
theorem settles_release {r : Resource} (hl : x.resources.Linked)
    (hr : x.resources.get? target = some r) (hk : r.is kind = true) :
    (x.release target r kind).Settles (x.resources.Allows (.delete target))
      (x.resources.Refuses (.delete target)) := by
  have hallow : kind ≠ .conceptualAssociationEnd →
      (kind.isSchema = true ∨ kind.isClass = true → r.parts = []) →
      x.resources.Allows (.delete target) := fun hend hempty =>
    ⟨r, hr, Bool.eq_false_iff.mpr fun h => hend ((hl.is_iff hr hk).mp h).symm,
      fun k hk' hrole => hempty ((hl.is_iff hr hk).mp hk' ▸ hrole)⟩
  have hdetach : ∀ d, x.resources.Allows (.delete target) → (x.detach d r).Settles
      (x.resources.Allows (.delete target)) (x.resources.Refuses (.delete target)) := by
    intro d ha
    obtain ⟨d', hd⟩ := x.exists_detach d r
    rw [hd]
    exact ha
  unfold release
  rw [hl.key hr]
  split
  case h_1 | h_2 =>
    split
    · exact hallow nofun fun _ => List.isEmpty_iff.mp ‹_›
    · exact .schemaInUse hr hk rfl fun hp => ‹¬ _› (List.isEmpty_iff.mpr hp)
  case h_3 | h_4 =>
    split
    · exact hdetach _ (hallow nofun fun _ => List.isEmpty_iff.mp ‹_›)
    · exact .classInUse hr hk rfl fun hp => ‹¬ _› (List.isEmpty_iff.mpr hp)
  case h_5 =>
    obtain ⟨d, hd⟩ := Except.exists_foldlM_eq_ok x.exists_deleteEnd r.parts ResourceDiff.empty
    rw [hd]
    exact hdetach d (hallow nofun nofun)
  case h_6 | h_7 | h_8 | h_9 => exact hdetach _ (hallow nofun nofun)
  case h_10 => exact .endInUse ⟨r, hr, hk⟩

theorem settles_delete (hl : x.resources.Linked) (target : Iri) :
    (x.delete target).Settles (x.resources.Allows (.delete target))
      (x.resources.Refuses (.delete target)) := by
  refine settles_require_bind (.missing nofun rfl) fun r hr => ?_
  obtain ⟨k, hkind, hk⟩ := hl.exists_kind hr
  rw [hkind]
  exact (settles_release hl hr hk).map (·.delete target)

/-! ### Creation -/

/-- A computation that fails for the reasons in `R` unless `A` holds, and then for want of an
identifier at most. -/
def Obeys (x : Execution) (A : Prop) (R : StoreError → Prop) {α : Type}
    (y : Except StoreError α) : Prop :=
  y.Settles A fun e => R e ∨ A ∧ x.resources.Exhausted e

theorem attributeFault?_eq_none {key : AttributeKey} {v : AttributeValue}
    (h : attributeFault? kind key v = none) : kind.Writable key ∧ key.accepts v = true := by
  unfold attributeFault? at h
  split at h
  · cases h
  rename_i hlink
  split at h
  · cases h
  rename_i hshape
  refine ⟨fun hkey => ?_, by simpa using hshape⟩
  simpa [hkey] using hlink

theorem attributeFault?_eq_some {key : AttributeKey} {v : AttributeValue} {e : StoreError}
    (h : attributeFault? kind key v = some e) :
    e = .linkAttribute key ∧ ¬ kind.Writable key ∨ e = .wrongShape key ∧ key.accepts v = false := by
  unfold attributeFault? at h
  split at h
  · rename_i hlink
    refine Or.inl ⟨(Option.some.inj h).symm, fun hw => ?_⟩
    simp only [Bool.and_eq_true, Bool.not_eq_true', Bool.and_eq_false_imp, beq_iff_eq,
      beq_eq_false_iff_ne] at hlink
    obtain ⟨hkey, hkind⟩ := hw hlink.1
    exact hlink.2 hkey hkind
  split at h
  · rename_i hshape
    exact Or.inr ⟨(Option.some.inj h).symm, by simpa using hshape⟩
  · cases h

/-- What holds a new resource can be given it. -/
theorem obeys_edit {A : Prop} {R : StoreError → Prop} {d : ResourceDiff} {f : Resource → Resource}
    (hA : A) (hi : x.resources.contains i = true) (hd : d.deleted.contains i = false) :
    x.Obeys A R (d.edit x.resources i f) := by
  obtain ⟨d', hd', -⟩ := ResourceDiff.exists_edit hd hi f
  rw [hd']
  exact hA

theorem obeys_createSchema {R : StoreError → Prop} (hm : m.minted.size ≤ 2) :
    x.Obeys True R (x.createSchema m kind attributes).1 := by
  have hmint := settles_mint (x := x) hm kind
  unfold createSchema
  split
  · exact Or.inr ⟨trivial, hmint.of_error ‹_›⟩
  · trivial

theorem obeys_createInSchema {schema : Iri} (hl : x.resources.Linked) (hm : m.minted.size ≤ 2) :
    x.Obeys (x.resources.IsA schema kind.schemaKind) (x.resources.NotA schema kind.schemaKind)
      (x.createInSchema m kind schema attributes).1 := by
  have hschema := settles_requireKind hl schema kind.schemaKind
  have hmint := settles_mint (x := x) hm kind
  unfold createInSchema
  split
  · exact Or.inl (hschema.of_error ‹_›)
  have hschema := hschema.of_ok ‹_›
  split
  · exact Or.inr ⟨hschema, hmint.of_error ‹_›⟩
  · dsimp only
    exact obeys_edit hschema hschema.contains rfl

/-- A class names a schema that is there. -/
theorem settles_schemaOfOwner (hl : x.resources.Linked) (hh : x.resources.Housed) (kind : Kind)
    (owner : Iri) :
    (x.schemaOfOwner kind owner).Settles (x.resources.IsA owner kind.classKind)
      (x.resources.NotA owner kind.classKind) := by
  have hclass := settles_requireKind hl owner kind.classKind
  refine hclass.bind fun r hr => ?_
  obtain ⟨hr, hk⟩ := requireKind_eq_ok hr
  obtain ⟨k, hkinds⟩ := hl.kind hr
  obtain rfl : kind.classKind = k := by simpa [hkinds] using hk
  have htier : r.links.tier < 2 := by
    rw [Links.tier_of_kinds hkinds, kind.tier_classKind]
    exact Nat.one_lt_two
  obtain ⟨schema, hs⟩ := hh owner r hr htier
  have hs : r.iri? .schema = some schema := hs
  rw [hs]
  exact hclass.of_ok ‹_›

theorem contains_of_schemaOfOwner (hl : x.resources.Linked) {owner schema : Iri}
    (h : x.schemaOfOwner kind owner = .ok schema) : x.resources.contains schema = true := by
  obtain ⟨r, hr, h⟩ := Except.bind_eq_ok.mp h
  split at h
  · rename_i s hs
    obtain rfl := Except.ok.inj h
    obtain ⟨q, hq, -⟩ := hl.schema (requireKind_eq_ok hr).1 hs
    exact SortedMap.contains_iff.mpr ⟨q, hq⟩
  · cases h

theorem obeys_createInClass {owner : Iri} (hl : x.resources.Linked) (hh : x.resources.Housed)
    (hm : m.minted.size ≤ 2) :
    x.Obeys (x.resources.IsA owner kind.classKind) (x.resources.NotA owner kind.classKind)
      (x.createInClass m kind owner attributes).1 := by
  have hclass := settles_schemaOfOwner hl hh kind owner
  have hmint := settles_mint (x := x) hm kind
  unfold createInClass
  split
  · exact Or.inl (hclass.of_error ‹_›)
  rename_i schema hschema
  have hclass := hclass.of_ok hschema
  split
  · exact Or.inr ⟨hclass, hmint.of_error ‹_›⟩
  rename_i iri m' _
  obtain ⟨d, hd, hdel⟩ := ResourceDiff.exists_edit
    (d := ResourceDiff.empty.create (classPart iri kind owner schema attributes)) rfl
    hclass.contains fun c => c.addPart iri
  simp only [hd]
  exact obeys_edit hclass (contains_of_schemaOfOwner hl hschema) (hdel ▸ rfl)

theorem settles_participants (hl : x.resources.Linked) (owner : Option Iri) :
    (x.participants attributes).Settles (x.resources.Joins attributes)
      (x.resources.Refuses (.create .conceptualAssociation owner attributes)) := by
  unfold participants
  split
  · rename_i a b hends
    have hclass : ∀ c ∈ [a, b], (x.requireKind c .conceptualClass).Settles
        (x.resources.IsA c .conceptualClass)
        (x.resources.Refuses (.create .conceptualAssociation owner attributes)) := fun c hc =>
      (settles_requireKind hl c .conceptualClass).imp id fun e he => .participant hends hc he
    have ha := hclass a List.mem_cons_self
    have hb := hclass b (List.mem_cons_of_mem _ List.mem_cons_self)
    refine ha.bind fun p hp => hb.bind fun q hq => ?_
    exact ⟨a, b, hends, ha.of_ok hp, hb.of_ok hq⟩
  · rename_i hends
    exact .ends hends

/-- The three identifiers of an association are minted one after the other. -/
theorem settles_mintAssociation (hm : m.minted = .empty) :
    (x.mintAssociation m).Settles True x.resources.Exhausted := by
  have hgrow : ∀ {m m' : Minter} {kind iri}, x.mint m kind = .ok (iri, m') →
      m'.minted.size ≤ m.minted.size + 1 := fun h => by
    rw [(mint_eq_ok h).2.2]
    exact SortedSet.size_add_le _ _
  have h₀ : m.minted.size = 0 := by
    rw [hm]
    rfl
  refine (settles_mint (by omega) _).bind fun (a, m₁) h₁ => ?_
  refine (settles_mint (by have := hgrow h₁; omega) _).bind fun (b, m₂) h₂ => ?_
  exact (settles_mint (by have := hgrow h₁; have := hgrow h₂; omega) _).map _

theorem obeys_createAssociation {schema : Iri} (hl : x.resources.Linked) (hm : m.minted = .empty) :
    x.Obeys (x.resources.IsA schema .conceptualSchema ∧ x.resources.Joins attributes)
      (x.resources.Refuses (.create .conceptualAssociation (some schema) attributes))
      (x.createAssociation m schema attributes).1 := by
  have hschema := (settles_requireKind hl schema .conceptualSchema).imp id
    (Q := x.resources.Refuses (.create .conceptualAssociation (some schema) attributes))
    fun e he => .owner rfl he
  have hchecks := hschema.bind (f := fun _ => x.participants attributes) fun r hr =>
    (settles_participants hl (some schema)).imp (fun h => And.intro (hschema.of_ok hr) h)
      fun _ => id
  have hmint := settles_mintAssociation (x := x) hm
  unfold createAssociation
  split
  · exact Or.inl (hchecks.of_error ‹_›)
  have hchecks := hchecks.of_ok ‹_›
  split
  · exact Or.inr ⟨hchecks, hmint.of_error ‹_›⟩
  · dsimp only
    exact obeys_edit hchecks hchecks.1.contains rfl

theorem obeys_create {owner : Option Iri} (hl : x.resources.Linked) (hh : x.resources.Housed)
    (hm : m.minted = .empty) :
    x.Obeys (x.resources.Allows (.create kind owner attributes))
      (x.resources.Refuses (.create kind owner attributes))
      (x.create m kind owner attributes).1 := by
  have hsize : m.minted.size ≤ 2 := by
    rw [hm]
    exact Nat.zero_le 2
  unfold create
  split
  · rename_i e he
    obtain ⟨⟨key, v⟩, hv, he⟩ := List.exists_of_findSome?_eq_some he
    have hv := SortedMap.mem_toList_iff.mp hv
    obtain ⟨rfl, hw⟩ | ⟨rfl, hs⟩ := attributeFault?_eq_some he
    · exact Or.inl (.unwritable hv hw)
    · exact Or.inl (.misshapen hv hs)
  rename_i hfault
  have hattributes : ∀ key v, attributes.get? key = some v →
      kind.Writable key ∧ key.accepts v = true := fun key v hv =>
    attributeFault?_eq_none
      (List.findSome?_eq_none_iff.mp hfault (key, v) (SortedMap.mem_toList_iff.mpr hv))
  -- What has an owner obeys the rule for its kind.
  have howned : ∀ {k : Kind} {o : Iri} {y : Except StoreError ResourceDiff},
      kind.hostKind? = some k → kind ≠ .conceptualAssociation → owner = some o →
      x.Obeys (x.resources.IsA o k) (x.resources.NotA o k) y →
      x.Obeys (x.resources.Allows (.create kind owner attributes))
        (x.resources.Refuses (.create kind owner attributes)) y := by
    rintro k o y hhost hkind rfl hy
    have hallow : x.resources.IsA o k → x.resources.Allows (.create kind (some o) attributes) :=
      fun h => ⟨hattributes, ⟨k, hhost, h⟩, fun h => absurd h hkind⟩
    exact Except.Settles.imp hy hallow fun e he =>
      he.imp (fun h => .owner hhost h) (And.imp_left hallow)
  split
  case h_1 | h_2 =>
    exact Except.Settles.imp (obeys_createSchema hsize) (fun _ => ⟨hattributes, rfl, nofun⟩)
      fun e he => he.imp id (And.imp_left fun _ => ⟨hattributes, rfl, nofun⟩)
  case h_3 | h_4 => exact Or.inl (.owned rfl)
  case h_5 => exact Or.inl .alone
  case h_6 =>
    refine Or.inl (.ownerless ?_)
    cases kind <;> first | rfl | exact False.elim (‹_ = _ → False› rfl)
  case h_7 | h_8 | h_9 => exact howned rfl nofun rfl (obeys_createInSchema hl hsize)
  case h_10 | h_11 | h_12 => exact howned rfl nofun rfl (obeys_createInClass hl hh hsize)
  case h_13 =>
    have hallow : ∀ {schema : Iri}, x.resources.IsA schema .conceptualSchema ∧
        x.resources.Joins attributes →
        x.resources.Allows (.create .conceptualAssociation (some schema) attributes) := fun h =>
      ⟨hattributes, ⟨_, rfl, h.1⟩, fun _ => h.2⟩
    exact Except.Settles.imp (obeys_createAssociation hl hm) hallow fun e he =>
      he.imp id (And.imp_left hallow)

/-- Every operation obeys its precondition : it succeeds only if that holds, and fails only for
one of the reasons, or because no identifier is left. -/
theorem obeys_run (hl : x.resources.Linked) (hh : x.resources.Housed) (hm : m.minted = .empty)
    (op : Operation) :
    x.Obeys (x.resources.Allows op) (x.resources.Refuses op) (x.run m op).1 := by
  cases op with
  | create kind owner attributes => exact obeys_create hl hh hm
  | setAttribute target key value =>
    exact (x.settles_setAttribute target key value).imp id fun _ => Or.inl
  | setOrder owner moved after =>
    exact (x.settles_setOrder owner moved after).imp id fun _ => Or.inl
  | delete target => exact (settles_delete hl target).imp id fun _ => Or.inl
  | setRoots schema roots => exact (settles_setRoots hl schema roots).imp id fun _ => Or.inl

end Execution

/-! ## Stores -/

namespace Store

@[simp]
theorem supported_attempt (s : Store) (now : Instant) (op : Operation) :
    (s.attempt now op).supported = s.supported := by
  obtain h | ⟨d, state, -, h⟩ := s.attempt_cases now op <;> rw [h]
  rfl

theorem supported_attemptAll (s : Store) (ops : List (Instant × Operation)) :
    (s.attemptAll ops).supported = s.supported := by
  induction ops generalizing s with
  | nil => rfl
  | cons e ops ih => exact (ih (s.attempt e.1 e.2)).trans (s.supported_attempt e.1 e.2)

/-- A store that carries out an operation commits what the operation does, for that is always
disjoint. -/
theorem settles_apply {s : Store} (w : s.state.resources.network.Woven)
    (hh : s.state.resources.Housed) (hs : ∀ t, s.supported.contains t = true) (now : Instant)
    (op : Operation) :
    (s.apply now op).Settles (s.state.resources.Allows op) fun e =>
      s.state.resources.Refuses op e ∨
        s.state.resources.Allows op ∧ s.state.resources.Exhausted e := by
  have hrun := Execution.obeys_run (x := ⟨s.state.resources, s.base⟩)
    (m := ⟨s.state.counters, .empty⟩) (ResourceMap.linked_of_woven w) hh rfl op
  unfold apply applyTo execute
  rw [if_pos (hs op.tag)]
  refine Except.Settles.map ?_ _
  split
  · rename_i e m he
    rw [he] at hrun
    exact hrun
  · rename_i d m hd
    have htidy := (Execution.sound_run (x := ⟨s.state.resources, s.base⟩) w hd).tidy
    rw [if_pos htidy.isDisjoint]
    rw [hd] at hrun
    exact hrun

/-- In a store that started empty, whatever it was asked for before, an operation is carried out
exactly if its precondition holds, and fails only for reasons that apply to it. The one way out
is that no identifier is left, with nearly as many resources there as there are numbers. -/
theorem apply_attemptAll (base : String) (ops : List (Instant × Operation)) (now : Instant)
    (op : Operation) :
    let s := (new base).attemptAll ops
    let m := s.state.resources
    (m.Allows op ↔
        (∃ r, s.apply now op = .ok r) ∨ ∃ e, s.apply now op = .error e ∧ m.Exhausted e) ∧
      ∀ e, s.apply now op = .error e → m.Refuses op e ∨ m.Exhausted e := by
  intro s m
  have w : s.state.resources.network.Woven :=
    woven_attemptAll (s := new base) Network.woven_none ops
  have hh : s.state.resources.Housed := housed_attemptAll (s := new base) nofun ops
  have hs : ∀ t, s.supported.contains t = true := fun t => by
    rw [supported_attemptAll]
    cases t <;> rfl
  have hsettles := settles_apply w hh hs now op
  constructor
  · constructor
    · intro ha
      cases h : s.apply now op with
      | ok r => exact Or.inl ⟨r, rfl⟩
      | error e =>
        obtain hr | ⟨-, he⟩ := hsettles.of_error h
        · exact absurd ha (ResourceMap.not_allows_of_refuses (ResourceMap.linked_of_woven w) hr)
        · exact Or.inr ⟨e, rfl, he⟩
    · rintro (⟨r, hr⟩ | ⟨e, he, hex⟩)
      · exact hsettles.of_ok hr
      · obtain hr | ⟨ha, -⟩ := hsettles.of_error he
        · obtain ⟨⟨kind, rfl⟩, -⟩ := hex
          exact absurd hr ResourceMap.not_refuses_noNumber
        · exact ha
  · exact fun e he => (hsettles.of_error he).imp id And.right

/-- Another class may be created in the schema of the second one, and is. The schema may not be
deleted, for it is in use. -/
theorem apply_attemptAll_twoClasses :
    let s := (new "b").attemptAll twoClasses
    let m := s.state.resources
    let create := Operation.create .structuralClass (some "b/psm-schema/1") .empty
    let delete := Operation.delete "b/psm-schema/1"
    m.Allows create ∧
      (∃ r, s.apply .epoch create = .ok r ∧ r.1.created.keys = ["b/psm-class/3"] ∧
        r.1.changed.keys = ["b/psm-schema/1"]) ∧
      ¬ m.Allows delete ∧ ∃ e, s.apply .epoch delete = .error e ∧ m.Refuses delete e := by
  intro s m create delete
  obtain ⟨hcreate, -⟩ := apply_attemptAll "b" twoClasses .epoch create
  obtain ⟨hdelete, hrefused⟩ := apply_attemptAll "b" twoClasses .epoch delete
  have hcreated : (s.apply .epoch create).map (fun r => (r.1.created.keys, r.1.changed.keys)) =
      .ok (["b/psm-class/3"], ["b/psm-schema/1"]) := by decide +kernel
  obtain ⟨r, hr, hkeys⟩ := Except.map_eq_ok.mp hcreated
  obtain ⟨hnew, hschema⟩ := Prod.mk.inj hkeys
  have hkept : (s.apply .epoch delete).map (fun _ => ()) =
      .error (.schemaInUse "b/psm-schema/1" 1) := by decide +kernel
  have hkept := Except.map_eq_error.mp hkept
  have hreason : m.Refuses delete (.schemaInUse "b/psm-schema/1" 1) := by
    obtain hr | ⟨⟨_, hnone⟩, -⟩ := hrefused _ hkept
    · exact hr
    · cases hnone
  refine ⟨hcreate.mpr (Or.inl ⟨r, hr⟩), ⟨r, hr, hnew, hschema⟩, fun ha => ?_, _, hkept, hreason⟩
  obtain ⟨r, hr⟩ | ⟨e, he, ⟨_, rfl⟩, -⟩ := hdelete.mp ha
  · cases hkept.symm.trans hr
  · cases hkept.symm.trans he

end Store

end DataSpec
