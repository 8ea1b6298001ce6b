import DataSpec.SortedMap
import Mathlib.Data.List.Forall2
import Mathlib.Data.List.Nodup

/-!
# The view of maps that are made of others

What `get?` answers on maps that are made by several insertions or erasures, from a list,
or by changing every value. With `SortedMap.get?_insert` and `SortedMap.get?_erase` this
is all that proofs about stores and models need to know about the representation.
-/

set_option autoImplicit false
set_option linter.unusedSectionVars false

namespace DataSpec.SortedMap

universe u

variable {α : Type} {β γ : Type u} [KeyOrder α] [DecidableEq α]

/-! ## Keys -/

theorem contains_iff {m : SortedMap α β} {k : α} :
    m.contains k = true ↔ ∃ v, m.get? k = some v :=
  Option.isSome_iff_exists

theorem contains_eq_false_iff {m : SortedMap α β} {k : α} :
    m.contains k = false ↔ m.get? k = none :=
  Option.isSome_eq_false_iff.trans Option.isNone_iff_eq_none

theorem mem_keys_iff {m : SortedMap α β} {k : α} : k ∈ m.keys ↔ m.contains k = true := by
  rw [contains_iff]
  constructor
  · intro h
    obtain ⟨⟨k', v⟩, he, rfl⟩ := List.mem_map.mp h
    exact ⟨v, mem_toList_iff.mp he⟩
  · rintro ⟨v, hv⟩
    exact mem_keys_of_get? hv

/-- The keys of a map are sorted. -/
theorem pairwise_keys (m : SortedMap α β) : m.keys.Pairwise fun k k' => k < k' :=
  List.pairwise_map.mpr m.sorted

/-- No key comes twice. -/
theorem nodup_keys (m : SortedMap α β) : m.keys.Nodup := by
  refine List.pairwise_map.mpr (m.sorted.imp fun {a b} h heq => ?_)
  rw [heq] at h
  exact KeyOrder.lt_irrefl b.1 h

/-- A value is there under some key. -/
theorem mem_values_iff {m : SortedMap α β} {v : β} : v ∈ m.values ↔ ∃ k, m.get? k = some v := by
  constructor
  · intro h
    obtain ⟨⟨k, v'⟩, he, rfl⟩ := List.mem_map.mp h
    exact ⟨k, mem_toList_iff.mp he⟩
  · rintro ⟨k, hk⟩
    exact List.mem_map.mpr ⟨(k, v), mem_toList_iff.mpr hk, rfl⟩

@[simp]
theorem contains_insert (m : SortedMap α β) (k k' : α) (v : β) :
    (m.insert k v).contains k' = (decide (k' = k) || m.contains k') := by
  by_cases h : k' = k <;> simp [contains, get?_insert, h]

@[simp]
theorem contains_erase (m : SortedMap α β) (k k' : α) :
    (m.erase k).contains k' = (!decide (k' = k) && m.contains k') := by
  by_cases h : k' = k <;> simp [contains, get?_erase, h]

@[simp]
theorem contains_empty (k : α) : (empty : SortedMap α β).contains k = false := rfl

/-! ## Several updates -/

/-- Of two values for a key the later one stays. -/
theorem insert_insert (m : SortedMap α β) (k : α) (v w : β) :
    (m.insert k v).insert k w = m.insert k w := by
  refine ext_get? fun k' => ?_
  simp only [get?_insert]
  split <;> rfl

theorem get?_foldl_erase (ks : List α) (m : SortedMap α β) (k : α) :
    (ks.foldl erase m).get? k = if k ∈ ks then none else m.get? k := by
  induction ks generalizing m with
  | nil => simp
  | cons k' ks ih =>
    rw [List.foldl_cons, ih, get?_erase]
    by_cases h : k = k' <;> simp [h]

/-- A key that no pair has keeps its value. -/
theorem get?_insertMany_of_not_mem {l : List (α × β)} {k : α} (h : k ∉ l.map Prod.fst)
    (m : SortedMap α β) : (m.insertMany l).get? k = m.get? k := by
  induction l generalizing m with
  | nil => rfl
  | cons e l ih =>
    simp only [List.map_cons, List.mem_cons, not_or] at h
    rw [insertMany, List.foldl_cons]
    exact (ih h.2 _).trans (by rw [get?_insert, if_neg h.1])

/-- The value of a key that some pair has is that of such a pair. -/
theorem get?_insertMany_of_mem {l : List (α × β)} {k : α} (h : k ∈ l.map Prod.fst)
    (m : SortedMap α β) : ∃ v, (k, v) ∈ l ∧ (m.insertMany l).get? k = some v := by
  induction l generalizing m with
  | nil => simp at h
  | cons e l ih =>
    rw [insertMany, List.foldl_cons]
    by_cases hl : k ∈ l.map Prod.fst
    · obtain ⟨v, hv, hg⟩ := ih hl (m.insert e.1 e.2)
      exact ⟨v, List.mem_cons_of_mem _ hv, hg⟩
    · obtain rfl : k = e.1 := by simpa [hl] using h
      refine ⟨e.2, List.mem_cons_self, ?_⟩
      exact (get?_insertMany_of_not_mem hl _).trans (by rw [get?_insert, if_pos rfl])

theorem get?_insertMany_map_const (ks : List α) (v : β) (m : SortedMap α β) (k : α) :
    (m.insertMany (ks.map fun k => (k, v))).get? k = if k ∈ ks then some v else m.get? k := by
  have hkeys : (ks.map fun k => (k, v)).map Prod.fst = ks := by
    rw [List.map_map]
    exact List.map_id ks
  split
  · rename_i hk
    rw [← hkeys] at hk
    obtain ⟨w, hw, hg⟩ := get?_insertMany_of_mem hk m
    obtain ⟨k', -, heq⟩ := List.mem_map.mp hw
    rw [hg, ← (Prod.mk.inj heq).2]
  · rename_i hk
    exact get?_insertMany_of_not_mem (by rwa [hkeys]) m

/-- Of two maps the one that is put over the other wins. -/
theorem get?_insertMany_toList (m m' : SortedMap α β) (k : α) :
    (m.insertMany m'.toList).get? k = (m'.get? k).or (m.get? k) := by
  by_cases hk : k ∈ m'.keys
  · obtain ⟨v, hv, hg⟩ := get?_insertMany_of_mem (l := m'.toList) hk m
    rw [hg, mem_toList_iff.mp hv, Option.some_or]
  · rw [get?_insertMany_of_not_mem (l := m'.toList) hk,
      contains_eq_false_iff.mp (Bool.eq_false_iff.mpr fun h => hk (mem_keys_iff.mpr h)),
      Option.none_or]

/-- A value of a map that is made of a list is in the list. -/
theorem mem_of_get?_ofList {l : List (α × β)} {k : α} {v : β}
    (h : (ofList l).get? k = some v) : (k, v) ∈ l := by
  by_cases hk : k ∈ l.map Prod.fst
  · obtain ⟨w, hw, hg⟩ := get?_insertMany_of_mem hk (empty : SortedMap α β)
    rw [ofList, hg] at h
    exact Option.some.inj h ▸ hw
  · rw [ofList, get?_insertMany_of_not_mem hk] at h
    simp at h

/-- Where no key comes twice, all pairs are in the map. -/
theorem get?_ofList_iff {l : List (α × β)} (hl : (l.map Prod.fst).Nodup) {k : α} {v : β} :
    (ofList l).get? k = some v ↔ (k, v) ∈ l := by
  refine ⟨mem_of_get?_ofList, fun hmem => ?_⟩
  obtain ⟨w, hw, hg⟩ :=
    get?_insertMany_of_mem (List.mem_map_of_mem hmem) (empty : SortedMap α β)
  have hpair : (k, w) = (k, v) := List.inj_on_of_nodup_map hl hw hmem rfl
  rw [ofList, hg, (Prod.mk.inj hpair).2]

theorem contains_ofList_iff {l : List (α × β)} {k : α} :
    (ofList l).contains k = true ↔ k ∈ l.map Prod.fst := by
  rw [contains_iff]
  constructor
  · rintro ⟨v, hv⟩
    exact List.mem_map.mpr ⟨_, mem_of_get?_ofList hv, rfl⟩
  · intro hk
    obtain ⟨v, -, hg⟩ := get?_insertMany_of_mem hk (empty : SortedMap α β)
    exact ⟨v, hg⟩

/-- A map is the map of its entries. -/
theorem ofList_toList (m : SortedMap α β) : ofList m.toList = m :=
  ext_get? fun k => by rw [ofList, get?_insertMany_toList, get?_empty, Option.or_none]

/-- Maps with the same entries are equal. -/
theorem ext_toList {m m' : SortedMap α β} (h : m.toList = m'.toList) : m = m' := by
  rw [← ofList_toList m, h, ofList_toList]

/-! ## Folds over the entries -/

/-- A step for one entry that does `act` at the key of the entry, and nothing elsewhere, does
it at each key of a sorted list once. -/
theorem foldl_entries_at {σ τ : Type u} (view : σ → α → τ) (act : β → τ → τ)
    {step : σ → α × β → σ}
    (h : ∀ s e k, view (step s e) k = if k = e.1 then act e.2 (view s k) else view s k) (k : α) :
    ∀ {l : List (α × β)} (s : σ), l.Pairwise (fun a b => a.1 < b.1) →
      view (l.foldl step s) k = (lookupEntry k l).elim (view s k) (act · (view s k))
  | [], s, _ => rfl
  | (k', v) :: rest, s, hl => by
    obtain ⟨hhead, hrest⟩ := List.pairwise_cons.mp hl
    have ih := foldl_entries_at view act h k (step s (k', v)) hrest
    rw [List.foldl_cons, ih, h, lookupEntry]
    by_cases hk : k = k'
    · subst hk
      have hnone : lookupEntry k rest = none := lookupEntry_eq_none hhead
      simp [hnone, KeyOrder.lt_irrefl]
    · rw [if_neg hk]
      by_cases hlt : k < k'
      · have hnone : lookupEntry k rest = none :=
          lookupEntry_eq_none fun e he => KeyOrder.lt_trans hlt (hhead e he)
        simp [hlt, hnone]
      · have hgt : k' < k := Classical.byContradiction fun hgt =>
          hk (KeyOrder.eq_of_not_lt hlt hgt)
        simp [hlt, hgt]

/-- So it does it at each key of a map once. -/
theorem foldl_toList_at {σ τ : Type u} (view : σ → α → τ) (act : β → τ → τ)
    {step : σ → α × β → σ}
    (h : ∀ s e k, view (step s e) k = if k = e.1 then act e.2 (view s k) else view s k)
    (m : SortedMap α β) (s : σ) (k : α) :
    view (m.toList.foldl step s) k = (m.get? k).elim (view s k) (act · (view s k)) :=
  foldl_entries_at view act h k s m.sorted

/-! ## Changing every value -/

theorem lookupEntry_map (f : α → β → γ) (k : α) :
    ∀ l : List (α × β),
      lookupEntry k (l.map fun e => (e.1, f e.1 e.2)) = (lookupEntry k l).map (f k)
  | [] => rfl
  | (k', v) :: rest => by
    rw [List.map_cons, lookupEntry, lookupEntry, lookupEntry_map f k rest]
    by_cases h₁ : k < k'
    · simp [h₁]
    · by_cases h₂ : k' < k
      · simp [h₁, h₂]
      · obtain rfl := KeyOrder.eq_of_not_lt h₁ h₂
        simp [KeyOrder.lt_irrefl]

/-- Each key has its changed value. -/
@[simp]
theorem get?_mapValues (f : α → β → γ) (m : SortedMap α β) (k : α) :
    (m.mapValues f).get? k = (m.get? k).map (f k) :=
  lookupEntry_map f k m.entries

/-- A change of values keeps the keys. -/
@[simp]
theorem keys_mapValues (f : α → β → γ) (m : SortedMap α β) : (m.mapValues f).keys = m.keys := by
  simp [mapValues, keys]

@[simp]
theorem contains_mapValues (f : α → β → γ) (m : SortedMap α β) (k : α) :
    (m.mapValues f).contains k = m.contains k := by
  simp [contains]

/-- Values may be changed before or after a map is made of them. -/
theorem ofList_map (f : β → γ) (l : List (α × β)) :
    ofList (l.map fun e => (e.1, f e.2)) = (ofList l).mapValues fun _ => f := by
  have hmany : ∀ (m : SortedMap α β),
      (m.mapValues fun _ => f).insertMany (l.map fun e => (e.1, f e.2)) =
        (m.insertMany l).mapValues fun _ => f := by
    induction l with
    | nil => exact fun _ => rfl
    | cons e l ih =>
      intro m
      have hinsert : (m.mapValues fun _ => f).insert e.1 (f e.2) =
          (m.insert e.1 e.2).mapValues fun _ => f := by
        refine ext_get? fun k => ?_
        rw [get?_insert, get?_mapValues, get?_mapValues, get?_insert]
        split <;> rfl
      exact (congrArg (insertMany · _) hinsert).trans (ih _)
  exact hmany empty

/-- A function that leaves every value of a map as it is leaves the map as it is. -/
theorem mapValues_eq_self {f : α → β → β} {m : SortedMap α β}
    (h : ∀ k v, m.get? k = some v → f k v = v) : m.mapValues f = m := by
  refine ext_get? fun k => ?_
  rw [get?_mapValues]
  cases hk : m.get? k with
  | none => rfl
  | some v => rw [Option.map_some, h k v hk]

/-- Maps with the same keys list them in the same way. -/
theorem keys_eq_of_contains {m : SortedMap α β} {m' : SortedMap α γ}
    (h : ∀ k, m.contains k = m'.contains k) : m.keys = m'.keys := by
  have hunit : (m.mapValues fun _ _ => PUnit.unit.{u + 1}) = m'.mapValues fun _ _ => .unit := by
    refine ext_get? fun k => ?_
    have hk := h k
    rw [contains, contains] at hk
    rw [get?_mapValues, get?_mapValues]
    cases hm : m.get? k <;> cases hm' : m'.get? k <;> simp_all
  simpa using congrArg keys hunit

/-- Two lists of entries of which one is made from the other by a function that may fail. -/
def MadeBy {ε : Type} (f : β → Except ε γ) (l : List (α × β)) (l' : List (α × γ)) : Prop :=
  List.Forall₂ (fun e e' => e'.1 = e.1 ∧ f e.2 = .ok e'.2) l l'

/-- If values are made one by one, each is made of that of its key. -/
theorem madeBy_of_mapEntriesM {ε : Type} {f : β → Except ε γ} :
    ∀ {l : List (α × β)} {l'}, mapEntriesM f l = .ok l' → MadeBy f l l'.1
  | [], l', h => by
    obtain rfl : _ = l' := by simpa [mapEntriesM] using h
    exact .nil
  | (k, v) :: rest, l', h => by
    rw [mapEntriesM] at h
    split at h
    · simp at h
    · rename_i w hw
      split at h
      · simp at h
      · rename_i l hl heq
        obtain rfl := Except.ok.inj h
        exact .cons ⟨rfl, hw⟩ (madeBy_of_mapEntriesM heq)

/-- If values cannot be made, one of them cannot. -/
theorem exists_of_mapEntriesM_eq_error {ε : Type} {f : β → Except ε γ} {e : ε} :
    ∀ {l : List (α × β)}, mapEntriesM f l = .error e → ∃ b ∈ l, f b.2 = .error e
  | [], h => by simp [mapEntriesM] at h
  | (k, v) :: rest, h => by
    rw [mapEntriesM] at h
    split at h
    · rename_i e' hf
      obtain rfl := Except.error.inj h
      exact ⟨(k, v), List.mem_cons_self, hf⟩
    · split at h
      · rename_i e' heq
        obtain rfl := Except.error.inj h
        obtain ⟨b, hb, hf⟩ := exists_of_mapEntriesM_eq_error heq
        exact ⟨b, List.mem_cons_of_mem _ hb, hf⟩
      · simp at h

theorem MadeBy.lookupEntry {ε : Type} {f : β → Except ε γ} {l : List (α × β)}
    {l' : List (α × γ)} (h : MadeBy f l l') (k : α) :
    (lookupEntry k l = none ∧ lookupEntry k l' = none) ∨
      ∃ v w, lookupEntry k l = some v ∧ f v = .ok w ∧ lookupEntry k l' = some w := by
  induction h with
  | nil => exact Or.inl ⟨rfl, rfl⟩
  | @cons e e' l l' he hl ih =>
    obtain ⟨k₁, v⟩ := e
    obtain ⟨k₂, w⟩ := e'
    obtain ⟨rfl, hf⟩ := he
    simp only [SortedMap.lookupEntry]
    by_cases h₁ : k < k₂
    · simp [h₁]
    · by_cases h₂ : k₂ < k
      · simpa [h₁, h₂] using ih
      · simp [h₁, h₂, hf]

/-- A map that is made by a function that may fail has the same keys, with the values
that the function gives. -/
theorem get?_of_mapValuesM {ε : Type} {f : β → Except ε γ} {m : SortedMap α β}
    {m' : SortedMap α γ} (h : m.mapValuesM f = .ok m') (k : α) :
    (m.get? k = none ∧ m'.get? k = none) ∨
      ∃ v w, m.get? k = some v ∧ f v = .ok w ∧ m'.get? k = some w := by
  rw [mapValuesM] at h
  split at h
  · simp at h
  · rename_i l hl heq
    obtain rfl := Except.ok.inj h
    exact (madeBy_of_mapEntriesM heq).lookupEntry k

theorem exists_of_mapValuesM_eq_error {ε : Type} {f : β → Except ε γ} {m : SortedMap α β} {e : ε}
    (h : m.mapValuesM f = .error e) : ∃ k v, m.get? k = some v ∧ f v = .error e := by
  rw [mapValuesM] at h
  split at h
  · rename_i e' heq
    obtain rfl := Except.error.inj h
    obtain ⟨⟨k, v⟩, hb, hf⟩ := exists_of_mapEntriesM_eq_error heq
    exact ⟨k, v, mem_toList_iff.mp hb, hf⟩
  · simp at h

theorem mapEntriesM_of_madeBy {ε : Type} {f : β → Except ε γ} {l : List (α × β)}
    {l' : List (α × γ)} (h : MadeBy f l l') : ∃ hl, mapEntriesM f l = .ok ⟨l', hl⟩ := by
  induction h with
  | nil => exact ⟨rfl, rfl⟩
  | @cons e e' l l' he _ ih =>
    obtain ⟨k, v⟩ := e
    obtain ⟨k', w⟩ := e'
    obtain ⟨rfl, hf⟩ := he
    obtain ⟨hl, hrest⟩ := ih
    refine ⟨congrArg (k' :: ·) hl, ?_⟩
    simp only at hf
    rw [mapEntriesM, hf, hrest]

/-- A map whose values are made of those of another one is what is made of it. -/
theorem mapValuesM_of_madeBy {ε : Type} {f : β → Except ε γ} {m : SortedMap α β}
    {m' : SortedMap α γ} (h : MadeBy f m.entries m'.entries) : m.mapValuesM f = .ok m' := by
  obtain ⟨hl, hentries⟩ := mapEntriesM_of_madeBy h
  rw [mapValuesM, hentries]

/-- A function that may fail, but leaves every value of a map as it is, leaves the map as it
is. -/
theorem mapValuesM_eq_self {ε : Type} {f : β → Except ε β} {m : SortedMap α β}
    (h : ∀ k v, m.get? k = some v → f v = .ok v) : m.mapValuesM f = .ok m :=
  mapValuesM_of_madeBy (List.forall₂_same.mpr fun e he => ⟨rfl, h e.1 e.2 (mem_toList_iff.mp he)⟩)

end DataSpec.SortedMap

namespace DataSpec.SortedSet

variable {α : Type} [KeyOrder α] [DecidableEq α]

@[simp]
theorem contains_add (s : SortedSet α) (k k' : α) :
    (SortedSet.add s k).contains k' = (decide (k' = k) || SortedMap.contains s k') :=
  SortedMap.contains_insert s k k' ()

theorem contains_foldl_add {k : α} :
    ∀ (l : List α) (s : SortedSet α),
      SortedMap.contains (l.foldl SortedSet.add s) k = true ↔ k ∈ l ∨ s.contains k = true
  | [], s => by simp
  | a :: l, s => by
    rw [List.foldl_cons, contains_foldl_add l, contains_add, List.mem_cons, Bool.or_eq_true,
      decide_eq_true_eq, ← or_assoc, or_comm (a := k ∈ l)]

theorem contains_ofList_iff {l : List α} {k : α} :
    SortedMap.contains (SortedSet.ofList l) k = true ↔ k ∈ l := by
  rw [SortedSet.ofList, contains_foldl_add]
  simp

/-- A set is the set of its elements. -/
theorem ofList_keys (s : SortedSet α) : SortedSet.ofList s.keys = s := by
  have hlist : s.toList = s.keys.map fun k => (k, ()) := by
    rw [SortedMap.keys, List.map_map]
    exact (List.map_id s.entries).symm
  have hmap := SortedMap.ofList_toList s
  rw [hlist, SortedMap.ofList, SortedMap.insertMany, List.foldl_map] at hmap
  exact hmap

end DataSpec.SortedSet
