/-!
# Maps and sets in key order

A `SortedMap` is the list of its entries in strictly increasing order of the keys,
with the proof that it is in that order. The representation is unique : two maps
with the same answer to every `get?` are equal (`SortedMap.ext_get?`), so equality of
maps is equality of contents and everything that is written from a map comes out in
key order. `get?_insert` and `get?_erase` say what the two updates do to the view
`get?` ; nobody else looks at the list.
-/

set_option autoImplicit false

namespace DataSpec

universe u

/-- A type whose values can be keys : a decidable strict linear order. -/
class KeyOrder (α : Type) extends LT α where
  decidableLT : DecidableLT α
  lt_irrefl : ∀ a : α, ¬ a < a
  lt_trans : ∀ {a b c : α}, a < b → b < c → a < c
  eq_of_not_lt : ∀ {a b : α}, ¬ a < b → ¬ b < a → a = b

instance KeyOrder.instDecidableLT (α : Type) [k : KeyOrder α] : DecidableLT α := k.decidableLT

/-- Texts are ordered by code points. -/
instance : KeyOrder String where
  decidableLT := inferInstance
  lt_irrefl := String.lt_irrefl
  lt_trans := String.lt_trans
  eq_of_not_lt h₁ h₂ := String.le_antisymm (String.not_lt.mp h₂) (String.not_lt.mp h₁)

/-- The order that an injective rank puts on a finite type. -/
@[reducible]
def KeyOrder.ofRank {α : Type} (rank : α → Nat) (h : ∀ a b, rank a = rank b → a = b) :
    KeyOrder α where
  lt a b := rank a < rank b
  decidableLT a b := inferInstanceAs (Decidable (rank a < rank b))
  lt_irrefl a := Nat.lt_irrefl (rank a)
  lt_trans h₁ h₂ := Nat.lt_trans h₁ h₂
  eq_of_not_lt {a b} h₁ h₂ :=
    h a b (Nat.le_antisymm (Nat.not_lt.mp h₂) (Nat.not_lt.mp h₁))

/-- A map from `α` to `β` : its entries, by strictly increasing key. -/
structure SortedMap (α : Type) (β : Type u) [KeyOrder α] where
  entries : List (α × β)
  sorted : entries.Pairwise fun a b => a.1 < b.1

namespace SortedMap

variable {α : Type} {β γ : Type u} [KeyOrder α]

/-! ## Entry lists -/

/-- The value of the first entry at `k`. -/
def lookupEntry (k : α) : List (α × β) → Option β
  | [] => none
  | (k', v) :: rest =>
    if k < k' then none else if k' < k then lookupEntry k rest else some v

/-- Put `v` at `k`, in place of an entry that is there. -/
def insertEntry (k : α) (v : β) : List (α × β) → List (α × β)
  | [] => [(k, v)]
  | (k', v') :: rest =>
    if k < k' then (k, v) :: (k', v') :: rest
    else if k' < k then (k', v') :: insertEntry k v rest
    else (k, v) :: rest

/-- Drop the entry at `k`. -/
def eraseEntry (k : α) (l : List (α × β)) : List (α × β) :=
  l.filter fun e => decide (e.1 < k) || decide (k < e.1)

theorem fst_mem_insertEntry {k : α} {v : β} {e : α × β} :
    ∀ {l : List (α × β)}, e ∈ insertEntry k v l → e = (k, v) ∨ e ∈ l
  | [], h => by simpa [insertEntry] using h
  | (k', v') :: rest, h => by
    unfold insertEntry at h
    split at h
    · simpa using h
    · split at h
      · rcases List.mem_cons.mp h with h | h
        · exact Or.inr (h ▸ List.mem_cons_self)
        · rcases fst_mem_insertEntry h with h | h
          · exact Or.inl h
          · exact Or.inr (List.mem_cons_of_mem _ h)
      · rcases List.mem_cons.mp h with h | h
        · exact Or.inl h
        · exact Or.inr (List.mem_cons_of_mem _ h)

theorem pairwise_insertEntry (k : α) (v : β) :
    ∀ {l : List (α × β)}, l.Pairwise (fun a b => a.1 < b.1) →
      (insertEntry k v l).Pairwise fun a b => a.1 < b.1
  | [], _ => by simp [insertEntry]
  | (k', v') :: rest, h => by
    have hhead : ∀ e ∈ rest, k' < e.1 := (List.pairwise_cons.mp h).1
    have htail := (List.pairwise_cons.mp h).2
    unfold insertEntry
    split
    · rename_i hlt
      refine List.pairwise_cons.mpr ⟨fun e he => ?_, h⟩
      rcases List.mem_cons.mp he with rfl | he
      · exact hlt
      · exact KeyOrder.lt_trans hlt (hhead e he)
    · rename_i hnlt
      split
      · rename_i hlt
        refine List.pairwise_cons.mpr ⟨fun e he => ?_, pairwise_insertEntry k v htail⟩
        rcases fst_mem_insertEntry he with rfl | he
        · exact hlt
        · exact hhead e he
      · rename_i hnlt'
        obtain rfl := KeyOrder.eq_of_not_lt hnlt hnlt'
        exact List.pairwise_cons.mpr ⟨hhead, htail⟩

theorem lookupEntry_eq_none {k : α} :
    ∀ {l : List (α × β)}, (∀ e ∈ l, k < e.1) → lookupEntry k l = none
  | [], _ => rfl
  | (k', v') :: rest, h => by simp [lookupEntry, h (k', v') List.mem_cons_self]

theorem lookupEntry_insertEntry (k k' : α) (v : β) [DecidableEq α] :
    ∀ l : List (α × β),
      lookupEntry k' (insertEntry k v l) = if k' = k then some v else lookupEntry k' l
  | [] => by
    by_cases h : k' = k
    · subst h; simp [insertEntry, lookupEntry, KeyOrder.lt_irrefl]
    · simp only [insertEntry, lookupEntry, h, if_false]
      split
      · rfl
      · split
        · rfl
        · rename_i h₁ h₂; exact absurd (KeyOrder.eq_of_not_lt h₁ h₂) h
  | (k₀, v₀) :: rest => by
    unfold insertEntry
    split
    · rename_i hlt
      by_cases h : k' = k
      · subst h; simp [lookupEntry, KeyOrder.lt_irrefl]
      · simp only [lookupEntry, h, if_false]
        split
        · rename_i h₁; simp [KeyOrder.lt_trans h₁ hlt]
        · split
          · rfl
          · rename_i h₁ h₂; exact absurd (KeyOrder.eq_of_not_lt h₁ h₂) h
    · rename_i hnlt
      split
      · rename_i hlt
        have ih := lookupEntry_insertEntry k k' v rest
        by_cases h : k' = k
        · subst h
          simp only [lookupEntry, hnlt, hlt, if_false, if_true] at ih ⊢
          simpa using ih
        · simp only [lookupEntry, ih, h, if_false]
      · rename_i hnlt'
        obtain rfl := KeyOrder.eq_of_not_lt hnlt hnlt'
        by_cases h : k' = k
        · subst h; simp [lookupEntry, KeyOrder.lt_irrefl]
        · simp only [lookupEntry, h, if_false]
          split
          · rfl
          · split
            · rfl
            · rename_i h₁ h₂; exact absurd (KeyOrder.eq_of_not_lt h₁ h₂) h

theorem mem_of_lookupEntry {k : α} {v : β} :
    ∀ {l : List (α × β)}, lookupEntry k l = some v → (k, v) ∈ l
  | [], h => by simp [lookupEntry] at h
  | (k', v') :: rest, h => by
    unfold lookupEntry at h
    split at h
    · simp at h
    · rename_i h₁
      split at h
      · exact List.mem_cons_of_mem _ (mem_of_lookupEntry h)
      · rename_i h₂
        obtain rfl := KeyOrder.eq_of_not_lt h₁ h₂
        simp_all

theorem lookupEntry_of_mem {k : α} {v : β} :
    ∀ {l : List (α × β)}, l.Pairwise (fun a b => a.1 < b.1) → (k, v) ∈ l →
      lookupEntry k l = some v
  | [], _, h => by simp at h
  | (k', v') :: rest, hs, h => by
    rcases List.mem_cons.mp h with h | h
    · cases h; simp [lookupEntry, KeyOrder.lt_irrefl]
    · have hlt : k' < k := List.rel_of_pairwise_cons hs h
      have hnlt : ¬ k < k' := fun h' => KeyOrder.lt_irrefl k (KeyOrder.lt_trans h' hlt)
      simp only [lookupEntry, hnlt, hlt, if_false, if_true]
      exact lookupEntry_of_mem (List.pairwise_cons.mp hs).2 h

/-! ## The map and its view -/

/-- The map without entries. -/
def empty : SortedMap α β := ⟨[], List.Pairwise.nil⟩

instance : EmptyCollection (SortedMap α β) := ⟨empty⟩

instance : Inhabited (SortedMap α β) := ⟨empty⟩

/-- The value at `k`. -/
def get? (m : SortedMap α β) (k : α) : Option β := lookupEntry k m.entries

/-- Whether the map has an entry at `k`. -/
def contains (m : SortedMap α β) (k : α) : Bool := (m.get? k).isSome

/-- Put `v` at `k`, in place of the value that is there. -/
def insert (m : SortedMap α β) (k : α) (v : β) : SortedMap α β :=
  ⟨insertEntry k v m.entries, pairwise_insertEntry k v m.sorted⟩

/-- Drop the entry at `k`. -/
def erase (m : SortedMap α β) (k : α) : SortedMap α β :=
  ⟨eraseEntry k m.entries, m.sorted.sublist List.filter_sublist⟩

/-- The entries in key order. -/
def toList (m : SortedMap α β) : List (α × β) := m.entries

/-- The keys in order. -/
def keys (m : SortedMap α β) : List α := m.entries.map Prod.fst

/-- The values in key order. -/
def values (m : SortedMap α β) : List β := m.entries.map Prod.snd

/-- The number of entries. -/
def size (m : SortedMap α β) : Nat := m.entries.length

/-- Whether the map has no entry. -/
def isEmpty (m : SortedMap α β) : Bool := m.entries.isEmpty

/-- Insert pairs from left to right : of equal keys the last wins. -/
def insertMany (m : SortedMap α β) (l : List (α × β)) : SortedMap α β :=
  l.foldl (fun m e => m.insert e.1 e.2) m

/-- The map of a list of pairs : of equal keys the last wins. -/
def ofList (l : List (α × β)) : SortedMap α β := (empty : SortedMap α β).insertMany l

/-- Apply `f` to every value, which may use the key. -/
def mapValues (f : α → β → γ) (m : SortedMap α β) : SortedMap α γ :=
  ⟨m.entries.map fun e => (e.1, f e.1 e.2),
    List.pairwise_map.mpr (m.sorted.imp fun h => h)⟩

/-- Apply `f`, which may fail, to every value in key order. The keys stay as they are. -/
def mapEntriesM {ε : Type} (f : β → Except ε γ) :
    (l : List (α × β)) → Except ε { l' : List (α × γ) // l'.map Prod.fst = l.map Prod.fst }
  | [] => .ok ⟨[], rfl⟩
  | (k, v) :: rest =>
    match f v with
    | .error e => .error e
    | .ok w =>
      match mapEntriesM f rest with
      | .error e => .error e
      | .ok ⟨l, h⟩ => .ok ⟨(k, w) :: l, by simp [h]⟩

/-- Apply `f`, which may fail, to every value in key order; the first failure counts. -/
def mapValuesM {ε : Type} (f : β → Except ε γ) (m : SortedMap α β) : Except ε (SortedMap α γ) :=
  match mapEntriesM f m.entries with
  | .error e => .error e
  | .ok ⟨l, h⟩ => .ok ⟨l, by
      have hs := List.pairwise_map (f := Prod.fst) (R := (· < ·)) |>.mpr m.sorted
      rw [← h] at hs
      exact List.pairwise_map.mp hs⟩

/-- The entries that satisfy `p`. -/
def filter (p : α → β → Bool) (m : SortedMap α β) : SortedMap α β :=
  ⟨m.entries.filter fun e => p e.1 e.2, m.sorted.sublist List.filter_sublist⟩

@[simp]
theorem get?_empty (k : α) : (empty : SortedMap α β).get? k = none := rfl

theorem get?_insert [DecidableEq α] (m : SortedMap α β) (k : α) (v : β) (k' : α) :
    (m.insert k v).get? k' = if k' = k then some v else m.get? k' :=
  lookupEntry_insertEntry k k' v m.entries

theorem mem_toList_iff {m : SortedMap α β} {k : α} {v : β} :
    (k, v) ∈ m.toList ↔ m.get? k = some v :=
  ⟨lookupEntry_of_mem m.sorted, mem_of_lookupEntry⟩

theorem mem_keys_of_get? {m : SortedMap α β} {k : α} {v : β} (h : m.get? k = some v) :
    k ∈ m.keys :=
  List.mem_map.mpr ⟨(k, v), mem_toList_iff.mpr h, rfl⟩

theorem get?_erase [DecidableEq α] (m : SortedMap α β) (k k' : α) :
    (m.erase k).get? k' = if k' = k then none else m.get? k' := by
  apply Option.ext
  intro v
  rw [← mem_toList_iff]
  have hmem : (k', v) ∈ (m.erase k).toList ↔ (k', v) ∈ m.toList ∧ (k' < k ∨ k < k') := by
    simp [erase, toList, eraseEntry]
  rw [hmem, mem_toList_iff]
  by_cases h : k' = k
  · subst h; simp [KeyOrder.lt_irrefl]
  · have : k' < k ∨ k < k' := Classical.byContradiction fun hn =>
      h (KeyOrder.eq_of_not_lt (fun h' => hn (Or.inl h')) fun h' => hn (Or.inr h'))
    simp [h, this]

/-- Two entry lists in key order with the same members are equal. -/
theorem eq_of_mem_iff :
    ∀ {l₁ l₂ : List (α × β)}, l₁.Pairwise (fun a b => a.1 < b.1) →
      l₂.Pairwise (fun a b => a.1 < b.1) → (∀ e, e ∈ l₁ ↔ e ∈ l₂) → l₁ = l₂
  | [], [], _, _, _ => rfl
  | [], e :: _, _, _, h => by have := (h e).mpr List.mem_cons_self; simp at this
  | e :: _, [], _, _, h => by have := (h e).mp List.mem_cons_self; simp at this
  | a :: r₁, b :: r₂, h₁, h₂, h => by
    have hab : a = b := by
      rcases List.mem_cons.mp ((h a).mp List.mem_cons_self) with hab | ha
      · exact hab
      · rcases List.mem_cons.mp ((h b).mpr List.mem_cons_self) with hba | hb
        · exact hba.symm
        · exact absurd (KeyOrder.lt_trans (List.rel_of_pairwise_cons h₂ ha)
            (List.rel_of_pairwise_cons h₁ hb)) (KeyOrder.lt_irrefl _)
    subst hab
    have hirr : ∀ {r : List (α × β)}, (a :: r).Pairwise (fun a b => a.1 < b.1) → a ∉ r :=
      fun hp ha => KeyOrder.lt_irrefl _ (List.rel_of_pairwise_cons hp ha)
    have hr : ∀ e, e ∈ r₁ ↔ e ∈ r₂ := fun e => by
      have he := h e
      simp only [List.mem_cons] at he
      constructor
      · intro h₁'
        rcases he.mp (Or.inr h₁') with rfl | h'
        · exact absurd h₁' (hirr h₁)
        · exact h'
      · intro h₂'
        rcases he.mpr (Or.inr h₂') with rfl | h'
        · exact absurd h₂' (hirr h₂)
        · exact h'
    rw [eq_of_mem_iff (List.pairwise_cons.mp h₁).2 (List.pairwise_cons.mp h₂).2 hr]

/-- A map is determined by its view. -/
theorem ext_get? {m₁ m₂ : SortedMap α β} (h : ∀ k, m₁.get? k = m₂.get? k) : m₁ = m₂ := by
  have hmem : ∀ e, e ∈ m₁.entries ↔ e ∈ m₂.entries := fun (k, v) => by
    have h₁ := @mem_toList_iff _ _ _ m₁ k v
    have h₂ := @mem_toList_iff _ _ _ m₂ k v
    rw [h k] at h₁
    exact h₁.trans h₂.symm
  cases m₁; cases m₂
  congr
  exact eq_of_mem_iff (by assumption) (by assumption) hmem

instance [DecidableEq α] [DecidableEq β] : DecidableEq (SortedMap α β) := fun m₁ m₂ =>
  decidable_of_iff (m₁.entries = m₂.entries)
    ⟨fun h => by cases m₁; cases m₂; congr, fun h => h ▸ rfl⟩

end SortedMap

/-! ## Sets -/

/-- A set of keys in order. -/
abbrev SortedSet (α : Type) [KeyOrder α] := SortedMap α Unit

namespace SortedSet

variable {α : Type} [KeyOrder α]

/-- Add a key. -/
def add (s : SortedSet α) (k : α) : SortedSet α := SortedMap.insert s k ()

/-- The set of a list of keys. -/
def ofList (l : List α) : SortedSet α := l.foldl add SortedMap.empty

/-- Whether two sets have no key in common. -/
def disjoint (s t : SortedSet α) : Bool := s.keys.all fun k => !t.contains k

end SortedSet

end DataSpec
