import DataSpec.Proofs.Store.Refusals
import Mathlib.Algebra.Group.Nat.Defs

/-!
# The search for a free identifier

`Minter.Search` is the search for an identifier, turn by turn : each turn issues the next number
of the kind, until the identifier of one is free. Nothing in it bounds the number of turns. But
different numbers have different identifiers, so if there are numbers enough, one of as many as
there are identifiers in use, and one more, is free (`Minter.mint_of_enough_numbers`).
-/

set_option autoImplicit false

namespace DataSpec

namespace Minter

/-! ## The search -/

/-- The identifier of the next number of a kind. -/
def nextIdentifier (m : Minter) (base : String) (kind : Kind) : Iri :=
  identifier base kind (m.counters.current kind + 1)

/-- A search that finds an identifier after some turns. Numbers that it comes to have been issued,
whether their identifiers are free or not. -/
inductive Search (resources : ResourceMap) (base : String) (kind : Kind) :
    Nat → Minter → Iri → Minter → Prop where
  /-- A free identifier is minted. -/
  | found (m : Minter) : m.isTaken resources (m.nextIdentifier base kind) = false →
    Search resources base kind 1 m (m.nextIdentifier base kind)
      ⟨m.counters.next kind, SortedSet.add m.minted (m.nextIdentifier base kind)⟩
  /-- After any other one the search goes on. -/
  | skipped {turns : Nat} {m m' : Minter} {iri : Iri} :
    m.isTaken resources (m.nextIdentifier base kind) = true →
    Search resources base kind turns ⟨m.counters.next kind, m.minted⟩ iri m' →
    Search resources base kind (turns + 1) m iri m'

variable {resources : ResourceMap} {base : String} {kind : Kind} {m : Minter}

/-- The number that is issued after `j` others. -/
def numberAfter (m : Minter) (kind : Kind) (j : Nat) : UInt64 :=
  m.counters.current kind + 1 + UInt64.ofNat j

theorem numberAfter_zero (m : Minter) (kind : Kind) :
    m.numberAfter kind 0 = m.counters.current kind + 1 := UInt64.add_zero _

theorem numberAfter_next (m : Minter) (kind : Kind) (j : Nat) :
    (⟨m.counters.next kind, m.minted⟩ : Minter).numberAfter kind j =
      m.numberAfter kind (j + 1) := by
  rw [numberAfter, numberAfter, Counters.current_next, if_pos rfl, UInt64.ofNat_add,
    UInt64.ofNat_one, UInt64.add_comm (UInt64.ofNat j), UInt64.add_assoc _ 1]

/-- The search comes to the first number whose identifier is free. -/
theorem search_of_first {j : Nat}
    (hfree : m.isTaken resources (identifier base kind (m.numberAfter kind j)) = false)
    (htaken : ∀ i < j, m.isTaken resources (identifier base kind (m.numberAfter kind i)) = true) :
    Search resources base kind (j + 1) m (identifier base kind (m.numberAfter kind j))
      ⟨m.counters.insert kind (m.numberAfter kind j),
        SortedSet.add m.minted (identifier base kind (m.numberAfter kind j))⟩ := by
  induction j generalizing m with
  | zero =>
    rw [numberAfter_zero] at hfree ⊢
    exact .found m hfree
  | succ j ih =>
    have hskip : m.isTaken resources (m.nextIdentifier base kind) = true := by
      rw [nextIdentifier, ← numberAfter_zero]
      exact htaken 0 (Nat.succ_pos j)
    have hrest := @ih ⟨m.counters.next kind, m.minted⟩
    simp only [numberAfter_next] at hrest
    rw [Counters.next, SortedMap.insert_insert] at hrest
    exact .skipped hskip (hrest hfree fun i hi => htaken (i + 1) (Nat.succ_lt_succ hi))

/-- Numbers that do not go beyond 64 bits come one after the other. -/
theorem toNat_numberAfter {j : Nat}
    (h : (m.counters.current kind).toNat + j < 2 ^ 64 - 1) :
    (m.numberAfter kind j).toNat = (m.counters.current kind).toNat + 1 + j := by
  have hj : (UInt64.ofNat j).toNat = j := UInt64.toNat_ofNat_of_lt' (by unfold UInt64.size; omega)
  rw [numberAfter, UInt64.toNat_add, UInt64.toNat_add, hj, UInt64.toNat_one]
  omega

/-- Numbers above the counter and below the one that is issued after `j` others are among those. -/
theorem exists_numberAfter_eq {j : Nat} {k : UInt64}
    (h : (m.counters.current kind).toNat + j < 2 ^ 64 - 1) (hk : m.counters.current kind < k)
    (hlt : k < m.numberAfter kind j) : ∃ i < j, k = m.numberAfter kind i := by
  rw [UInt64.lt_iff_toNat_lt] at hk hlt
  rw [toNat_numberAfter h] at hlt
  refine ⟨k.toNat - ((m.counters.current kind).toNat + 1), by omega, ?_⟩
  rw [← UInt64.toNat_inj, toNat_numberAfter (by omega)]
  omega

/-- If there are numbers enough, an identifier is minted after at most one more turn than there
are identifiers in use. It is that of the smallest number above the counter whose identifier is
free, and the counter comes to that number. -/
theorem mint_of_enough_numbers
    (h : (m.counters.current kind).toNat + resources.size + m.minted.size < 2 ^ 64 - 1) :
    ∃ n m', m.mint resources base kind = some (identifier base kind n, m') ∧
      (∃ turns ≤ resources.size + m.minted.size + 1,
        Search resources base kind turns m (identifier base kind n) m') ∧
      m.counters.current kind < n ∧ m.isTaken resources (identifier base kind n) = false ∧
      (∀ k, m.counters.current kind < k →
        m.isTaken resources (identifier base kind k) = false → n ≤ k) ∧
      m'.counters.current kind = n ∧
      (∀ k ≠ kind, m'.counters.get? k = m.counters.get? k) ∧
      m'.minted = SortedSet.add m.minted (identifier base kind n) := by
  have hsize : (resources.keys ++ m.minted.keys).length = resources.size + m.minted.size := by
    rw [List.length_append, SortedMap.size_eq_length_keys, SortedMap.size_eq_length_keys]
  cases hmint : m.mint resources base kind with
  | none =>
    have := size_le_of_mint_eq_none hmint
    unfold UInt64.size at this
    omega
  | some r =>
    obtain ⟨n, hn, rfl⟩ := Option.map_eq_some_iff.mp hmint
    obtain ⟨j, hj, rfl : n = m.numberAfter kind j, hfree, hbefore⟩ := firstFree_eq_some hn
    rw [hsize] at hj
    have hroom : (m.counters.current kind).toNat + j < 2 ^ 64 - 1 := by omega
    have hnumber := toNat_numberAfter hroom
    refine ⟨_, _, rfl, ⟨j + 1, Nat.succ_le_succ hj, search_of_first hfree hbefore⟩,
      UInt64.lt_iff_toNat_lt.mpr (by omega), hfree, fun k hk hkfree => ?_, ?_, fun k hk => ?_, rfl⟩
    · -- A free number below would be one of those that were skipped.
      refine UInt64.not_lt.mp fun hlt => ?_
      obtain ⟨i, hi, hki⟩ := exists_numberAfter_eq hroom hk hlt
      exact Bool.false_ne_true (hkfree.symm.trans (hki ▸ hbefore i hi))
    · rw [Counters.current_insert, if_pos rfl]
    · rw [SortedMap.get?_insert, if_neg hk]

/-- The first identifier is in use and the second one minted, so the third one is free. -/
theorem mint_of_enough_numbers_skipping :
    ∃ resources : ResourceMap, ∃ m m' : Minter,
      (m.counters.current .structuralClass).toNat + resources.size + m.minted.size < 2 ^ 64 - 1 ∧
      resources.contains "http://x/psm-class/1" = true ∧
      m.minted.contains "http://x/psm-class/2" = true ∧
      m.mint resources "http://x/" .structuralClass = some ("http://x/psm-class/3", m') ∧
      m'.counters.current .structuralClass = 3 := by
  let resources : ResourceMap :=
    .ofList [("http://x/psm-class/1", .new "http://x/psm-class/1" .structuralClass)]
  let m : Minter := ⟨.empty, .ofList ["http://x/psm-class/2"]⟩
  have hroom : (m.counters.current .structuralClass).toNat + resources.size + m.minted.size <
      2 ^ 64 - 1 := by decide
  obtain ⟨n, m', hmint, -, habove, hfree, hleast, hcounter, -⟩ :=
    @mint_of_enough_numbers resources "http://x/" .structuralClass m hroom
  have hpos : 0 < n.toNat := UInt64.lt_iff_toNat_lt.mp habove
  have hle : n.toNat ≤ 3 := UInt64.le_iff_toNat_le.mp (hleast 3 (by decide) (by decide))
  obtain rfl | rfl | rfl : n = 1 ∨ n = 2 ∨ n = 3 := by
    simp only [← UInt64.toNat_inj]
    exact (by omega : n.toNat = 1 ∨ n.toNat = 2 ∨ n.toNat = 3)
  · exact absurd hfree (by decide)
  · exact absurd hfree (by decide)
  exact ⟨resources, m, m', hroom, by decide, by decide, hmint, hcounter⟩

end Minter

end DataSpec
