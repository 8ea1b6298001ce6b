import DataSpec.Proofs.Decimal.Digits
import DataSpec.Proofs.Store.Deletion
import DataSpec.Proofs.Store.Shapes
import DataSpec.Proofs.Text.Segments
import Mathlib.Data.List.Basic

/-!
# Identifiers and their numbers

An identifier tells its kind and its number (`identifier_injective`). So where every
identifier in use was `Issued`, which is to say that the counter of its kind has come to its
number, the next number is free, and minting finds it at once
(`Execution.mint_of_accounted`).

`Execution.Mints` is the series of identifiers that an operation mints. The resources that a
successful operation creates are those it minted identifiers for (`Execution.mints_of_run`),
and no identifier of a series had been issued before (`Execution.Mints.fresh`).
-/

set_option autoImplicit false
set_option linter.unusedSectionVars false

namespace DataSpec

/-! ## Identifiers -/

/-- Kinds have different segments. -/
theorem Kind.segment_injective {k k' : Kind} (h : k.segment = k'.segment) : k = k' := by
  cases k <;> cases k' <;> first | rfl | simp [Kind.segment] at h

/-- There is no slash in the segment of a kind. -/
theorem Kind.slash_not_mem_segment (k : Kind) : '/' ∉ k.segment.toList := by
  cases k <;> decide

/-- An identifier tells its kind and its number. -/
theorem identifier_injective {base : String} {k k' : Kind} {n n' : UInt64}
    (h : identifier base k n = identifier base k' n') : k = k' ∧ n = n' := by
  have htail : k.segment.toList ++ '/' :: (toString n.toNat).toList =
      k'.segment.toList ++ '/' :: (toString n'.toNat).toList := by
    simpa [identifier, String.toList_append, List.append_assoc] using congrArg String.toList h
  obtain ⟨hsegment, hdigits⟩ :=
    (Text.append_cons_inj k.slash_not_mem_segment k'.slash_not_mem_segment).mp htail
  exact ⟨Kind.segment_injective (String.toList_inj.mp hsegment),
    UInt64.toNat_inj.mp (Decimal.toString_inj.mp (String.toList_inj.mp hdigits))⟩

/-! ## Counters -/

/-- Identifiers whose numbers the counters have come to. -/
def Issued (base : String) (c : Counters) (iri : Iri) : Prop :=
  ∃ kind n, iri = identifier base kind n ∧ n ≤ c.current kind

/-- The numbers up to the counter of a kind have been issued. -/
theorem issued_identifier_iff {base : String} {c : Counters} {kind : Kind} {n : UInt64} :
    Issued base c (identifier base kind n) ↔ n ≤ c.current kind := by
  constructor
  · rintro ⟨kind', n', heq, hle⟩
    obtain ⟨rfl, rfl⟩ := identifier_injective heq
    exact hle
  · exact fun hle => ⟨kind, n, rfl, hle⟩

namespace Counters

/-- The counters after the next number of a kind was issued. -/
def next (c : Counters) (kind : Kind) : Counters := c.insert kind (c.current kind + 1)

theorem current_insert (c : Counters) (kind k : Kind) (n : UInt64) :
    Counters.current (c.insert kind n) k = if k = kind then n else c.current k := by
  unfold current
  rw [SortedMap.get?_insert]
  split <;> rfl

/-- Only the counter of one kind moves on, by one. -/
theorem current_next (c : Counters) (kind k : Kind) :
    (c.next kind).current k = if k = kind then c.current kind + 1 else c.current k :=
  current_insert c kind k _

/-- The second counters are those that `n` more numbers may have led to. -/
def Within (c : Counters) (n : Nat) (c' : Counters) : Prop :=
  ∀ kind, (c.current kind).toNat ≤ (c'.current kind).toNat ∧
    (c'.current kind).toNat ≤ (c.current kind).toNat + n

/-- Counters of which `n` more numbers may be issued. -/
def Room (c : Counters) (n : Nat) : Prop := ∀ kind, (c.current kind).toNat + n < UInt64.size

/-- As long as there is room, a counter does not go round. -/
theorem toNat_current_next {c : Counters} {n : Nat} (h : c.Room (n + 1)) (kind k : Kind) :
    ((c.next kind).current k).toNat =
      if k = kind then (c.current kind).toNat + 1 else (c.current k).toNat := by
  have hk := h kind
  rw [current_next]
  split
  · rw [UInt64.toNat_add, UInt64.toNat_one, Nat.mod_eq_of_lt]
    unfold UInt64.size at hk
    omega
  · rfl

theorem Within.refl (c : Counters) : c.Within 0 c := fun _ => ⟨Nat.le_refl _, Nat.le_refl _⟩

/-- With each number there is room for one less. -/
theorem Room.next {c : Counters} {n : Nat} (h : c.Room (n + 1)) (kind : Kind) :
    (c.next kind).Room n := by
  intro k
  have hk := h k
  rw [toNat_current_next h]
  split
  · rename_i heq
    subst heq
    omega
  · omega

/-- Steps add up. -/
theorem Within.trans {c c₁ c₂ : Counters} {n k : Nat} (h : c.Within n c₁) (h' : c₁.Within k c₂) :
    c.Within (n + k) c₂ := by
  intro kind
  have hk := h kind
  have hk' := h' kind
  omega

theorem within_next {c : Counters} {n : Nat} (h : c.Room (n + 1)) (kind : Kind) :
    c.Within 1 (c.next kind) := by
  intro k
  rw [toNat_current_next h]
  split
  · rename_i heq
    subst heq
    omega
  · omega

end Counters

/-- What was issued stays so. -/
theorem Issued.within {base : String} {c c' : Counters} {n : Nat} {iri : Iri}
    (h : Issued base c iri) (hw : c.Within n c') : Issued base c' iri := by
  obtain ⟨kind, k, rfl, hk⟩ := h
  exact ⟨kind, k, rfl, UInt64.le_iff_toNat_le.mpr
    (Nat.le_trans (UInt64.le_iff_toNat_le.mp hk) (hw kind).1)⟩

/-! ## Diffs -/

namespace ResourceDiff

variable {d d' : ResourceDiff} {m : ResourceMap} {iri : Iri} {is : List Iri}

/-- A resource that is created is among those that the diff creates, with all that were. -/
theorem contains_created_create (d : ResourceDiff) (r : Resource) (i : Iri) :
    (d.create r).created.contains i = (decide (i = r.iri) || d.created.contains i) :=
  SortedMap.contains_insert ..

/-- An edit leaves the created identifiers as they are. -/
theorem contains_created_edit {f : Resource → Resource} (h : d.edit m iri f = .ok d') (i : Iri) :
    d'.created.contains i = d.created.contains i := by
  obtain ⟨-, ⟨r, hr, rfl⟩ | ⟨r, -, -, rfl⟩⟩ := edit_cases h
  · rw [SortedMap.contains_insert]
    by_cases hi : i = iri
    · rw [hi, SortedMap.contains_iff.mpr ⟨r, hr⟩, Bool.or_true]
    · rw [decide_eq_false hi, Bool.false_or]
  · rfl

/-- A diff that creates what is in a list and nothing else. -/
def Creates (d : ResourceDiff) (is : List Iri) : Prop :=
  ∀ i, d.created.contains i = true ↔ i ∈ is

theorem creates_empty : empty.Creates [] := fun _ => ⟨nofun, nofun⟩

theorem Creates.create (h : d.Creates is) (r : Resource) : (d.create r).Creates (r.iri :: is) := by
  intro i
  rw [contains_created_create, Bool.or_eq_true, decide_eq_true_eq, h i, List.mem_cons]

/-- Neither does the list of those that the diff creates. -/
theorem Creates.edit {f : Resource → Resource} (h : d.Creates is) (he : d.edit m iri f = .ok d') :
    d'.Creates is := by
  intro i
  rw [contains_created_edit he]
  exact h i

/-- Deleting is not creating. -/
theorem Creates.delete (h : d.Creates []) (iri : Iri) : (d.delete iri).Creates [] := by
  have hc : d.created.contains iri = false := Bool.eq_false_iff.mpr fun hc => nomatch (h iri).mp hc
  rw [ResourceDiff.delete, hc]
  exact h

/-- Resources that are created do not come among those that are changed. -/
@[simp]
theorem changed_foldl_create (rs : List Resource) (d : ResourceDiff) :
    (rs.foldl create d).changed = d.changed := by
  induction rs generalizing d with
  | nil => rfl
  | cons r rs ih => exact ih (d.create r)

/-- Resources that are created one after the other come before those of the diff. -/
theorem Creates.foldl_create (h : d.Creates is) (rs : List Resource) :
    (rs.foldl ResourceDiff.create d).Creates (rs.map Resource.iri ++ is) := by
  induction rs generalizing d is with
  | nil => exact h
  | cons r rs ih =>
    have hrest := ih (h.create r)
    exact fun i => (hrest i).trans (List.perm_middle).mem_iff

/-- The created resources are as many as the list has, if it has none twice. -/
theorem Creates.length_keys (h : d.Creates is) (hn : is.Nodup) :
    d.created.keys.length = is.length := by
  refine ((List.perm_ext_iff_of_nodup d.created.nodup_keys hn).mpr fun i => ?_).length_eq
  rw [SortedMap.mem_keys_iff]
  exact h i

/-- A diff that gives new bodies only to what is there. -/
def ChangesOnly (m : ResourceMap) (d : ResourceDiff) : Prop :=
  ∀ i, d.changed.contains i = true → m.contains i = true

/-- What is edited is there, or has a new body already. -/
theorem ChangesOnly.edit {f : Resource → Resource} (h : d.ChangesOnly m)
    (he : d.edit m iri f = .ok d') : d'.ChangesOnly m := by
  obtain ⟨-, ⟨r, -, rfl⟩ | ⟨r, -, hbody, rfl⟩⟩ := edit_cases he
  · exact h
  · intro i hi
    rw [SortedMap.contains_insert, Bool.or_eq_true, decide_eq_true_eq] at hi
    rcases hi with rfl | hi
    · exact hbody.elim (fun hch => h i (SortedMap.contains_iff.mpr ⟨r, hch⟩))
        fun hm => SortedMap.contains_iff.mpr ⟨r, hm.2⟩
    · exact h i hi

/-- A change of bodies that leaves the identity of resources as it is, and the shapes of their
attributes. -/
structure Light (f : Resource → Resource) : Prop where
  akin : ∀ r, (f r).Akin r
  shaped : ∀ r, r.Shaped → (f r).Shaped

/-- A change of bodies that is one of lists. -/
def Relists (f : Resource → Resource) : Prop := ∀ r, (f r).Relisted r

/-- To change lists is light. -/
theorem Relists.light {f : Resource → Resource} (h : Relists f) : Light f :=
  ⟨fun r => (h r).akin, fun r => (h r).shaped⟩

/-- A light change leaves a resource proper. -/
theorem Light.proper {f : Resource → Resource} (hf : Light f) {r : Resource} (h : r.Proper) :
    (f r).Proper :=
  ⟨(hf.akin r).links.housed h.housed, hf.shaped r h.shaped⟩

/-- Properties of diffs that hold of the empty one, and are kept when bodies are edited in some
ways and resources deleted. -/
structure Kept (E : (Resource → Resource) → Prop) (m : ResourceMap) (P : ResourceDiff → Prop) :
    Prop where
  empty : P .empty
  edit : ∀ {d d' : ResourceDiff} {iri : Iri} {f : Resource → Resource}, E f →
    P d → d.edit m iri f = .ok d' → P d'
  delete : ∀ {d : ResourceDiff} (iri : Iri), P d → P (d.delete iri)

/-- What is kept by all light changes is kept by those of lists. -/
theorem Kept.relists {P : ResourceDiff → Prop} (k : Kept Light m P) : Kept Relists m P :=
  ⟨k.empty, fun hf => k.edit hf.light, k.delete⟩

/-- An operation that edits and deletes creates nothing. -/
theorem kept_creates (m : ResourceMap) : Kept Light m (·.Creates []) :=
  ⟨creates_empty, fun _ h he => h.edit he, fun iri h => h.delete iri⟩

/-- An operation that edits and deletes gives new bodies only to what is there. -/
theorem kept_changesOnly (m : ResourceMap) : Kept Light m (ChangesOnly m) := by
  refine ⟨nofun, fun _ h he => h.edit he, fun {d} iri h i hi => h i ?_⟩
  unfold delete at hi
  split at hi <;>
  · rw [SortedMap.contains_erase, Bool.and_eq_true] at hi
    exact hi.2

/-- The diffs that changes of lists make of another one. -/
inductive Edits (m : ResourceMap) (d : ResourceDiff) : ResourceDiff → Prop
  | refl : Edits m d d
  | edit {d₁ d₂ : ResourceDiff} {iri : Iri} {f : Resource → Resource} :
    Relists f → Edits m d d₁ → d₁.edit m iri f = .ok d₂ → Edits m d d₂

/-- What every change of a list keeps is kept by all of them together. -/
theorem Edits.keep {P : ResourceDiff → Prop}
    (edit : ∀ {d d' : ResourceDiff} {iri : Iri} {f : Resource → Resource}, Relists f →
      P d → d.edit m iri f = .ok d' → P d') (h : Edits m d d') (hd : P d) : P d' := by
  induction h with
  | refl => exact hd
  | edit hf _ he ih => exact edit hf ih he

/-- Taking an identifier out of both lists is a change of lists. -/
theorem relists_detach (iri : Iri) : Relists fun h => (h.detach .parts iri).detach .roots iri :=
  fun r => r.relisted_detach iri

/-- Adding a part is a change of lists. -/
theorem relists_addPart (iri : Iri) : Relists fun r => r.addPart iri := fun r =>
  r.relisted_addPart iri

/-- Writing other parts is a change of lists. -/
theorem relists_setParts (parts : Resource → List Iri) :
    Relists fun r => r.set .parts (.iriList (parts r)) := fun r => r.relisted_set_parts (parts r)

/-- Writing roots is a light change. -/
theorem light_setRoots (roots : List Iri) : Light fun r => r.set .roots (.iriList roots) :=
  ⟨fun r => r.akin_set (by decide) (by decide) _, fun _ h => h.set rfl⟩

/-- Writing an attribute that is no link is a light change. -/
theorem light_set {k : AttributeKey} {v : AttributeValue} (h : k.isLink = false)
    (hv : k.accepts v = true) : Light fun r => r.set k v :=
  ⟨fun r => r.akin_set (by rintro rfl; cases h) (by rintro rfl; cases h) v, fun _ hr => hr.set hv⟩

/-- Removing an attribute that is no link is a light change. -/
theorem light_remove {k : AttributeKey} (h : k.isLink = false) : Light fun r => r.remove k :=
  ⟨fun r => r.akin_remove (by rintro rfl; cases h) (by rintro rfl; cases h),
    fun _ hr => hr.remove k⟩

end ResourceDiff

/-! ## Minting -/

namespace Execution

open ResourceDiff

variable {x : Execution} {m m' : Minter} {d d' : ResourceDiff} {kind : Kind} {iri i : Iri}
  {is : List Iri}

/-- Every identifier in use has been issued. -/
def Accounted (x : Execution) (m : Minter) : Prop :=
  ∀ {iri}, m.isTaken x.resources iri = true → Issued x.base m.counters iri

/-- Where all identifiers in use were issued, the next one is free. -/
theorem mint_of_accounted {n : Nat} (h : x.Accounted m) (hroom : m.counters.Room (n + 1))
    (kind : Kind) :
    x.mint m kind = .ok (identifier x.base kind (m.counters.current kind + 1),
      ⟨m.counters.next kind,
        SortedSet.add m.minted (identifier x.base kind (m.counters.current kind + 1))⟩) := by
  have hfree : m.isTaken x.resources (identifier x.base kind (m.counters.current kind + 1)) =
      false := by
    refine Bool.eq_false_iff.mpr fun htaken => ?_
    have hle := UInt64.le_iff_toNat_le.mp (issued_identifier_iff.mp (h htaken))
    have hnext := Counters.toNat_current_next hroom kind kind
    rw [Counters.current_next, if_pos rfl, if_pos rfl] at hnext
    omega
  have hfirst : ∀ taken, Minter.firstFree (identifier x.base kind) (m.isTaken x.resources) taken
      (m.counters.current kind + 1) = some (m.counters.current kind + 1) := by
    intro taken
    cases taken <;> simp [Minter.firstFree, hfree]
  rw [mint, Minter.mint, hfirst]
  rfl

/-- An identifier that is minted had not been issued, and it is accounted for. -/
theorem Accounted.mint {n : Nat} (h : x.Accounted m) (hroom : m.counters.Room (n + 1))
    (hm : x.mint m kind = .ok (iri, m')) :
    ¬ Issued x.base m.counters iri ∧ m'.counters = m.counters.next kind ∧ x.Accounted m' := by
  rw [mint_of_accounted h hroom] at hm
  obtain ⟨rfl, rfl⟩ := Prod.mk.inj (Except.ok.inj hm)
  have hnext := Counters.toNat_current_next hroom kind kind
  rw [Counters.current_next, if_pos rfl, if_pos rfl] at hnext
  refine ⟨fun hissued => ?_, rfl, fun {i} hi => ?_⟩
  · have hle := UInt64.le_iff_toNat_le.mp (issued_identifier_iff.mp hissued)
    omega
  · rw [Minter.isTaken, SortedSet.contains_add, Bool.or_left_comm, ← Minter.isTaken,
      Bool.or_eq_true, decide_eq_true_eq] at hi
    rcases hi with rfl | hi
    · refine issued_identifier_iff.mpr ?_
      rw [Counters.current_next, if_pos rfl]
      exact UInt64.le_refl _
    · exact (h hi).within (Counters.within_next hroom kind)

/-- A series of identifiers that are minted one after the other. -/
inductive Mints (x : Execution) : Minter → List Iri → Minter → Prop
  | nil (m : Minter) : Mints x m [] m
  | cons {m m₁ m' : Minter} {kind : Kind} {iri : Iri} {is : List Iri} :
    x.mint m kind = .ok (iri, m₁) → Mints x m₁ is m' → Mints x m (iri :: is) m'

/-- An identifier that was minted is not minted again. -/
theorem Mints.nodup (h : Mints x m is m') :
    is.Nodup ∧ ∀ i ∈ is, m.minted.contains i = false := by
  induction h with
  | nil m => exact ⟨List.nodup_nil, nofun⟩
  | @cons m m₁ m' kind iri is hm _ ih =>
    obtain ⟨-, hfree, hadd⟩ := mint_eq_ok hm
    simp only [hadd, SortedSet.contains_add, Bool.or_eq_false_iff, decide_eq_false_iff_not] at ih
    refine ⟨List.nodup_cons.mpr ⟨fun hi => (ih.2 iri hi).1 rfl, ih.1⟩, fun i hi => ?_⟩
    rcases List.mem_cons.mp hi with rfl | hi
    · exact hfree
    · exact (ih.2 i hi).2

/-- No identifier of a series had been issued before, all of them have been then, and the
counters come no further than that. -/
theorem Mints.fresh (h : Mints x m is m') (ha : x.Accounted m)
    (hroom : m.counters.Room is.length) :
    (∀ i ∈ is, ¬ Issued x.base m.counters i ∧ Issued x.base m'.counters i) ∧
      m.counters.Within is.length m'.counters := by
  induction h with
  | nil m => exact ⟨nofun, .refl _⟩
  | @cons m m₁ m' kind iri is hm _ ih =>
    obtain ⟨hnew, hcounters, ha₁⟩ := ha.mint hroom hm
    obtain ⟨hfresh, hrest⟩ := ih ha₁ (hcounters ▸ hroom.next kind)
    have hstep : m.counters.Within 1 m₁.counters := hcounters ▸ Counters.within_next hroom kind
    refine ⟨fun i hi => ?_, ?_⟩
    · rcases List.mem_cons.mp hi with rfl | hi
      · have htaken : m₁.isTaken x.resources i = true := by
          simp [Minter.isTaken, (mint_eq_ok hm).2.2]
        exact ⟨hnew, (ha₁ htaken).within hrest⟩
      · exact ⟨fun h => (hfresh i hi).1 (h.within hstep), (hfresh i hi).2⟩
    · rw [List.length_cons, Nat.add_comm]
      exact hstep.trans hrest

/-! ## Operations that create nothing -/

section

variable {P : ResourceDiff → Prop}

/-- Taking a resource out of one that holds it changes lists only. -/
theorem kept_detachFrom (k : Kept Relists x.resources P) {holder : Option Iri} (h : P d)
    (hd : x.detachFrom d iri holder = .ok d') : P d' := by
  unfold detachFrom at hd
  split at hd
  · exact Except.ok.inj hd ▸ h
  · split at hd
    · exact Except.ok.inj hd ▸ h
    · exact k.edit (relists_detach iri) h hd

/-- Taking a resource out of its owner and its schema changes lists only. -/
theorem kept_detach (k : Kept Relists x.resources P) {r : Resource} (h : P d)
    (hd : x.detach d r = .ok d') : P d' := by
  obtain ⟨d₁, h₁, hd⟩ := Except.bind_eq_ok.mp hd
  exact kept_detachFrom k (kept_detachFrom k h h₁) hd

theorem kept_deleteEnd (k : Kept Relists x.resources P) (h : P d)
    (hd : x.deleteEnd d iri = .ok d') : P d' := by
  obtain ⟨d₁, h₁, hd⟩ := Except.bind_eq_ok.mp hd
  obtain rfl := Except.ok.inj hd
  refine k.delete iri ?_
  split at h₁
  · exact kept_detach k h h₁
  · exact Except.ok.inj h₁ ▸ h

/-- Before a resource is deleted it is taken out of all lists, and the ends of an association go
with it. -/
theorem kept_release (k : Kept Relists x.resources P) {r : Resource}
    (h : x.release iri r kind = .ok d) : P d := by
  obtain ⟨-, -, rfl⟩ | ⟨-, hdetach⟩ | ⟨-, d₁, hends, hdetach⟩ := release_cases h
  · exact k.empty
  · exact kept_detach k k.empty hdetach
  · have h₁ : P d₁ := Except.keeps_of_foldlM (fun h hd => kept_deleteEnd k h hd) k.empty hends
    exact kept_detach k h₁ hdetach

/-- So to delete keeps what edits and deletions keep. -/
theorem kept_delete (k : Kept Relists x.resources P) (h : x.delete iri = .ok d) : P d := by
  obtain ⟨r, -, h⟩ := Except.bind_eq_ok.mp h
  split at h
  · simp at h
  · obtain ⟨d₁, hrel, h⟩ := Except.bind_eq_ok.mp h
    obtain rfl := Except.ok.inj h
    exact k.delete iri (kept_release k hrel)

/-- Setting an attribute keeps what light changes keep. -/
theorem kept_setAttribute (k : Kept Light x.resources P) {key : AttributeKey}
    {value : Option AttributeValue} (h : x.setAttribute iri key value = .ok d) : P d := by
  unfold setAttribute at h
  split at h
  · simp at h
  rename_i hlink
  have hlink : key.isLink = false := Bool.eq_false_iff.mpr hlink
  obtain ⟨r, -, h⟩ := Except.bind_eq_ok.mp h
  split at h
  · exact k.edit (light_remove hlink) k.empty h
  split at h
  · simp at h
  rename_i hshape
  split at h
  · simp at h
  · exact k.edit (light_set hlink (by simpa using hshape)) k.empty h

/-- Moving a part keeps what light changes keep. -/
theorem kept_setOrder (k : Kept Light x.resources P) {moved : Iri} {after : Option Iri}
    (h : x.setOrder iri moved after = .ok d) : P d := by
  obtain ⟨r, -, h⟩ := Except.bind_eq_ok.mp h
  split at h
  · simp at h
  split at h
  · exact k.edit (relists_setParts _).light k.empty h
  · simp at h

/-- Setting roots keeps what light changes keep. -/
theorem kept_setRoots (k : Kept Light x.resources P) {roots : List Iri}
    (h : x.setRoots iri roots = .ok d) : P d := by
  obtain ⟨r, -, h⟩ := Except.bind_eq_ok.mp h
  split at h
  · simp at h
  split at h
  · simp at h
  · exact k.edit (light_setRoots roots) k.empty h

end

/-! ## Creation -/

/-- A diff that creates proper resources under newly minted identifiers, and then changes lists. -/
def Makes (x : Execution) (m : Minter) (d : ResourceDiff) (m' : Minter) : Prop :=
  ∃ (rs : List Resource) (is : List Iri), x.Mints m is m' ∧ (rs.map Resource.iri).Perm is ∧
    (∀ r ∈ rs, r.Proper) ∧ Edits x.resources (rs.foldl ResourceDiff.create .empty) d

theorem mints_one (h : x.mint m kind = .ok (iri, m')) : x.Mints m [iri] m' := .cons h (.nil m')

/-- A schema is created by itself. -/
theorem makes_createSchema {attributes : Attributes} (ht : kind.tier = 2)
    (hf : attributesFault? kind attributes = none)
    (h : x.createSchema m kind attributes = (.ok d, m')) : x.Makes m d m' := by
  unfold createSchema at h
  split at h
  · simp at h
  rename_i iri m₁ hm
  obtain ⟨rfl, rfl⟩ : _ = d ∧ _ = m' := by simpa using h
  have htop : ¬ (initial iri kind attributes).links.tier < 2 := by
    rw [Links.tier_of_kinds (k := kind) rfl, ht]
    exact Nat.lt_irrefl 2
  exact ⟨[_], [iri], mints_one hm, .refl _,
    List.forall_mem_singleton.mpr ⟨fun h => absurd h htop, shaped_initial iri hf⟩, .refl⟩

/-- What is in a schema is created, and the schema told of it. -/
theorem makes_createInSchema {attributes : Attributes} {schema : Iri}
    (hf : attributesFault? kind attributes = none)
    (h : x.createInSchema m kind schema attributes = (.ok d, m')) : x.Makes m d m' := by
  unfold createInSchema at h
  split at h
  · simp at h
  split at h
  · simp at h
  rename_i iri m₁ hm
  obtain ⟨hedit, rfl⟩ : _ = Except.ok d ∧ _ = m' := by simpa using h
  exact ⟨[_], [iri], mints_one hm, .refl _,
    List.forall_mem_singleton.mpr
      ⟨Resource.housed_set_schema _ schema, shaped_schemaPart iri schema hf⟩,
    .edit (relists_addPart iri) .refl hedit⟩

/-- An attribute is created, and both its class and its schema told of it. -/
theorem makes_createInClass {attributes : Attributes} {owner : Iri}
    (hf : attributesFault? kind attributes = none)
    (h : x.createInClass m kind owner attributes = (.ok d, m')) : x.Makes m d m' := by
  unfold createInClass at h
  split at h
  · simp at h
  split at h
  · simp at h
  rename_i iri m₁ hm
  obtain ⟨hedit, rfl⟩ : _ = Except.ok d ∧ _ = m' := by simpa using h
  obtain ⟨d₁, hd₁, hedit⟩ := Except.bind_eq_ok.mp hedit
  exact ⟨[_], [iri], mints_one hm, .refl _,
    List.forall_mem_singleton.mpr
      ⟨Resource.housed_set_schema _ _, shaped_classPart iri owner _ hf⟩,
    .edit (relists_addPart iri) (.edit (relists_addPart iri) .refl hd₁) hedit⟩

/-- An association takes three identifiers. -/
theorem mints_mintAssociation {a b c : Iri} (h : x.mintAssociation m = .ok ((a, b, c), m')) :
    x.Mints m [a, b, c] m' := by
  obtain ⟨⟨i₁, m₁⟩, h₁, h⟩ := Except.bind_eq_ok.mp h
  obtain ⟨⟨i₂, m₂⟩, h₂, h⟩ := Except.bind_eq_ok.mp h
  obtain ⟨⟨i₃, m₃⟩, h₃, h⟩ := Except.map_eq_ok.mp h
  obtain ⟨⟨rfl, rfl, rfl⟩, rfl⟩ : (i₁ = a ∧ i₂ = b ∧ i₃ = c) ∧ m₃ = m' := by simpa using h
  exact .cons h₁ (.cons h₂ (mints_one h₃))

/-- An association is created with its two ends, and its schema is told of all three. -/
theorem makes_createAssociation {attributes : Attributes} {schema : Iri}
    (hf : attributesFault? .conceptualAssociation attributes = none)
    (h : x.createAssociation m schema attributes = (.ok d, m')) : x.Makes m d m' := by
  unfold createAssociation at h
  split at h
  · simp at h
  rename_i p q _
  split at h
  · simp at h
  rename_i a b c m₁ hm
  obtain ⟨hedit, rfl⟩ : _ = Except.ok d ∧ _ = m' := by simpa using h
  -- The ends are created before the association, whose identifier is minted first.
  have hperm : [b, c, a].Perm [a, b, c] := @List.perm_append_comm _ [b, c] [a]
  have hend : ∀ i participant, (associationEnd i a schema participant).Proper :=
    fun i participant => ⟨((light_set (k := .range) rfl rfl).akin _).links.housed
      (Resource.housed_set_schema _ schema), shaped_associationEnd i a schema participant⟩
  have hself : (associationOf a schema attributes [b, c]).Proper :=
    ⟨((relists_setParts (fun _ => [b, c])).light.akin _).links.housed
      (Resource.housed_set_schema _ schema), shaped_associationOf a schema [b, c] hf⟩
  exact ⟨[associationEnd b a schema p, associationEnd c a schema q,
    associationOf a schema attributes [b, c]], [a, b, c], mints_mintAssociation hm, hperm,
    by simp [hend, hself], .edit (relists_setParts _) .refl hedit⟩

/-- Whatever is created, the diff has nothing but resources with identifiers that were minted, and
changes of lists. -/
theorem makes_create {owner : Option Iri} {attributes : Attributes}
    (h : x.create m kind owner attributes = (.ok d, m')) : x.Makes m d m' := by
  unfold create at h
  split at h
  · simp at h
  rename_i hf
  split at h
  case h_1 | h_2 => exact makes_createSchema rfl hf h
  case h_3 | h_4 | h_5 | h_6 => simp at h
  case h_7 | h_8 | h_9 => exact makes_createInSchema hf h
  case h_10 | h_11 | h_12 => exact makes_createInClass hf h
  case h_13 => exact makes_createAssociation hf h

/-! ## All operations -/

/-- What keeps a property of diffs gives it to the diff of an operation that creates nothing. -/
theorem kept_run {P : ResourceDiff → Prop} (k : Kept Light x.resources P) {op : Operation}
    (h : x.run m op = (.ok d, m')) (hop : op.tag ≠ .create) : P d ∧ m' = m := by
  cases op with
  | create kind owner attributes => exact absurd rfl hop
  | setAttribute target key value =>
    exact ⟨kept_setAttribute k (congrArg Prod.fst h), (congrArg Prod.snd h).symm⟩
  | setOrder owner moved after =>
    exact ⟨kept_setOrder k (congrArg Prod.fst h), (congrArg Prod.snd h).symm⟩
  | delete target =>
    exact ⟨kept_delete k.relists (congrArg Prod.fst h), (congrArg Prod.snd h).symm⟩
  | setRoots schema roots =>
    exact ⟨kept_setRoots k (congrArg Prod.fst h), (congrArg Prod.snd h).symm⟩

/-- The same is true of the operation that creates. -/
theorem makes_run {op : Operation} (h : x.run m op = (.ok d, m')) (hop : op.tag = .create) :
    x.Makes m d m' := by
  cases op with
  | create kind owner attributes => exact makes_create h
  | _ => simp [Operation.tag] at hop

/-- What a successful operation creates is what it minted identifiers for. -/
theorem mints_of_run {op : Operation} (h : x.run m op = (.ok d, m')) :
    ∃ is, x.Mints m is m' ∧ d.Creates is := by
  by_cases hop : op.tag = .create
  · obtain ⟨rs, is, hmints, hperm, -, hedits⟩ := makes_run h hop
    have hcreates : (rs.foldl ResourceDiff.create .empty).Creates is := fun i =>
      (creates_empty.foldl_create rs i).trans (by rw [List.append_nil, hperm.mem_iff])
    exact ⟨is, hmints, hedits.keep (P := (·.Creates is)) (fun _ h he => h.edit he) hcreates⟩
  · obtain ⟨hd, rfl⟩ := kept_run (kept_creates x.resources) h hop
    exact ⟨[], .nil m', hd⟩

/-- It changes only what is in the store. -/
theorem changesOnly_of_run {op : Operation} (h : x.run m op = (.ok d, m')) :
    d.ChangesOnly x.resources := by
  by_cases hop : op.tag = .create
  · obtain ⟨rs, is, -, -, -, hedits⟩ := makes_run h hop
    refine hedits.keep (P := ChangesOnly x.resources) (fun _ h he => h.edit he) fun i hi => ?_
    rw [changed_foldl_create] at hi
    exact (kept_changesOnly x.resources).empty i hi
  · exact (kept_run (kept_changesOnly x.resources) h hop).1

end Execution

end DataSpec
