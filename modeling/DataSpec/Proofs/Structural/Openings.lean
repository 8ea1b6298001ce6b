import DataSpec.Proofs.Structural.Closed
import DataSpec.Proofs.Text.Segments
import DataSpec.Structural.Range
import Mathlib.Data.List.Dedup
import Mathlib.Data.List.Perm.Subperm

/-!
# What a walk over a model opens

A walk over a model opens classes, or for XML the root classes and the ranges of associations
(`openings`), and keeps the keys of what is open in a list. Such a list is `Stacked` if these
are keys of the model, none of them twice, so it is never longer than the number of different
keys. `Fits` is what has to hold when one more is opened : it is not open, and there is room
below a limit (`Stacked.fits`).
-/

set_option autoImplicit false

namespace DataSpec

/-- Whether one more may be opened : it is not open, and fewer than `limit` are. -/
def Fits (limit : Nat) (stack : List String) (k : String) : Prop :=
  k ∉ stack ∧ stack.length < limit

instance (limit : Nat) (stack : List String) (k : String) : Decidable (Fits limit stack k) :=
  inferInstanceAs (Decidable (_ ∧ _))

/-- Keys out of a list, none of them twice. -/
structure Stacked (keys stack : List String) : Prop where
  nodup : stack.Nodup
  subset : stack ⊆ keys

namespace Stacked

variable {keys stack : List String} {k : String}

theorem nil : Stacked keys [] := ⟨List.nodup_nil, List.nil_subset keys⟩

theorem push (h : Stacked keys stack) (hk : k ∈ keys) (hs : k ∉ stack) :
    Stacked keys (k :: stack) :=
  ⟨List.nodup_cons.mpr ⟨hs, h.nodup⟩, List.cons_subset.mpr ⟨hk, h.subset⟩⟩

theorem length_le (h : Stacked keys stack) : stack.length ≤ keys.dedup.length :=
  (h.nodup.subperm fun _ hk => List.mem_dedup.mpr (h.subset hk)).length_le

/-- What is not open can be opened : there is room for every key. -/
theorem fits {limit : Nat} (h : Stacked keys stack) (hk : k ∈ keys) (hs : k ∉ stack)
    (hl : keys.dedup.length ≤ limit) : Fits limit stack k :=
  ⟨hs, Nat.le_trans (h.push hk hs).length_le hl⟩

end Stacked

/-! ## Keys of ranges -/

/-- Identifiers without blanks can be read off the key of a range. -/
theorem iris_of_rangeKey_eq {cs cs' : List StructuralClass} (hne : cs ≠ []) (hne' : cs' ≠ [])
    (h : ∀ c ∈ cs, ' ' ∉ c.iri.toList) (h' : ∀ c ∈ cs', ' ' ∉ c.iri.toList)
    (heq : rangeKey cs = rangeKey cs') :
    cs.map StructuralClass.iri = cs'.map StructuralClass.iri := by
  have split : ∀ {cs : List StructuralClass}, cs ≠ [] → (∀ c ∈ cs, ' ' ∉ c.iri.toList) →
      (rangeKey cs).toList.splitOn ' ' = (cs.map StructuralClass.iri).map String.toList := by
    intro cs hne h
    rw [rangeKey, Text.toList_join]
    refine List.splitOn_intercalate ' ' ?_ (by simpa using hne)
    simpa using h
  have hlists := split hne h
  rw [heq, split hne' h'] at hlists
  exact (List.map_injective_iff.mpr (fun _ _ => String.toList_injective) hlists).symm

namespace StructuralModel

variable (m : StructuralModel)

/-! ## Classes -/

/-- The identifiers of the classes. -/
def classKeys : List Iri := m.classes.values.map StructuralClass.iri

variable {m}

theorem mem_classKeys (c : m.Member) : c.val.iri ∈ m.classKeys := List.mem_map_of_mem c.property

theorem length_dedup_classKeys_le : m.classKeys.dedup.length ≤ m.classes.size := by
  have h := (List.dedup_sublist m.classKeys).length_le
  have hsize : m.classKeys.length = m.classes.size := by
    simp [classKeys, SortedMap.values, SortedMap.size]
  rwa [hsize] at h

/-! ## Root classes and ranges -/

variable (m) in
/-- The classes to which a property leads, if it leads to any. -/
def rangeClasses? (p : StructuralProperty) : Option (List StructuralClass) :=
  if p.classes.isEmpty then none else (m.members p.classes).toOption.map classList

variable (m) in
/-- What is opened together : a root class, or the classes of a range. -/
def openings : List (List StructuralClass) :=
  (m.roots.filterMap fun iri => (m.class? iri).map fun c => [c]) ++
    m.properties.filterMap m.rangeClasses?

variable (m) in
/-- The keys of all that is opened. -/
def openKeys : List String := m.openings.map rangeKey

theorem exists_of_mem_members {c : m.Member} :
    ∀ {iris : List Iri} {cs : List m.Member}, m.members iris = .ok cs → c ∈ cs →
      ∃ iri ∈ iris, m.member iri = .ok c
  | [], cs, h, hc => by
    obtain rfl : [] = cs := Except.ok.inj h
    simp at hc
  | iri :: rest, cs, h, hc => by
    rw [members] at h
    split at h
    · simp at h
    · rename_i c' hc'
      obtain ⟨cs', hrest, rfl⟩ := Except.map_eq_ok.mp h
      rcases List.mem_cons.mp hc with rfl | hc
      · exact ⟨iri, List.mem_cons_self, hc'⟩
      · obtain ⟨iri', hmem, hiri'⟩ := exists_of_mem_members hrest hc
        exact ⟨iri', List.mem_cons_of_mem _ hmem, hiri'⟩

theorem mem_openings_of_member {c : m.Member} {iri : Iri} (hiri : iri ∈ m.roots)
    (h : m.member iri = .ok c) : [c.val] ∈ m.openings := by
  refine List.mem_append_left _ (List.mem_filterMap.mpr ⟨iri, hiri, ?_⟩)
  rw [class?_of_member h]
  rfl

theorem mem_openings_of_root {c : m.Member} {cs : List m.Member}
    (h : m.members m.roots = .ok cs) (hc : c ∈ cs) : [c.val] ∈ m.openings := by
  obtain ⟨iri, hiri, hmember⟩ := exists_of_mem_members h hc
  exact mem_openings_of_member hiri hmember

theorem members_of_rangeOf {p : m.Feature} {r : m.Range} (h : rangeOf p = .ok r) :
    m.members p.val.classes = .ok r.val := by
  unfold rangeOf at h
  split at h
  · simp at h
  · obtain rfl := Except.ok.inj h
    assumption

theorem rangeOf_of_members {p : m.Feature} {cs : List m.Member}
    (h : m.members p.val.classes = .ok cs) (hcs : rangeKey (classList cs) ∈ m.rangeKeys) :
    rangeOf p = .ok ⟨cs, hcs⟩ := by
  unfold rangeOf
  split
  · rename_i hmembers
    simp [h] at hmembers
  · rename_i cs' hmembers
    obtain rfl := Except.ok.inj (h.symm.trans hmembers)
    rfl

/-- A property whose range is one of classes leads to some. -/
theorem classes_ne_nil_of_range {p : StructuralProperty} {iris : List Iri}
    (h : p.range = .ok (.classes iris)) : p.classes ≠ [] := by
  unfold StructuralProperty.range at h
  split at h
  · simp at h
  · simp at h
  · rename_i hnil
    exact hnil
  · simp at h

theorem mem_openings_of_rangeOf {p : m.Feature} {iris : List Iri} {r : m.Range}
    (hp : p.val.range = .ok (.classes iris)) (h : rangeOf p = .ok r) :
    classList r.val ∈ m.openings := by
  refine List.mem_append_right _ (List.mem_filterMap.mpr ⟨p.val, p.property, ?_⟩)
  have hne := classes_ne_nil_of_range hp
  simp [rangeClasses?, hne, members_of_rangeOf h, Except.toOption]

/-- What is opened together is a root class, or the classes to which a property leads. -/
theorem exists_of_mem_openings {cs : List StructuralClass} (h : cs ∈ m.openings) :
    (∃ iri ∈ m.roots, ∃ c, m.class? iri = some c ∧ cs = [c]) ∨
      ∃ p ∈ m.properties, p.classes ≠ [] ∧ ∃ ms, m.members p.classes = .ok ms ∧
        cs = classList ms := by
  refine (List.mem_append.mp h).imp (fun h => ?_) fun h => ?_
  · obtain ⟨iri, hiri, hcs⟩ := List.mem_filterMap.mp h
    obtain ⟨c, hc, rfl⟩ := Option.map_eq_some_iff.mp hcs
    exact ⟨iri, hiri, c, hc, rfl⟩
  · obtain ⟨p, hp, hcs⟩ := List.mem_filterMap.mp h
    unfold rangeClasses? at hcs
    split at hcs
    · simp at hcs
    · rename_i hne
      obtain ⟨ms, hms, rfl⟩ := Option.map_eq_some_iff.mp hcs
      cases hmembers : m.members p.classes with
      | error e => simp [hmembers, Except.toOption] at hms
      | ok ms' =>
        obtain rfl : ms' = ms := by simpa [hmembers, Except.toOption] using hms
        exact ⟨p, hp, by simpa using hne, ms', hmembers, rfl⟩

theorem ne_nil_of_members {iris : List Iri} {ms : List m.Member} (h : m.members iris = .ok ms)
    (hne : iris ≠ []) : ms ≠ [] := by
  rcases iris with _ | ⟨iri, rest⟩
  · exact absurd rfl hne
  · rw [members] at h
    split at h
    · simp at h
    · obtain ⟨ms', -, rfl⟩ := Except.map_eq_ok.mp h
      exact List.cons_ne_nil _ ms'

/-- There is something in all that is opened. -/
theorem ne_nil_of_mem_openings {cs : List StructuralClass} (h : cs ∈ m.openings) : cs ≠ [] := by
  rcases exists_of_mem_openings h with ⟨iri, -, c, -, rfl⟩ | ⟨p, -, hne, ms, hms, rfl⟩
  · exact List.cons_ne_nil c []
  · exact fun h => ne_nil_of_members hms hne (List.map_eq_nil_iff.mp h)

end StructuralModel

end DataSpec
