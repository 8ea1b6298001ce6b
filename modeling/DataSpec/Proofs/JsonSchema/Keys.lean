import DataSpec.Proofs.JsonSchema.Members
import DataSpec.Proofs.Text.Digests
import Mathlib.Data.Finset.Card
import Mathlib.Data.List.Dedup
import Mathlib.Data.List.Infix

/-!
# Keys of definitions

A class that is met inside itself gets a key for its definition when it is first met : its
label, or, if another class has that key, the label and a part of the checksum of its
identifier (`StructuralClass.longName`). Which classes are met inside themselves, and in which
order, does not depend on the keys : `metInside` lists them as a walk over the model finds
them, and `keysOf` gives them keys in that order.

Only the label is looked up among the keys that are taken. So two classes have the same key
exactly if one of them finds both of its names taken (`Unclashed`), which some order of the
same classes brings about exactly if a third class has the label and the second one the long
name (`unclashed_iff_tame`). Then the definition of the one is lost (`distinct_draft_iff`).
-/

set_option autoImplicit false
set_option linter.unusedSectionVars false

namespace DataSpec

/-- The name of the definition of a class whose label is taken. -/
def StructuralClass.longName (c : StructuralClass) : String :=
  c.name ++ "-" ++ (Checksum.ofText c.iri).short JsonSchema.Naming.hashLength

/-! ## Long names -/

namespace StructuralClass

variable {c c' : StructuralClass}

theorem toList_longName (c : StructuralClass) : c.longName.toList = c.name.toList ++
    ('-' :: ((Checksum.ofText c.iri).short JsonSchema.Naming.hashLength).toList) := by
  simp [longName]

theorem longName_ne_name (c : StructuralClass) : c.longName ≠ c.name := by
  intro h
  have hlength := congrArg (fun s => s.toList.length) h
  simp [toList_longName] at hlength

/-- A long name tells the label. -/
theorem name_eq_of_longName_eq (h : c.longName = c'.longName) : c.name = c'.name :=
  Checksum.append_short_inj_left (by decide) h

end StructuralClass

namespace JsonSchema

/-! ## Keys in the order in which they are given -/

/-- The key of a class that comes after others. -/
def keyAfter (taken : List String) (c : StructuralClass) : String :=
  if c.name ∈ taken then c.longName else c.name

/-- Give a class a key, unless it has one. -/
def giveKey (keyed : List (Iri × String)) (c : StructuralClass) : List (Iri × String) :=
  if c.iri ∈ keyed.map Prod.fst then keyed
  else keyed ++ [(c.iri, keyAfter (keyed.map Prod.snd) c)]

/-- The classes that are met one after the other, with their keys. -/
def keysOf (l : List StructuralClass) : List (Iri × String) := l.foldl giveKey []

/-- The keys that classes have after they were met. -/
def taken (l : List StructuralClass) : List String := (keysOf l).map Prod.snd

/-- Whether a class that was not met before finds both of its names taken. -/
def Clash (before : List StructuralClass) (c : StructuralClass) : Prop :=
  c.iri ∉ before.map StructuralClass.iri ∧ c.name ∈ taken before ∧ c.longName ∈ taken before

/-- Whether no class finds both of its names taken by classes that were met before it. -/
def Unclashed (l : List StructuralClass) : Prop :=
  ∀ before c, before ++ [c] <+: l → ¬ Clash before c

/-- Whether of three classes, of which one has the label of another, the third has neither the
long name of that one for its label nor the same long name. -/
def Tame (l : List StructuralClass) : Prop :=
  ∀ a ∈ l, ∀ b ∈ l, ∀ c ∈ l, a.iri ≠ b.iri → a.iri ≠ c.iri → b.iri ≠ c.iri → a.name = c.name →
    b.name ≠ c.longName ∧ b.longName ≠ c.longName

variable {l before : List StructuralClass} {a b c : StructuralClass} {iri : Iri} {name : String}

theorem keysOf_concat (l : List StructuralClass) (c : StructuralClass) :
    keysOf (l ++ [c]) = giveKey (keysOf l) c := List.foldl_concat ..

/-- The classes that have keys are those that were met. -/
theorem map_fst_keysOf (l : List StructuralClass) :
    ((keysOf l).map Prod.fst).Nodup ∧
      ∀ iri, iri ∈ (keysOf l).map Prod.fst ↔ iri ∈ l.map StructuralClass.iri := by
  induction l using List.reverseRecOn with
  | nil => exact ⟨List.nodup_nil, fun iri => Iff.rfl⟩
  | append_singleton l c ih =>
    obtain ⟨hnodup, hmem⟩ := ih
    rw [keysOf_concat, giveKey]
    split
    · rename_i hc
      refine ⟨hnodup, fun iri => ?_⟩
      rw [hmem, List.map_append, List.mem_append, List.map_singleton, List.mem_singleton]
      refine ⟨Or.inl, fun h => h.elim (fun h => h) ?_⟩
      rintro rfl
      exact (hmem _).mp hc
    · rename_i hc
      rw [List.map_append, List.map_singleton, List.map_append, List.map_singleton]
      refine ⟨?_, fun iri => ?_⟩
      · rw [← List.concat_eq_append]
        exact hnodup.concat hc
      · rw [List.mem_append, List.mem_append, hmem]

/-- What meeting another class does to the keys. -/
theorem keysOf_concat_cases (l : List StructuralClass) (c : StructuralClass) :
    (c.iri ∈ l.map StructuralClass.iri ∧ keysOf (l ++ [c]) = keysOf l) ∨
      (c.iri ∉ l.map StructuralClass.iri ∧
        keysOf (l ++ [c]) = keysOf l ++ [(c.iri, keyAfter (taken l) c)]) := by
  rw [keysOf_concat, giveKey, ← (map_fst_keysOf l).2]
  split
  · exact Or.inl ⟨‹_›, rfl⟩
  · exact Or.inr ⟨‹_›, rfl⟩

theorem mem_keysOf_inj {name' : String} (h : (iri, name) ∈ keysOf l)
    (h' : (iri, name') ∈ keysOf l) : name = name' :=
  congrArg Prod.snd (List.inj_on_of_nodup_map (map_fst_keysOf l).1 h h' rfl)

theorem keyAfter_mem_iff {names : List String} :
    keyAfter names c ∈ names ↔ c.name ∈ names ∧ c.longName ∈ names := by
  by_cases h : c.name ∈ names <;> simp [keyAfter, h]

theorem unclashed_concat :
    Unclashed (l ++ [c]) ↔ Unclashed l ∧ ¬ Clash l c := by
  constructor
  · intro h
    exact ⟨fun before d hd => h before d (hd.trans (List.prefix_append l [c])),
      h l c (List.prefix_refl _)⟩
  · rintro ⟨hl, hc⟩ before d hd
    rcases List.prefix_concat_iff.mp hd with heq | hd
    · obtain ⟨rfl, hdc⟩ := List.append_inj' heq rfl
      obtain rfl := List.singleton_inj.mp hdc
      exact hc
    · exact hl before d hd

/-- Keys are different if and only if no class finds both of its names taken. -/
theorem nodup_taken_iff (l : List StructuralClass) : (taken l).Nodup ↔ Unclashed l := by
  induction l using List.reverseRecOn with
  | nil =>
    refine iff_of_true List.nodup_nil fun before c h => ?_
    simp at h
  | append_singleton l c ih =>
    rw [unclashed_concat, ← ih, Clash]
    obtain ⟨hc, heq⟩ | ⟨hc, heq⟩ := keysOf_concat_cases l c
    · rw [taken, heq]
      exact (and_iff_left fun hclash => hclash.1 hc).symm
    · have hkeys : taken (l ++ [c]) = (taken l).concat (keyAfter (taken l) c) := by
        rw [taken, heq, List.map_append, List.concat_eq_append]
        rfl
      rw [hkeys, List.nodup_concat, keyAfter_mem_iff, and_comm, and_iff_right hc]

/-! ## All orders -/

/-- A class has a key for its label, or for its long name because of another class of the same
label. -/
def Explained (l : List StructuralClass) (e : Iri × String) : Prop :=
  ∃ x ∈ l, x.iri = e.1 ∧
    (x.name = e.2 ∨ x.longName = e.2 ∧ ∃ y ∈ l, y.iri ≠ x.iri ∧ y.name = x.name)

theorem Explained.mono {l l' : List StructuralClass} {e : Iri × String} (hl : l ⊆ l')
    (h : Explained l e) : Explained l' e := by
  obtain ⟨x, hx, hiri, hkey⟩ := h
  refine ⟨x, hl hx, hiri, hkey.imp_right fun ⟨hlong, y, hy, hne, hname⟩ => ?_⟩
  exact ⟨hlong, y, hl hy, hne, hname⟩

theorem Tame.mono {l l' : List StructuralClass} (hl : l ⊆ l') (h : Tame l') : Tame l :=
  fun a ha b hb c hc => h a (hl ha) b (hl hb) c (hl hc)

theorem iri_ne_of_not_met (hc : c.iri ∉ l.map StructuralClass.iri) (ha : a ∈ l) :
    a.iri ≠ c.iri := fun heq => hc (heq ▸ List.mem_map_of_mem ha)

/-- Among tame classes, the label of a new class can only be taken by one with that label. -/
theorem exists_of_name_taken (ht : Tame (l ++ [c])) (hc : c.iri ∉ l.map StructuralClass.iri)
    (he : Explained l (iri, c.name)) : ∃ x ∈ l, x.iri = iri ∧ x.name = c.name := by
  have hmem : ∀ x ∈ l, x ∈ l ++ [c] := fun x => List.mem_append_left [c]
  obtain ⟨x, hx, hiri, hname | ⟨hlong, y, hy, hyx, hname⟩⟩ := he
  · exact ⟨x, hx, hiri, hname⟩
  · have htame := ht y (hmem y hy) c List.mem_concat_self x (hmem x hx)
      (iri_ne_of_not_met hc hy) hyx (iri_ne_of_not_met hc hx).symm hname
    exact absurd hlong.symm htame.1

theorem explained_keysOf (ht : Tame l) : ∀ e ∈ keysOf l, Explained l e := by
  induction l using List.reverseRecOn with
  | nil => exact fun e he => absurd he List.not_mem_nil
  | append_singleton l c ih =>
    have hsub : l ⊆ l ++ [c] := List.subset_append_left l [c]
    have ih := ih (ht.mono hsub)
    obtain ⟨-, heq⟩ | ⟨hc, heq⟩ := keysOf_concat_cases l c <;> rw [heq]
    · exact fun e he => (ih e he).mono hsub
    · refine List.forall_mem_append.mpr ⟨fun e he => (ih e he).mono hsub, ?_⟩
      refine List.forall_mem_singleton.mpr ⟨c, List.mem_concat_self, rfl, ?_⟩
      simp only [keyAfter]
      split
      · rename_i hname
        obtain ⟨⟨iri, name⟩, he, rfl⟩ := List.mem_map.mp hname
        obtain ⟨y, hy, -, hyname⟩ := exists_of_name_taken ht hc (ih _ he)
        exact Or.inr ⟨rfl, y, hsub hy, iri_ne_of_not_met hc hy, hyname⟩
      · exact Or.inl rfl

/-- None of several tame classes finds both of its names taken. -/
theorem Tame.unclashed (ht : Tame l) : Unclashed l := by
  rintro before c hprefix ⟨hc, hname, hlong⟩
  have ht' : Tame (before ++ [c]) := ht.mono hprefix.subset
  have hexplained := explained_keysOf (ht'.mono (List.subset_append_left before [c]))
  have hmem : ∀ x ∈ before, x ∈ before ++ [c] := fun x => List.mem_append_left [c]
  obtain ⟨⟨iri, name⟩, he, rfl⟩ := List.mem_map.mp hname
  obtain ⟨a, ha, rfl, haname⟩ := exists_of_name_taken ht' hc (hexplained _ he)
  obtain ⟨⟨iri', name'⟩, he', rfl⟩ := List.mem_map.mp hlong
  obtain ⟨b, hb, rfl, hbname | ⟨hblong, y, hy, hyb, hyname⟩⟩ := hexplained _ he'
  -- The long name is the label of `b`.
  · have hab : a.iri ≠ b.iri := by
      intro heq
      rw [← heq] at he'
      exact c.longName_ne_name (mem_keysOf_inj he' he)
    have htame := ht' a (hmem a ha) b (hmem b hb) c List.mem_concat_self hab
      (iri_ne_of_not_met hc ha) (iri_ne_of_not_met hc hb) haname
    exact htame.1 hbname
  -- It is the long name of `b`, which therefore has the label of `c`, as `y` has.
  · have hcname := StructuralClass.name_eq_of_longName_eq hblong
    have htame := ht' y (hmem y hy) b (hmem b hb) c List.mem_concat_self hyb
      (iri_ne_of_not_met hc hy) (iri_ne_of_not_met hc hb) (hyname.trans hcname)
    exact htame.2 hblong

/-- No class finds both of its names taken, in whichever order and however often the same
classes are met, if and only if they are tame. -/
theorem unclashed_iff_tame :
    (∀ l', (∀ c, c ∈ l' ↔ c ∈ l) → Unclashed l') ↔ Tame l := by
  constructor
  · intro h a ha b hb c hc hab hac hbc hname
    -- Any clash of the three shows when they are met first, `c` after the others.
    have hsame : ∀ d, d ∈ [a, b, c] ++ l ↔ d ∈ l := by
      intro d
      simp only [List.mem_append, List.mem_cons, List.not_mem_nil, or_false]
      refine ⟨?_, Or.inr⟩
      rintro ((rfl | rfl | rfl) | hd) <;> assumption
    have hclash : ¬ Clash [a, b] c := h _ hsame [a, b] c ⟨l, rfl⟩
    have hkeys : taken [a, b] = [a.name, keyAfter [a.name] b] := by
      simp [taken, keysOf, giveKey, keyAfter, hab.symm]
    have hlong : c.longName ≠ keyAfter [a.name] b := by
      intro heq
      refine hclash ⟨?_, ?_, ?_⟩
      · simp [hac.symm, hbc.symm]
      · simp [hkeys, hname]
      · simp [hkeys, heq]
    constructor
    · intro hb
      have hba : b.name ∉ [a.name] := by
        rw [List.mem_singleton, hb, hname]
        exact c.longName_ne_name
      rw [keyAfter, if_neg hba] at hlong
      exact hlong hb.symm
    · intro hb
      have hba : b.name ∈ [a.name] := by
        rw [List.mem_singleton, hname, StructuralClass.name_eq_of_longName_eq hb]
      rw [keyAfter, if_pos hba] at hlong
      exact hlong hb.symm
  · exact fun ht l' hl' => (ht.mono fun d => (hl' d).mp).unclashed

/-! ## Classes that are met inside themselves -/

section Model

variable (p : Publication) (m : StructuralModel)

/-- The classes that are met inside themselves where a class is written, `stack` being the
classes that are open. -/
def metInside (stack : List Iri) (key : Iri) : List StructuralClass :=
  match m.member key with
  | .error _ => []
  | .ok c =>
    if c.val.isCodelist || (elsewhere? p m c.val).isSome then []
    else if _h : c.val.iri ∈ stack then [c.val]
    else c.val.properties.flatMap fun q => q.classes.flatMap (metInside (c.val.iri :: stack))
termination_by m.closedCount stack
decreasing_by exact StructuralModel.closedCount_cons_lt c.property ‹_›

/-- The classes that are met inside themselves while the schema of a model is written. -/
def metAgain : List StructuralClass := m.roots.flatMap (metInside p m [])

/-- Whether a definition is that of the objects of a class. -/
def ObjectsOf (c : StructuralClass) (d : Definition Reference) : Prop :=
  ∃ ps, d = ofClass p c (.object ps (requiredNames c.properties)) ∧ ps.map Prod.fst = c.names

/-- What is known while classes are open, `l` having been met inside themselves. -/
structure Noted (stack : List Iri) (l : List StructuralClass) (s : Naming) : Prop where
  names : ∀ {iri name}, s.names.get? iri = some name ↔ (iri, name) ∈ keysOf l
  recursive : ∀ {iri}, s.recursive.contains iri = true ↔ iri ∈ l.map StructuralClass.iri
  defined : ∀ {iri name}, s.names.get? iri = some name →
    iri ∈ stack ∨ s.defs.contains name = true
  defs : ∀ {name d}, s.defs.get? name = some d →
    ∃ c ∈ m.classes.values, s.names.get? c.iri = some name ∧ ObjectsOf p c d

end Model

variable {p : Publication} {m : StructuralModel} {stack : List Iri} {s s' : Naming}
  {d d' : Definition Reference}

theorem noted_empty : Noted p m [] [] .empty where
  names := ⟨nofun, nofun⟩
  recursive := ⟨nofun, nofun⟩
  defined := nofun
  defs := nofun

theorem Noted.contains_names (hs : Noted p m stack l s) :
    s.names.contains iri = true ↔ iri ∈ l.map StructuralClass.iri := by
  rw [SortedMap.contains_iff, ← (map_fst_keysOf l).2, List.mem_map]
  constructor
  · rintro ⟨name, hname⟩
    exact ⟨(iri, name), hs.names.mp hname, rfl⟩
  · rintro ⟨⟨_, name⟩, he, rfl⟩
    exact ⟨name, hs.names.mpr he⟩

/-- Classes have keys exactly if they were met inside themselves. -/
theorem Noted.recursive_iff (hs : Noted p m stack l s) :
    s.recursive.contains iri = true ↔ ∃ name, s.names.get? iri = some name := by
  rw [hs.recursive, ← hs.contains_names, SortedMap.contains_iff]

theorem Noted.freshName (hs : Noted p m stack l s) (c : StructuralClass) :
    s.freshName c = keyAfter (taken l) c := by
  have htaken : s.names.values.contains c.name = true ↔ c.name ∈ taken l := by
    rw [List.contains_iff_mem, SortedMap.mem_values_iff, taken, List.mem_map]
    constructor
    · rintro ⟨iri, hname⟩
      exact ⟨(iri, c.name), hs.names.mp hname, rfl⟩
    · rintro ⟨⟨iri, name⟩, he, rfl⟩
      exact ⟨iri, hs.names.mpr he⟩
  unfold Naming.freshName keyAfter
  simp only [htaken]
  rfl

theorem refer_eq_of_some (h : s.names.get? c.iri = some name) :
    s.refer c = (Naming.localRef name, { s with recursive := s.recursive.add c.iri }) := by
  simp [Naming.refer, Naming.nameOf, h]

theorem refer_eq_of_none (h : s.names.get? c.iri = none) :
    s.refer c = (Naming.localRef (s.freshName c),
      { s with
        recursive := s.recursive.add c.iri
        names := s.names.insert c.iri (s.freshName c) }) := by
  simp only [Naming.refer, Naming.nameOf, h]
  rfl

/-- Meeting an open class. -/
theorem Noted.refer (hs : Noted p m stack l s) (hc : c.iri ∈ stack)
    (h : s.refer c = (d, s')) : Noted p m stack (l ++ [c]) s' := by
  have hrecursive : ∀ {iri}, (SortedSet.add s.recursive c.iri).contains iri = true ↔
      iri ∈ (l ++ [c]).map StructuralClass.iri := by
    intro iri
    rw [SortedSet.contains_add, Bool.or_eq_true, decide_eq_true_eq, hs.recursive, List.map_append,
      List.mem_append, List.map_singleton, List.mem_singleton, or_comm]
  obtain ⟨hold, hkeys⟩ | ⟨hnew, hkeys⟩ := keysOf_concat_cases l c
  · obtain ⟨name, hname⟩ := SortedMap.contains_iff.mp (hs.contains_names.mpr hold)
    rw [refer_eq_of_some hname] at h
    obtain ⟨rfl, rfl⟩ := Prod.mk.inj h
    exact ⟨by rw [hkeys]; exact hs.names, hrecursive, hs.defined, hs.defs⟩
  · have hnone : s.names.get? c.iri = none := SortedMap.contains_eq_false_iff.mp
      (Bool.eq_false_iff.mpr fun h => hnew (hs.contains_names.mp h))
    rw [refer_eq_of_none hnone] at h
    obtain ⟨rfl, rfl⟩ := Prod.mk.inj h
    refine ⟨fun {iri name} => ?_, hrecursive, fun {iri name} hname => ?_, fun {name d} hd => ?_⟩
    · rw [hkeys, List.mem_append, ← hs.names, List.mem_singleton, ← hs.freshName,
        SortedMap.get?_insert]
      split
      · subst iri
        simpa [hnone] using eq_comm
      · rename_i hne
        exact ⟨Or.inl, fun h => h.resolve_right fun heq => hne (congrArg Prod.fst heq)⟩
    · rw [SortedMap.get?_insert] at hname
      split at hname
      · rename_i heq
        exact Or.inl (heq ▸ hc)
      · exact hs.defined hname
    · obtain ⟨c', hc', hname, hd⟩ := hs.defs hd
      refine ⟨c', hc', ?_, hd⟩
      rw [SortedMap.get?_insert, if_neg]
      · exact hname
      · intro heq
        simp [heq, hnone] at hname

/-- Closing a class, which has a key if it was met inside itself. -/
theorem Noted.close (hs : Noted p m (c.iri :: stack) l s) (hc : c ∈ m.classes.values)
    (hd : ObjectsOf p c d) (h : s.close c d = (d', s')) : Noted p m stack l s' := by
  unfold Naming.close at h
  split at h
  · rename_i hrec
    obtain ⟨name, hname⟩ := hs.recursive_iff.mp hrec
    simp only [Naming.nameOf, hname] at h
    obtain ⟨rfl, rfl⟩ := Prod.mk.inj h
    refine ⟨hs.names, hs.recursive, fun {iri name'} hi => ?_, fun {name' e} he => ?_⟩
    · by_cases hci : iri = c.iri
      · subst hci
        obtain rfl := Option.some.inj (hname.symm.trans hi)
        exact Or.inr (by simp)
      · refine (hs.defined hi).imp (fun hmem => (List.mem_cons.mp hmem).resolve_left hci) ?_
        intro hdefined
        simp [hdefined]
    · rw [SortedMap.get?_insert] at he
      split at he
      · subst name'
        obtain rfl := Option.some.inj he
        exact ⟨c, hc, hname, hd⟩
      · exact hs.defs he
  · rename_i hrec
    obtain ⟨rfl, rfl⟩ := Prod.mk.inj h
    refine ⟨hs.names, hs.recursive, fun {iri name} hi => ?_, hs.defs⟩
    refine (hs.defined hi).imp_left fun hmem => (List.mem_cons.mp hmem).resolve_left ?_
    rintro rfl
    exact hrec (hs.recursive_iff.mpr ⟨name, hi⟩)

theorem classes_eq_nil {q : StructuralProperty} {iris : List (Option Iri)}
    (h : q.range = .ok (.datatypes iris)) : q.classes = [] := by
  unfold StructuralProperty.range at h
  split at h
  · simp at h
  · simp at h
  · simp at h
  · assumption

/-- An opening of classes that meets some of them inside themselves. -/
def Notes (p : Publication) (m : StructuralModel) (opening : Opening) (stack : List Iri)
    (inside : Iri → List StructuralClass) : Prop :=
  ∀ ⦃l s key d s'⦄, Noted p m stack l s → opening s key = .ok (d, s') →
    Noted p m stack (l ++ inside key) s'

section Steps

variable {opening : Opening} {inside : Iri → List StructuralClass}
  (ho : Notes p m opening stack inside)
include ho

theorem noted_classesWith {keys : List Iri} {ds : List (Definition Reference)}
    (hs : Noted p m stack l s) (h : classesWith opening s keys = .ok (ds, s')) :
    Noted p m stack (l ++ keys.flatMap inside) s' := by
  induction keys generalizing l s ds with
  | nil =>
    obtain ⟨rfl, rfl⟩ := Prod.mk.inj (Except.ok.inj h)
    simpa using hs
  | cons key rest ih =>
    obtain ⟨⟨d, s₁⟩, hd, h⟩ := Except.bind_eq_ok.mp h
    obtain ⟨⟨ds', s₂⟩, hds, h⟩ := Except.bind_eq_ok.mp h
    obtain ⟨rfl, rfl⟩ := Prod.mk.inj (Except.ok.inj h)
    rw [List.flatMap_cons, ← List.append_assoc]
    exact ih (ho hs hd) hds

theorem noted_valuesWith {q : StructuralProperty} {r : PropertyRange} (hr : q.range = .ok r)
    {ds : List (Definition Reference)} (hs : Noted p m stack l s)
    (h : valuesWith opening s r = .ok (ds, s')) :
    Noted p m stack (l ++ q.classes.flatMap inside) s' := by
  cases r with
  | datatypes iris =>
    obtain ⟨rfl, rfl⟩ := Prod.mk.inj (Except.ok.inj h)
    simpa [classes_eq_nil hr] using hs
  | classes iris =>
    rw [← StructuralModel.range_eq_classes hr]
    exact noted_classesWith ho hs h

theorem noted_propertiesWith {qs : List StructuralProperty}
    {ps : List (String × Definition Reference)} (hs : Noted p m stack l s)
    (h : propertiesWith p opening s qs = .ok (ps, s')) :
    ps.map Prod.fst = qs.map StructuralProperty.name ∧
      Noted p m stack (l ++ qs.flatMap fun q => q.classes.flatMap inside) s' := by
  induction qs generalizing l s ps with
  | nil =>
    obtain ⟨rfl, rfl⟩ := Prod.mk.inj (Except.ok.inj h)
    exact ⟨rfl, by simpa using hs⟩
  | cons q rest ih =>
    obtain ⟨r, hr, h⟩ := Except.bind_eq_ok.mp h
    obtain ⟨⟨ds, s₁⟩, hds, h⟩ := Except.bind_eq_ok.mp h
    obtain ⟨⟨ps', s₂⟩, hps, h⟩ := Except.bind_eq_ok.mp h
    obtain ⟨rfl, rfl⟩ := Prod.mk.inj (Except.ok.inj h)
    obtain ⟨hnames, hs₂⟩ := ih (noted_valuesWith ho hr hs hds) hps
    rw [List.flatMap_cons, ← List.append_assoc]
    exact ⟨congrArg (q.name :: ·) hnames, hs₂⟩

end Steps

/-- Where a class is written, the classes that are listed are met inside themselves. -/
theorem notes_defineClass (stack : List Iri) :
    Notes p m (defineClass p m stack) stack (metInside p m stack) := by
  intro l s key d s' hs h
  rw [defineClass_eq] at h
  obtain ⟨c, hc, h⟩ := Except.bind_eq_ok.mp h
  rw [metInside, hc]
  simp only
  split at h
  · rename_i hl
    obtain ⟨rfl, rfl⟩ := Prod.mk.inj (Except.ok.inj h)
    simpa [hl] using hs
  · rename_i hl
    split at h
    · rename_i he
      obtain ⟨rfl, rfl⟩ := Prod.mk.inj (Except.ok.inj h)
      simpa [he] using hs
    · rename_i he
      rw [if_neg (by simp [hl, he])]
      simp only at h
      split at h
      · rename_i hstack
        rw [dif_pos hstack]
        exact hs.refer hstack (Except.ok.inj h)
      · rename_i hstack
        rw [dif_neg hstack]
        obtain ⟨⟨ps, s₁⟩, hps, hclose⟩ := Except.map_eq_ok.mp h
        -- Opening a class asks for less : its key need not be defined yet.
        have hs₀ : Noted p m (c.val.iri :: stack) l s :=
          ⟨hs.names, hs.recursive, fun hi => (hs.defined hi).imp_left (List.mem_cons_of_mem _),
            hs.defs⟩
        obtain ⟨hnames, hs₁⟩ :=
          noted_propertiesWith (notes_defineClass (c.val.iri :: stack)) hs₀ hps
        exact hs₁.close c.property ⟨ps, rfl, hnames⟩ hclose
termination_by m.closedCount stack
decreasing_by exact StructuralModel.closedCount_cons_lt c.property ‹_›

/-- What is known in the end of the classes that were met inside themselves. -/
theorem noted_draft {schema : JsonSchema Reference} (h : draft p m = .ok (schema, s)) :
    Noted p m [] (metAgain p m) s ∧ schema.defs = s.defs := by
  obtain ⟨-, -, h⟩ := Except.bind_eq_ok.mp h
  obtain ⟨⟨roots, s'⟩, hroots, h⟩ := Except.bind_eq_ok.mp h
  obtain ⟨rfl, rfl⟩ := Prod.mk.inj (Except.ok.inj h)
  rw [defineClasses_eq] at hroots
  have hs := noted_classesWith (notes_defineClass []) noted_empty hroots
  exact ⟨by simpa [metAgain] using hs, rfl⟩

/-! ## Keys that are different -/

/-- The classes that were met inside themselves have different keys exactly if none of them
found both of its names taken. -/
theorem distinct_iff_unclashed (hs : Noted p m [] l s) : s.Distinct ↔ Unclashed l := by
  have hpairs : (keysOf l).Nodup := (map_fst_keysOf l).1.of_map
  rw [← nodup_taken_iff, taken, List.nodup_map_iff_inj_on hpairs]
  constructor
  · rintro hd ⟨iri, name⟩ he ⟨iri', name'⟩ he' heq
    obtain rfl : name = name' := heq
    have hi := hs.names.mpr he
    have hi' := hs.names.mpr he'
    obtain rfl := hd (hs.recursive_iff.mpr ⟨_, hi⟩) (hs.recursive_iff.mpr ⟨_, hi'⟩) hi hi'
    rfl
  · intro h iri iri' name _ _ hi hi'
    exact congrArg Prod.fst (h _ (hs.names.mp hi) _ (hs.names.mp hi') rfl)

/-- They have different keys exactly if there are as many definitions as there are of them. -/
theorem distinct_iff_length_eq (hs : Noted p m [] l s) :
    s.Distinct ↔ s.defs.keys.length = s.recursive.keys.length := by
  have hkey : ∀ {iri}, iri ∈ s.recursive.keys.toFinset →
      s.names.get? iri = some ((s.names.get? iri).getD "") := by
    intro iri hiri
    rw [List.mem_toFinset, SortedMap.mem_keys_iff, hs.recursive_iff] at hiri
    obtain ⟨name, hname⟩ := hiri
    rw [hname, Option.getD_some]
  -- The definitions have the keys of the classes, so there are as many of them as different keys.
  have himage : s.defs.keys.toFinset =
      s.recursive.keys.toFinset.image fun iri => (s.names.get? iri).getD "" := by
    ext name
    rw [List.mem_toFinset, SortedMap.mem_keys_iff, Finset.mem_image]
    constructor
    · intro hname
      obtain ⟨d, hd⟩ := SortedMap.contains_iff.mp hname
      obtain ⟨c, -, hname, -⟩ := hs.defs hd
      refine ⟨c.iri, ?_, by rw [hname, Option.getD_some]⟩
      rw [List.mem_toFinset, SortedMap.mem_keys_iff, hs.recursive_iff]
      exact ⟨name, hname⟩
    · rintro ⟨iri, hiri, rfl⟩
      exact (hs.defined (hkey hiri)).resolve_left List.not_mem_nil
  rw [← List.toFinset_card_of_nodup (SortedMap.nodup_keys s.defs),
    ← List.toFinset_card_of_nodup (SortedMap.nodup_keys s.recursive), himage,
    Finset.card_image_iff]
  constructor
  · intro hd iri hiri iri' hiri' heq
    have hcontains : ∀ {iri}, iri ∈ s.recursive.keys.toFinset →
        s.recursive.contains iri = true := fun h =>
      SortedMap.mem_keys_iff.mp (List.mem_toFinset.mp h)
    refine hd (hcontains hiri) (hcontains hiri') (hkey hiri) ?_
    rw [hkey hiri']
    exact congrArg some heq.symm
  · intro hinj iri iri' name hrec hrec' hi hi'
    have hmem : ∀ {iri}, s.recursive.contains iri = true → iri ∈ s.recursive.keys.toFinset :=
      fun h => List.mem_toFinset.mpr (SortedMap.mem_keys_iff.mpr h)
    exact hinj (hmem hrec) (hmem hrec') (by simp only [hi, hi'])

/-- Where keys are different, a class that was met inside itself is defined under its key. -/
theorem exists_definition (hs : Noted p m [] l s) (hd : s.Distinct) (hc : c ∈ l) :
    ∃ name d, s.names.get? c.iri = some name ∧ s.defs.get? name = some d ∧
      ∃ c' ∈ m.classes.values, c'.iri = c.iri ∧ ObjectsOf p c' d := by
  have hrec : s.recursive.contains c.iri = true := hs.recursive.mpr (List.mem_map_of_mem hc)
  obtain ⟨name, hname⟩ := hs.recursive_iff.mp hrec
  obtain ⟨d, hdef⟩ := SortedMap.contains_iff.mp
    ((hs.defined hname).resolve_left List.not_mem_nil)
  obtain ⟨c', hc', hname', hobjects⟩ := hs.defs hdef
  exact ⟨name, d, hname, hdef, c', hc',
    hd (hs.recursive_iff.mpr ⟨name, hname'⟩) hrec hname' hname, hobjects⟩

/-- The classes that are met inside themselves have different keys in the schema of a model,
and none of their definitions is lost, exactly if none of them finds both of its names taken by
classes that were met before it. In all orders of the same classes it is so exactly if they are
tame. -/
theorem distinct_draft_iff {schema : JsonSchema Reference} (h : draft p m = .ok (schema, s)) :
    ofModel p m = .ok (schema.mapRefs Reference.text) ∧
    (∀ iri, s.recursive.contains iri = true ↔ ∃ c ∈ metAgain p m, c.iri = iri) ∧
    (∀ iri name, s.names.get? iri = some name ↔ (iri, name) ∈ keysOf (metAgain p m)) ∧
    (s.Distinct ↔ Unclashed (metAgain p m)) ∧
    (s.Distinct ↔ schema.defs.keys.length = s.recursive.keys.length) ∧
    (s.Distinct → ∀ c ∈ metAgain p m, ∃ name d, s.names.get? c.iri = some name ∧
      schema.defs.get? name = some d ∧
        ∃ c' ∈ m.classes.values, c'.iri = c.iri ∧ ObjectsOf p c' d) ∧
    ((∀ l, (∀ c, c ∈ l ↔ c ∈ metAgain p m) → Unclashed l) ↔ Tame (metAgain p m)) := by
  obtain ⟨hs, hdefs⟩ := noted_draft h
  rw [hdefs]
  refine ⟨?_, fun iri => ?_, fun iri name => hs.names, distinct_iff_unclashed hs,
    distinct_iff_length_eq hs, fun hd c => exists_definition hs hd, unclashed_iff_tame⟩
  · rw [ofModel, h]
    rfl
  · rw [hs.recursive, List.mem_map]

/-! ## Three places -/

/-- A class whose objects lead to further ones. -/
def placeClass (iri label property : String) : StructuralClass where
  iri := iri
  pim := none
  cim := none
  label := .empty
  description := .empty
  technicalLabel := some label
  isCodelist := false
  parents := []
  inheritsFrom := []
  properties := [⟨property, none, none, .empty, .empty, none, none, [.class_ iri], false, []⟩]
  schema := "schema"
  specification := none
  isReferenced := false

/-- Towns and sites have the same label. The long name of sites is `place-fbae041b`. -/
def placesModel (spot : String) : StructuralModel where
  iri := "schema"
  label := .empty
  description := .empty
  technicalLabel := none
  roots := ["town", "spot", "site"]
  classes := .ofList [("town", placeClass "town" "place" "next"),
    ("spot", placeClass "spot" spot "beside"), ("site", placeClass "site" "place" "part")]
  specification := none
  xmlNamespace := none
  xmlPrefix := none

/-- A class that leads only to itself is met there. -/
theorem metInside_placeClass {iri label property : String}
    (h : m.class? iri = some (placeClass iri label property))
    (he : elsewhere? p m (placeClass iri label property) = none) :
    metInside p m [] iri = [placeClass iri label property] := by
  have hmember : m.member iri = .ok ⟨_, StructuralModel.mem_values_of_class? h⟩ :=
    StructuralModel.member_of_class? h
  have hl : (placeClass iri label property).isCodelist = false := rfl
  have hi : (placeClass iri label property).iri = iri := rfl
  have hinner : metInside p m [iri] iri = [placeClass iri label property] := by
    rw [metInside, hmember]
    simp only [hl, he, hi]
    exact dif_pos (List.mem_singleton.mpr rfl)
  have hproperties : ((placeClass iri label property).properties.flatMap fun q =>
      q.classes.flatMap (metInside p m [iri])) = metInside p m [iri] iri ++ [] ++ [] := rfl
  rw [metInside, hmember]
  simp [hl, he, hi, hproperties, hinner]

theorem metAgain_placesModel (spot : String) : metAgain plainPublication (placesModel spot) =
    [placeClass "town" "place" "next", placeClass "spot" spot "beside",
      placeClass "site" "place" "part"] := by
  have hroots : (placesModel spot).roots = ["town", "spot", "site"] := rfl
  have htown : (placesModel spot).class? "town" = some (placeClass "town" "place" "next") :=
    (SortedMap.get?_ofList_iff (by simp)).mpr (by simp)
  have hspot : (placesModel spot).class? "spot" = some (placeClass "spot" spot "beside") :=
    (SortedMap.get?_ofList_iff (by simp)).mpr (by simp)
  have hsite : (placesModel spot).class? "site" = some (placeClass "site" "place" "part") :=
    (SortedMap.get?_ofList_iff (by simp)).mpr (by simp)
  rw [metAgain, hroots, List.flatMap_cons, List.flatMap_cons, List.flatMap_cons,
    metInside_placeClass htown rfl, metInside_placeClass hspot rfl, metInside_placeClass hsite rfl]
  rfl

theorem exists_draft_placesModel (spot : String) (h : spot ∈ ["spot", "place-fbae041b"]) :
    ∃ schema s, draft plainPublication (placesModel spot) = .ok (schema, s) := by
  have hlimit : ∀ spot ∈ ["spot", "place-fbae041b"],
      (placesModel spot).classKeys.dedup.length ≤ 3 := by decide
  have hwithin : ∀ spot ∈ ["spot", "place-fbae041b"], (ofModelWithin plainPublication
      (placesModel spot) (ending (placesModel spot)) 3).toOption.any (fun _ => true) = true := by
    decide +kernel
  obtain ⟨schema, hschema, -⟩ := exists_ofModel _ 3 (hlimit spot h) (hwithin spot h)
  obtain ⟨⟨schema, s⟩, hdraft, -⟩ := Except.map_eq_ok.mp hschema
  exact ⟨schema, s, hdraft⟩

/-- A site has its long name where a town has the label. -/
theorem distinct_draft_iff_places : ∃ schema s,
    draft plainPublication (placesModel "spot") = .ok (schema, s) ∧ s.Distinct ∧
      s.names.get? "town" = some "place" ∧ s.names.get? "site" = some "place-fbae041b" := by
  obtain ⟨schema, s, h⟩ := exists_draft_placesModel "spot" (by decide)
  obtain ⟨-, -, hnames, hdistinct, -, -, horders⟩ := distinct_draft_iff h
  rw [metAgain_placesModel] at hnames hdistinct horders
  have htame : Tame [placeClass "town" "place" "next", placeClass "spot" "spot" "beside",
      placeClass "site" "place" "part"] := by
    unfold Tame
    decide +kernel
  have hkeys : ∀ e ∈ [("town", "place"), ("site", "place-fbae041b")],
      e ∈ keysOf [placeClass "town" "place" "next", placeClass "spot" "spot" "beside",
        placeClass "site" "place" "part"] := by decide +kernel
  exact ⟨schema, s, h, hdistinct.mpr (horders.mpr htame _ fun c => Iff.rfl),
    (hnames _ _).mpr (hkeys _ (by simp)), (hnames _ _).mpr (hkeys _ (by simp))⟩

/-- A class may have the long name of another one for its label, and then their definitions have
the same key. -/
theorem not_distinct_placesModel :
    ¬ ∀ (p : Publication) (m : StructuralModel) (schema : JsonSchema Reference) (s : Naming),
      draft p m = .ok (schema, s) → s.Distinct := by
  intro h
  obtain ⟨schema, s, hdraft⟩ := exists_draft_placesModel "place-fbae041b" (by decide)
  have hs := (noted_draft hdraft).1
  rw [metAgain_placesModel] at hs
  have hname : ∀ iri ∈ ["spot", "site"], s.recursive.contains iri = true ∧
      s.names.get? iri = some "place-fbae041b" := by
    intro iri hiri
    have hkey : (iri, "place-fbae041b") ∈ keysOf [placeClass "town" "place" "next",
        placeClass "spot" "place-fbae041b" "beside", placeClass "site" "place" "part"] := by
      revert iri
      decide +kernel
    exact ⟨hs.recursive_iff.mpr ⟨_, hs.names.mpr hkey⟩, hs.names.mpr hkey⟩
  obtain ⟨hspot, hspotname⟩ := hname "spot" (by simp)
  obtain ⟨hsite, hsitename⟩ := hname "site" (by simp)
  exact absurd (h _ _ _ _ hdraft hspot hsite hspotname hsitename) (by decide)

end JsonSchema

end DataSpec
