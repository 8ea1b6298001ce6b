import DataSpec.Proofs.Structural.Closed

/-!
# Replacing associations

`expand` replaces marked properties one by one (`expand_cons`), and `expand_induction` is
the induction that goes with it : over the list of properties, and over the lists of the
classes that are inlined. What is left is not marked, and whatever all properties of a model
had in common is kept (`forall_expand`). In a closed model it meets no missing class, and
what is left leads to classes of the model.
-/

set_option autoImplicit false
set_option linter.unusedSectionVars false

namespace DataSpec.StructuralModel

variable {m m' : StructuralModel} {iri k : Iri} {c c' : StructuralClass}

/-- To prove something of lists of properties, prove it of a list with the properties of
the classes that its first one may be replaced by. -/
theorem expand_induction (classes : SortedMap Iri StructuralClass)
    {motive : List Iri → List StructuralProperty → Prop}
    (nil : ∀ stack, motive stack [])
    (cons : ∀ stack p rest, (∀ (t : Iri) (c : StructuralClass), classes.get? t = some c →
      t ∉ stack → motive (t :: stack) c.properties) → motive stack rest →
        motive stack (p :: rest)) (stack : List Iri) :
    ∀ ps, motive stack ps
  | [] => nil stack
  | p :: rest =>
    cons stack p rest
      (fun t c _ht _hs => expand_induction classes nil cons (t :: stack) c.properties)
      (expand_induction classes nil cons stack rest)
termination_by ps => ((classes.keys.filter (· ∉ stack)).length, ps.length)
decreasing_by
  · exact Prod.Lex.left _ _ (length_filter_not_mem_cons_lt (SortedMap.mem_keys_of_get? _ht) _hs)
  · exact Prod.Lex.right _ (by simp)

/-- What a property is replaced by. -/
def replacement (classes : SortedMap Iri StructuralClass) (stack : List Iri)
    (p : StructuralProperty) : Except ModelError (List StructuralProperty) :=
  if p.dematerialize then
    (inlined classes stack p).bind fun e =>
      (expand classes (e.1.1 :: stack) e.1.2.properties).map (List.map p.through)
  else .ok [p]

theorem expand_cons (classes : SortedMap Iri StructuralClass) (stack : List Iri)
    (p : StructuralProperty) (rest : List StructuralProperty) :
    expand classes stack (p :: rest) = (replacement classes stack p).bind fun here =>
      (expand classes stack rest).map (here ++ ·) := by
  rw [expand, replacement]
  cases inlined classes stack p with
  | error e => cases p.dematerialize <;> rfl
  | ok e =>
    obtain ⟨e, he⟩ := e
    cases hd : p.dematerialize with
    | false => rfl
    | true =>
      simp only [if_true, Except.bind]
      cases expand classes (e.1 :: stack) e.2.properties <;> rfl

section

variable {classes : SortedMap Iri StructuralClass} {stack : List Iri}
  {ps qs : List StructuralProperty}

/-- Properties that lead only to classes of a map. -/
def Leads (classes : SortedMap Iri StructuralClass) (ps : List StructuralProperty) : Prop :=
  ∀ p ∈ ps, ∀ t ∈ p.classes, classes.contains t = true

/-- A marked property with one class and at most one value is replaced by what becomes of the
properties of the class. -/
theorem replacement_eq_ok {p : StructuralProperty} {t : Iri} (hd : p.dematerialize = true)
    (ht : p.types = [.class_ t]) (hb : p.bounds.isMultiple = false) (hs : t ∉ stack)
    (hc : classes.get? t = some c) (he : expand classes (t :: stack) c.properties = .ok qs) :
    replacement classes stack p = .ok (qs.map p.through) := by
  have hin : inlined classes stack p = .ok ⟨(t, c), hc, hs⟩ := by
    unfold inlined
    split
    · rename_i target htypes
      obtain rfl : t = target := by
        rw [ht] at htypes
        simpa using htypes
      rw [if_neg (by simp [hb]), dif_neg hs]
      split
      · rename_i hnone
        rw [hc] at hnone
        simp at hnone
      · rename_i d hd
        obtain rfl := Option.some.inj (hc.symm.trans hd)
        rfl
    · rename_i hno
      exact absurd ht (hno t)
  rw [replacement, if_pos hd, hin]
  exact Except.map_eq_ok.mpr ⟨qs, he, rfl⟩

/-- A marked property is replaced only if it leads to one class, with one value at most, that
is in the map and is not being inlined. -/
theorem exists_of_replacement_eq_ok {p : StructuralProperty} (hd : p.dematerialize = true)
    (h : replacement classes stack p = .ok qs) :
    p.bounds.isMultiple = false ∧ ∃ t c inner, p.types = [.class_ t] ∧ t ∉ stack ∧
      classes.get? t = some c ∧ expand classes (t :: stack) c.properties = .ok inner ∧
      qs = inner.map p.through := by
  rw [replacement, if_pos hd] at h
  obtain ⟨⟨⟨t, c⟩, hc, hs⟩, hin, h⟩ := Except.bind_eq_ok.mp h
  obtain ⟨inner, hinner, rfl⟩ := Except.map_eq_ok.mp h
  have htypes : p.bounds.isMultiple = false ∧ p.types = [.class_ t] := by
    unfold inlined at hin
    split at hin
    · rename_i target htypes
      split at hin
      · simp at hin
      rename_i hb
      split at hin
      · simp at hin
      split at hin
      · simp at hin
      · have he := congrArg (fun e => e.1.1) (Except.ok.inj hin)
        exact ⟨Bool.eq_false_iff.mpr hb, by rw [htypes, show target = t from he]⟩
    · simp at hin
  exact ⟨htypes.1, t, c, inner, htypes.2, hs, hc, hinner, rfl⟩

theorem fails_inlined {p : StructuralProperty} (h : Leads classes [p]) :
    (inlined classes stack p).Fails Unsupported := by
  unfold inlined
  split
  · rename_i target htypes
    split
    · exact .error rfl
    split
    · exact .error rfl
    split
    · rename_i hnone
      have ht : classes.contains target = true :=
        h p List.mem_cons_self target (by simp [StructuralProperty.classes, htypes,
          PropertyType.class?])
      rw [SortedMap.contains, hnone] at ht
      simp at ht
    · exact .ok _
  · exact .error rfl

/-- Where no class is missing, replacing fails only on what is not supported. -/
theorem fails_expand (hc : ∀ {k c}, classes.get? k = some c → Leads classes c.properties)
    (h : Leads classes ps) : (expand classes stack ps).Fails Unsupported := by
  induction stack, ps using expand_induction classes with
  | nil stack =>
    rw [expand]
    exact .ok []
  | cons stack p rest ihc ihr =>
    rw [expand_cons]
    refine .bind ?_ fun here _ => .map (ihr fun q hq => h q (List.mem_cons_of_mem _ hq)) _
    unfold replacement
    split
    · refine .bind (fails_inlined fun q hq => ?_) fun e _ => .map ?_ _
      · exact h q (List.mem_singleton.mp hq ▸ List.mem_cons_self)
      · exact ihc e.1.1 e.1.2 e.2.1 e.2.2 (hc e.2.1)
    · exact .ok [p]

/-- What all properties satisfy, also when they are seen through others, they still satisfy
when associations are replaced; and nothing waits to be replaced any more. -/
theorem forall_expand {P : StructuralProperty → Prop}
    (hP : ∀ outer p : StructuralProperty, P p → P (outer.through p))
    (hc : ∀ {k c}, classes.get? k = some c → ∀ p ∈ c.properties, P p)
    (hps : ∀ p ∈ ps, P p) (h : expand classes stack ps = .ok qs) :
    ∀ q ∈ qs, P q ∧ q.dematerialize = false := by
  induction stack, ps using expand_induction classes generalizing qs with
  | nil stack =>
    rw [expand] at h
    obtain rfl := Except.ok.inj h
    simp
  | cons stack p rest ihc ihr =>
    rw [expand_cons] at h
    obtain ⟨here, hhere, h⟩ := Except.bind_eq_ok.mp h
    obtain ⟨there, hthere, rfl⟩ := Except.map_eq_ok.mp h
    have hrest := ihr (fun q hq => hps q (List.mem_cons_of_mem _ hq)) hthere
    intro q hq
    refine (List.mem_append.mp hq).elim (fun hq => ?_) (hrest q)
    unfold replacement at hhere
    split at hhere
    · obtain ⟨e, -, hhere⟩ := Except.bind_eq_ok.mp hhere
      obtain ⟨inner, hinner, rfl⟩ := Except.map_eq_ok.mp hhere
      obtain ⟨q₀, hq₀, rfl⟩ := List.mem_map.mp hq
      obtain ⟨hP₀, hd₀⟩ := ihc e.1.1 e.1.2 e.2.1 e.2.2 (hc e.2.1) hinner q₀ hq₀
      exact ⟨hP p q₀ hP₀, hd₀⟩
    · rename_i hd
      obtain rfl := Except.ok.inj hhere
      obtain rfl := List.mem_singleton.mp hq
      exact ⟨hps q List.mem_cons_self, Bool.eq_false_iff.mpr hd⟩

/-- Where nothing is marked, there is nothing to replace. -/
theorem expand_eq_self (h : ∀ p ∈ ps, p.dematerialize = false) :
    expand classes stack ps = .ok ps := by
  induction ps with
  | nil => rw [expand]
  | cons p ps ih =>
    have hp : replacement classes stack p = .ok [p] := by
      simp [replacement, h p List.mem_cons_self]
    rw [expand_cons, hp, ih fun q hq => h q (List.mem_cons_of_mem _ hq)]
    rfl

end

theorem Closed.leads (h : m.Closed) (hk : m.class? k = some c) : Leads m.classes c.properties :=
  (h.classes hk).types

theorem fails_dematerialize (h : m.Closed) : m.dematerialize.Fails Unsupported := by
  refine .map (fun e he => ?_) _
  obtain ⟨k, c, hk, hc⟩ := SortedMap.exists_of_mapValuesM_eq_error he
  exact (fails_expand (fun hk => h.leads hk) (h.leads hk)).map _ e hc

theorem dematerializeClass_eq_ok {classes : SortedMap Iri StructuralClass}
    {ps : List StructuralProperty} (h : expand classes [c.iri] c.properties = .ok ps) :
    dematerializeClass classes c = .ok { c with properties := ps } :=
  Except.map_eq_ok.mpr ⟨ps, h, rfl⟩

/-- A class that was dematerialized is one of the model with other properties. -/
theorem class?_of_dematerialize (hok : m.dematerialize = .ok m') (hk : m'.class? k = some c') :
    ∃ c ps, m.class? k = some c ∧ expand m.classes [c.iri] c.properties = .ok ps ∧
      c' = { c with properties := ps } := by
  obtain ⟨classes, hclasses, rfl⟩ := Except.map_eq_ok.mp hok
  rcases SortedMap.get?_of_mapValuesM hclasses k with ⟨-, hn'⟩ | ⟨c, d, hc, hd, hd'⟩
  · have hn : some c' = none := hk.symm.trans hn'
    simp at hn
  · obtain rfl : c' = d := Option.some.inj (hk.symm.trans hd')
    obtain ⟨ps, hps, rfl⟩ := Except.map_eq_ok.mp hd
    exact ⟨c, ps, hc, hps, rfl⟩

theorem sameShape_dematerialize (hok : m.dematerialize = .ok m') : SameShape m m' := by
  obtain ⟨classes, hclasses, rfl⟩ := Except.map_eq_ok.mp hok
  refine ⟨rfl, fun k => ?_⟩
  rcases SortedMap.get?_of_mapValuesM hclasses k with ⟨hn, hn'⟩ | ⟨c, c', hc, -, hc'⟩
  · rw [SortedMap.contains, SortedMap.contains, hn, hn']
  · rw [SortedMap.contains, SortedMap.contains, hc, hc']
    rfl

theorem dematerialize_eq_ok (h : m.Closed) (hp : ∀ {k c}, m.class? k = some c → c.parents = [])
    (hok : m.dematerialize = .ok m') : m'.Flat ∧ SameShape m m' := by
  have hs := sameShape_dematerialize hok
  refine ⟨⟨h.of_sameShape hs fun {k c'} hk => ?_, fun {k c'} hk => ?_, fun {k c'} hk => ?_⟩, hs⟩
  all_goals obtain ⟨c, ps, hc, hps, rfl⟩ := class?_of_dematerialize hok hk
  · have hl := forall_expand (fun _ _ h => h) (fun hk => h.leads hk) (h.leads hc) hps
    exact ⟨fun q hq => (hl q hq).1, (h.classes hc).parents, (h.classes hc).inheritsFrom⟩
  · have hpar := hp hc
    exact hpar
  · have hd := forall_expand (P := fun _ => True) (fun _ _ _ => trivial) (fun _ _ _ => trivial)
      (fun _ _ => trivial) hps
    exact fun q hq => (hd q hq).2

/-- Where no property is marked, there is nothing to dematerialize. -/
theorem dematerialize_eq_self
    (h : ∀ {k c}, m.class? k = some c → ∀ p ∈ c.properties, p.dematerialize = false) :
    m.dematerialize = .ok m := by
  refine Except.map_eq_ok.mpr ⟨m.classes, SortedMap.mapValuesM_eq_self fun k c hk => ?_, rfl⟩
  exact dematerializeClass_eq_ok (expand_eq_self (h hk))

end DataSpec.StructuralModel
