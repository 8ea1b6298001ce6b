import DataSpec.Proofs.Except
import DataSpec.Proofs.Store.Links

/-!
# Creation and the links of a store

A new resource has an identifier that was free, and no links but those to its holders. So
each way of creating adds resources that fit into the network (`Execution.adds_create`), and
leaves a woven store woven. An association comes with two ends, which is three additions.
-/

set_option autoImplicit false
set_option linter.unusedSectionVars false

namespace DataSpec

/-- The links of a new resource of a kind, and of the ends that come with it if it is an
association. -/
structure Links.Heads (l : Links) (kind : Kind) (ends : List Links) : Prop where
  kinds : l.kinds = [kind]
  kind_ne : kind ≠ .conceptualAssociationEnd
  alone : kind ≠ .conceptualAssociation → ends = []
  ends : ∀ e ∈ ends, e.kinds = [.conceptualAssociationEnd] ∧ e.owner = some l.iri

namespace Minter

/-- A number that is found is free, and those before it are not. -/
theorem firstFree_eq_some {idOf : UInt64 → Iri} {isTaken : Iri → Bool} :
    ∀ {taken : List Iri} {n k : UInt64}, firstFree idOf isTaken taken n = some k →
      ∃ j ≤ taken.length, k = n + UInt64.ofNat j ∧ isTaken (idOf k) = false ∧
        ∀ i < j, isTaken (idOf (n + UInt64.ofNat i)) = true
  | [], n, k, h => by
    unfold firstFree at h
    split at h
    · simp at h
    · obtain rfl := Option.some.inj h
      exact ⟨0, Nat.le_refl 0, by simp, Bool.eq_false_iff.mpr ‹_›, nofun⟩
  | _ :: taken, n, k, h => by
    have hstep : ∀ i : Nat, n + 1 + UInt64.ofNat i = n + UInt64.ofNat (i + 1) := fun i => by
      rw [UInt64.ofNat_add, UInt64.ofNat_one, UInt64.add_assoc, UInt64.add_comm 1]
    unfold firstFree at h
    split at h
    · rename_i htaken
      obtain ⟨j, hj, rfl, hfree, hbefore⟩ := firstFree_eq_some h
      refine ⟨j + 1, Nat.succ_le_succ hj, hstep j, hfree, fun i hi => ?_⟩
      cases i with
      | zero => simpa using htaken
      | succ i =>
        rw [← hstep]
        exact hbefore i (Nat.lt_of_succ_lt_succ hi)
    · obtain rfl := Option.some.inj h
      exact ⟨0, Nat.zero_le _, by simp, Bool.eq_false_iff.mpr ‹_›, nofun⟩

end Minter

namespace Execution

open ResourceDiff Network

variable {x : Execution} {m m' : Minter} {d : ResourceDiff} {kind : Kind} {iri i : Iri}
  {r : Resource}

/-- The links of the resources that an operation reads. -/
def network (x : Execution) : Network := x.resources.network

theorem network_empty (x : Execution) : ResourceDiff.empty.network x.resources = x.network := by
  rw [ResourceDiff.network, view_empty]
  rfl

/-- A resource that is required is there. -/
theorem require_eq_ok (h : x.require iri = .ok r) : x.resources.get? iri = some r := by
  unfold require at h
  split at h
  · obtain rfl := Except.ok.inj h
    assumption
  · simp at h

/-- A resource of which a kind is required is of the kind. -/
theorem requireKind_eq_ok (h : x.requireKind iri kind = .ok r) :
    x.resources.get? iri = some r ∧ kind ∈ r.kinds := by
  obtain ⟨r', hr, h⟩ := Except.bind_eq_ok.mp h
  rw [Resource.require] at h
  split at h
  · obtain rfl := Except.ok.inj h
    exact ⟨require_eq_ok hr, List.contains_iff_mem.mp ‹_›⟩
  · simp at h

/-- In a woven network a resource that has a kind has no other. -/
theorem kinds_of_requireKind (w : x.network.Woven) (h : x.requireKind iri kind = .ok r) :
    x.network iri = some r.links ∧ r.kinds = [kind] := by
  obtain ⟨hr, hk⟩ := requireKind_eq_ok h
  obtain ⟨k, hk'⟩ := w.kind (of_eq_some hr)
  have hk' : r.kinds = [k] := hk'
  rw [hk', List.mem_singleton] at hk
  exact ⟨of_eq_some hr, hk ▸ hk'⟩

/-- An identifier that is minted is free, and is not minted again by the operation. -/
theorem mint_eq_ok (h : x.mint m kind = .ok (iri, m')) :
    x.resources.get? iri = none ∧ m.minted.contains iri = false ∧
      m'.minted = SortedSet.add m.minted iri := by
  unfold mint at h
  split at h
  · rename_i r hr
    obtain rfl := Except.ok.inj h
    obtain ⟨n, hn, heq⟩ := Option.map_eq_some_iff.mp hr
    obtain ⟨rfl, rfl⟩ := Prod.mk.inj heq
    obtain ⟨-, -, -, hfree, -⟩ := Minter.firstFree_eq_some hn
    rw [Minter.isTaken, Bool.or_eq_false_iff] at hfree
    exact ⟨SortedMap.contains_eq_false_iff.mp hfree.1, hfree.2, rfl⟩
  · simp at h

/-- Attributes that a new resource may be given are no links. -/
theorem links_initial {attributes : Attributes} (h : attributesFault? kind attributes = none) :
    (initial iri kind attributes).links = .new iri kind none none := by
  have hlink : ∀ k : AttributeKey, k.isLink = true →
      (initial iri kind attributes).get? k = none := by
    intro k hk
    simp only [initial, Resource.get?, SortedMap.get?_erase]
    split
    · rfl
    rename_i hends
    cases hv : attributes.get? k with
    | none => rfl
    | some v =>
      have := List.findSome?_eq_none_iff.mp h (k, v) (SortedMap.mem_toList_iff.mpr hv)
      simp [attributeFault?, hk, hends] at this
  simp [Resource.links, Resource.iri?, Resource.parts, Resource.iriList, Links.new,
    hlink .owner rfl, hlink .schema rfl, hlink .parts rfl, hlink .roots rfl]
  exact ⟨rfl, rfl⟩

/-- A new resource in a schema has the links to it. -/
theorem links_schemaPart {attributes : Attributes} {schema : Iri}
    (h : attributesFault? kind attributes = none) :
    (schemaPart iri kind schema attributes).links =
      .new iri kind none (some schema) := by
  rw [schemaPart, Resource.links_set_schema, links_initial h]
  rfl

/-- A new resource in a class has the links to the class and to its schema. -/
theorem links_classPart {attributes : Attributes} {owner schema : Iri}
    (h : attributesFault? kind attributes = none) :
    (classPart iri kind owner schema attributes).links =
      .new iri kind (some owner) (some schema) := by
  rw [classPart, Resource.links_set_schema, Resource.links_set_owner, links_initial h]
  rfl

/-- Nothing has the links of a resource that is not there. -/
theorem network_eq_none (h : x.resources.get? iri = none) : x.network iri = none := by
  rw [network, ResourceMap.network, Network.of, h, Option.map_none]

theorem ne_of_network (h : x.resources.get? iri = none) {l : Links} (hl : x.network i = some l) :
    i ≠ iri := by
  rintro rfl
  simp [network_eq_none h] at hl

/-- A schema is added by itself. -/
theorem adds_createSchema {attributes : Attributes} (hf : attributesFault? kind attributes = none)
    (h : x.createSchema m kind attributes = (.ok d, m')) :
    ∃ iri, d.Adds x.resources [.new iri kind none none] := by
  unfold createSchema at h
  split at h
  · simp at h
  rename_i iri m₁ hm
  obtain ⟨rfl, rfl⟩ : _ = d ∧ _ = m' := by simpa using h
  obtain ⟨hfree, -⟩ := mint_eq_ok hm
  obtain ⟨htidy, hnet⟩ := network_create (Tidy.empty _) hfree rfl (links_initial hf)
  have hadd : x.network.add (.new iri kind none none) =
      Function.update x.network iri (some (.new iri kind none none)) := add_unheld rfl rfl
  refine ⟨iri, htidy, ?_, ?_⟩
  · exact ⟨⟨network_eq_none hfree, ⟨kind, rfl⟩, rfl, rfl, nofun, nofun⟩, trivial⟩
  · rw [hnet, network_empty, ← hadd]
    rfl

/-- A class is added to its schema. -/
theorem adds_createInSchema {attributes : Attributes} {schema : Iri} (w : x.network.Woven)
    (ht : kind.tier < 2) (hf : attributesFault? kind attributes = none)
    (h : x.createInSchema m kind schema attributes = (.ok d, m')) :
    ∃ iri, d.Adds x.resources [.new iri kind none (some schema)] := by
  unfold createInSchema at h
  split at h
  · simp at h
  rename_i s hs
  split at h
  · simp at h
  rename_i iri m₁ hm
  obtain ⟨hedit, rfl⟩ : _ = Except.ok d ∧ _ = m' := by simpa using h
  obtain ⟨hfree, -⟩ := mint_eq_ok hm
  obtain ⟨hns, hks⟩ := kinds_of_requireKind w hs
  have hne : schema ≠ iri := ne_of_network hfree hns
  obtain ⟨htidy₁, hnet₁⟩ := network_create (Tidy.empty _) hfree rfl (links_schemaPart hf)
  rw [network_empty] at hnet₁
  have hl := congrFun hnet₁ schema
  rw [Function.update_of_ne hne, hns] at hl
  obtain ⟨htidy, hnet⟩ := network_edit_of_eq_some (g := (·.push iri))
    (fun r => r.links_addPart iri) htidy₁ hl hedit
  have hadd : x.network.add (.new iri kind none (some schema)) =
      Function.update (Function.update x.network iri
        (some (.new iri kind none (some schema)))) schema (some (s.links.push iri)) :=
    add_held rfl rfl hne hns
  refine ⟨iri, htidy, ?_, ?_⟩
  · refine ⟨⟨network_eq_none hfree, ⟨kind, rfl⟩, rfl, rfl, nofun, ?_⟩, trivial⟩
    rintro _ ⟨rfl⟩
    exact ⟨ht, s.links, hns, (Links.tier_of_kinds hks).trans kind.tier_schemaKind⟩
  · rw [hnet, hnet₁, ← hadd]
    rfl

/-- The class that is to own a new resource, with its schema. -/
theorem schemaOfOwner_eq_ok {owner schema : Iri} (w : x.network.Woven)
    (h : x.schemaOfOwner kind owner = .ok schema) :
    ∃ l l', x.network owner = some l ∧ l.tier = 1 ∧ l.schema = some schema ∧
      x.network schema = some l' ∧ l'.tier = 2 := by
  obtain ⟨r, hr, h⟩ := Except.bind_eq_ok.mp h
  obtain ⟨hno, hko⟩ := kinds_of_requireKind w hr
  split at h
  · rename_i s hs
    obtain rfl := Except.ok.inj h
    obtain ⟨-, l', hl', ht', -⟩ := w.schema hno hs
    exact ⟨r.links, l', hno, (Links.tier_of_kinds hko).trans kind.tier_classKind, hs, hl', ht'⟩
  · simp at h

/-- An attribute is added to its class, and to the schema of the class. -/
theorem adds_createInClass {attributes : Attributes} {owner : Iri} (w : x.network.Woven)
    (ht : kind.tier = 0) (hf : attributesFault? kind attributes = none)
    (h : x.createInClass m kind owner attributes = (.ok d, m')) :
    ∃ iri schema, d.Adds x.resources [.new iri kind (some owner) (some schema)] := by
  unfold createInClass at h
  split at h
  · simp at h
  rename_i schema hs
  split at h
  · simp at h
  rename_i iri m₁ hm
  obtain ⟨hedit, rfl⟩ : _ = Except.ok d ∧ _ = m' := by simpa using h
  obtain ⟨hfree, -⟩ := mint_eq_ok hm
  obtain ⟨lo, ls, hno, hto, hso, hns, hts⟩ := schemaOfOwner_eq_ok w hs
  have hno' : owner ≠ iri := ne_of_network hfree hno
  have hns' : schema ≠ iri := ne_of_network hfree hns
  have hos : schema ≠ owner := by
    rintro rfl
    obtain rfl := Option.some.inj (hno.symm.trans hns)
    omega
  obtain ⟨htidy₀, hnet₀⟩ := network_create (Tidy.empty _) hfree rfl (links_classPart hf)
  rw [network_empty] at hnet₀
  -- The class is edited first, and then its schema.
  obtain ⟨d₁, hd₁, hedit⟩ := Except.bind_eq_ok.mp hedit
  have hlo := congrFun hnet₀ owner
  rw [Function.update_of_ne hno', hno] at hlo
  obtain ⟨htidy₁, hnet₁⟩ := network_edit_of_eq_some (g := (·.push iri))
    (fun r => r.links_addPart iri) htidy₀ hlo hd₁
  have hls := congrFun hnet₁ schema
  rw [hnet₀, Function.update_of_ne hos, Function.update_of_ne hns', hns] at hls
  obtain ⟨htidy₂, hnet₂⟩ := network_edit_of_eq_some (g := (·.push iri))
    (fun r => r.links_addPart iri) htidy₁ hls hedit
  have hadd : x.network.add (.new iri kind (some owner) (some schema)) =
      Function.update (Function.update (Function.update x.network iri
        (some (.new iri kind (some owner) (some schema)))) owner (some (lo.push iri))) schema
        (some (ls.push iri)) :=
    add_owned rfl rfl hos hno' hns' hno hns
  refine ⟨iri, schema, htidy₂, ?_, ?_⟩
  · refine ⟨⟨network_eq_none hfree, ⟨kind, rfl⟩, rfl, rfl, ?_, ?_⟩, trivial⟩
    · rintro _ ⟨rfl⟩
      exact ⟨ht, lo, schema, hno, hto, hso, rfl⟩
    · rintro _ ⟨rfl⟩
      exact ⟨by rw [Links.tier_of_kinds rfl, ht]; omega, ls, hns, hts⟩
  · rw [hnet₂, hnet₁, hnet₀, ← hadd]
    rfl

/-- The three identifiers of an association are free and different. -/
theorem mintAssociation_eq_ok {a b c : Iri} (h : x.mintAssociation m = .ok ((a, b, c), m')) :
    x.resources.get? a = none ∧ x.resources.get? b = none ∧ x.resources.get? c = none ∧
      b ≠ a ∧ c ≠ a ∧ c ≠ b := by
  obtain ⟨⟨i₁, m₁⟩, h₁, h⟩ := Except.bind_eq_ok.mp h
  obtain ⟨⟨i₂, m₂⟩, h₂, h⟩ := Except.bind_eq_ok.mp h
  obtain ⟨⟨i₃, m₃⟩, h₃, h⟩ := Except.map_eq_ok.mp h
  obtain ⟨⟨rfl, rfl, rfl⟩, rfl⟩ : (i₁ = a ∧ i₂ = b ∧ i₃ = c) ∧ m₃ = m' := by simpa using h
  obtain ⟨hf₁, -, hm₁⟩ := mint_eq_ok h₁
  obtain ⟨hf₂, hn₂, hm₂⟩ := mint_eq_ok h₂
  obtain ⟨hf₃, hn₃, -⟩ := mint_eq_ok h₃
  simp only [hm₂, hm₁, SortedSet.contains_add, Bool.or_eq_false_iff,
    decide_eq_false_iff_not] at hn₂ hn₃
  exact ⟨hf₁, hf₂, hf₃, hn₂.1, hn₃.2.1, hn₃.1⟩

theorem links_associationEnd (iri association schema participant : Iri) :
    (associationEnd iri association schema participant).links =
      .new iri .conceptualAssociationEnd (some association) (some schema) := by
  rw [associationEnd, Resource.links_set _ rfl, Resource.links_set_schema,
    Resource.links_set_owner]
  rfl

theorem links_associationOf {attributes : Attributes} {schema : Iri} {ends : List Iri}
    (h : attributesFault? .conceptualAssociation attributes = none) :
    (associationOf iri schema attributes ends).links =
      { Links.new iri .conceptualAssociation none (some schema) with parts := ends } := by
  rw [associationOf, Resource.links_set_parts, links_schemaPart h]

/-- The links of a new association and its ends. -/
def newAssociation (a b c s : Iri) : List Links :=
  [.new a .conceptualAssociation none (some s),
    .new b .conceptualAssociationEnd (some a) (some s),
    .new c .conceptualAssociationEnd (some a) (some s)]

/-- An association with its ends is added one after the other. -/
theorem add_association {N : Network} {h : Links} {a b c s : Iri} (hh : N s = some h)
    (ha : N a = none) (hb : N b = none) (hc : N c = none) (hba : b ≠ a) (hca : c ≠ a)
    (hcb : c ≠ b) :
    N.addAll (newAssociation a b c s) =
      Function.update (Function.update (Function.update (Function.update N
        b (some (.new b .conceptualAssociationEnd (some a) (some s))))
        c (some (.new c .conceptualAssociationEnd (some a) (some s))))
        a (some { Links.new a .conceptualAssociation none (some s) with parts := [b, c] }))
        s (some { h with parts := h.parts ++ [a, b, c] }) := by
  have hsa : s ≠ a := by rintro rfl; simp [ha] at hh
  have hsb : s ≠ b := by rintro rfl; simp [hb] at hh
  have hsc : s ≠ c := by rintro rfl; simp [hc] at hh
  funext i
  simp only [newAssociation, addAll, List.foldl_cons, List.foldl_nil]
  by_cases hs : i = s
  · subst hs
    simp [add, Links.new, Links.HeldBy, Links.push, hsa, hsb, hsc, hh]
  by_cases hia : i = a
  · subst hia
    simp [add, Links.new, Links.HeldBy, Links.push, hs, hba.symm, hca.symm]
  by_cases hic : i = c
  · subst hic
    simp [add, Links.new, hs, hca]
  by_cases hib : i = b
  · subst hib
    simp [add, Links.new, Links.HeldBy, hs, hba, hcb.symm, Ne.symm hia, Ne.symm hs]
  · simp [add, Links.new, Links.HeldBy, hs, hia, hib, hic, Ne.symm hia, Ne.symm hs]

/-- What an association with its ends needs of its schema to fit in. -/
theorem fitAll_newAssociation {N : Network} {h : Links} {a b c s : Iri} (hh : N s = some h)
    (ht : h.tier = 2) (ha : N a = none) (hb : N b = none) (hc : N c = none)
    (hba : b ≠ a) (hca : c ≠ a) (hcb : c ≠ b) : N.FitAll (newAssociation a b c s) := by
  have hf : Fits N (.new a .conceptualAssociation none (some s)) :=
    ⟨ha, ⟨_, rfl⟩, rfl, rfl, nofun, by rintro _ ⟨rfl⟩; exact ⟨Nat.one_lt_two, h, hh, ht⟩⟩
  -- An end fits wherever the association and the schema are.
  have hend : ∀ {N : Network} {e : Iri} {la ls : Links}, N e = none → N a = some la →
      la.tier = 1 → la.schema = some s → N s = some ls → ls.tier = 2 →
      Fits N (.new e .conceptualAssociationEnd (some a) (some s)) := by
    intro N e la ls he hla hta hsa hls hts
    refine ⟨he, ⟨_, rfl⟩, rfl, rfl, ?_, ?_⟩
    · rintro _ ⟨rfl⟩
      exact ⟨rfl, la, s, hla, hta, hsa, rfl⟩
    · rintro _ ⟨rfl⟩
      exact ⟨Nat.two_pos, ls, hls, hts⟩
  have hadd : ∀ {N : Network} {l : Links} {e : Iri}, N e = none → e ≠ l.iri →
      N.add l e = none := fun he hne => by rw [add_of_ne hne, he, Option.map_none]
  obtain ⟨h₁, hh₁, al₁, -⟩ := exists_add hf hh
  have hf₁ := hend (hadd hb hba) (add_self N _) rfl rfl hh₁ (al₁.tier.trans ht)
  obtain ⟨h₂, hh₂, al₂, -⟩ := exists_add hf₁ hh₁
  obtain ⟨la, hla, ala, -⟩ := exists_add hf₁ (add_self N _)
  have hf₂ := hend (hadd (hadd hc hca) hcb) hla ala.tier ala.schema hh₂
    (al₂.tier.trans (al₁.tier.trans ht))
  exact ⟨hf, hf₁, hf₂, trivial⟩

/-- An association is added with its ends. -/
theorem adds_createAssociation {attributes : Attributes} {schema : Iri} (w : x.network.Woven)
    (hf : attributesFault? .conceptualAssociation attributes = none)
    (h : x.createAssociation m schema attributes = (.ok d, m')) :
    ∃ a b c, d.Adds x.resources (newAssociation a b c schema) := by
  unfold createAssociation at h
  split at h
  · simp at h
  rename_i p q hpq
  split at h
  · simp at h
  rename_i a b c m₁ hm
  obtain ⟨hedit, rfl⟩ : _ = Except.ok d ∧ _ = m' := by simpa using h
  obtain ⟨ha, hb, hc, hba, hca, hcb⟩ := mintAssociation_eq_ok hm
  obtain ⟨s, hs, -⟩ := Except.bind_eq_ok.mp hpq
  obtain ⟨hns, hks⟩ := kinds_of_requireKind w hs
  obtain ⟨ht₁, hn₁⟩ := network_create (Tidy.empty _) hb rfl (links_associationEnd b a schema p)
  obtain ⟨ht₂, hn₂⟩ := network_create ht₁ hc rfl (links_associationEnd c a schema q)
  obtain ⟨ht₃, hn₃⟩ := network_create ht₂ ha rfl (links_associationOf hf)
  rw [hn₂, hn₁, network_empty] at hn₃
  have hl := congrFun hn₃ schema
  rw [Function.update_of_ne (ne_of_network ha hns), Function.update_of_ne (ne_of_network hc hns),
    Function.update_of_ne (ne_of_network hb hns), hns] at hl
  obtain ⟨ht₄, hn₄⟩ := network_edit_of_eq_some
    (g := fun l => { l with parts := l.parts ++ [a, b, c] }) (fun r => r.links_set_parts _)
    ht₃ hl hedit
  rw [hn₃] at hn₄
  have hna := network_eq_none ha
  have hnb := network_eq_none hb
  have hnc := network_eq_none hc
  refine ⟨a, b, c, ht₄, ?_, ?_⟩
  · exact fitAll_newAssociation hns ((Links.tier_of_kinds hks).trans rfl) hna hnb hnc hba hca hcb
  · rw [hn₄, ← add_association hns hna hnb hnc hba hca hcb]
    rfl

/-- A new resource fits into the network, and so do the ends that a new association has. -/
theorem adds_create {owner : Option Iri} {attributes : Attributes} (w : x.network.Woven)
    (h : x.create m kind owner attributes = (.ok d, m')) :
    ∃ l ends, l.Heads kind ends ∧ d.Adds x.resources (l :: ends) := by
  unfold create at h
  split at h
  · simp at h
  rename_i hf
  split at h
  case h_1 | h_2 =>
    obtain ⟨iri, ha⟩ := adds_createSchema hf h
    exact ⟨_, [], ⟨rfl, nofun, fun _ => rfl, nofun⟩, ha⟩
  case h_3 | h_4 | h_5 | h_6 => simp at h
  case h_7 | h_8 | h_9 =>
    obtain ⟨iri, ha⟩ := adds_createInSchema w (by decide) hf h
    exact ⟨_, [], ⟨rfl, nofun, fun _ => rfl, nofun⟩, ha⟩
  case h_10 | h_11 | h_12 =>
    obtain ⟨iri, schema, ha⟩ := adds_createInClass w (by decide) hf h
    exact ⟨_, [], ⟨rfl, nofun, fun _ => rfl, nofun⟩, ha⟩
  case h_13 =>
    obtain ⟨a, b, c, ha⟩ := adds_createAssociation w hf h
    exact ⟨_, _, ⟨rfl, nofun, fun h => absurd rfl h, by simp [Links.new]⟩, ha⟩

/-- So a creation leaves a woven network woven. -/
theorem sound_create {owner : Option Iri} {attributes : Attributes} (w : x.network.Woven)
    (h : x.create m kind owner attributes = (.ok d, m')) : d.Sound x.resources := by
  obtain ⟨l, ends, -, ha⟩ := adds_create w h
  exact ha.sound w

end Execution

end DataSpec
