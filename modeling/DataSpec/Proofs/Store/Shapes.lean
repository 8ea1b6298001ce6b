import DataSpec.Proofs.Store.Links

/-!
# Bodies of resources that change

A resource keeps its identity, its kinds, and the holders that it names, whatever becomes of its
other attributes (`Resource.Akin`). Creating and deleting others changes no more of it than its
lists (`Resource.Relisted`). Under all of this attributes keep the shape of their keys
(`Resource.Shaped`), and new resources start with such (`Execution.shaped_initial`).
-/

set_option autoImplicit false

namespace DataSpec

namespace Resource

variable {r r' q : Resource} {k : AttributeKey} {v : AttributeValue}

/-! ## Identity -/

/-- The same resource, with the same kinds and holders. -/
structure Akin (r' r : Resource) : Prop where
  iri : r'.iri = r.iri
  kinds : r'.kinds = r.kinds
  owner : r'.get? .owner = r.get? .owner
  schema : r'.get? .schema = r.get? .schema

theorem Akin.refl (r : Resource) : r.Akin r := ⟨rfl, rfl, rfl, rfl⟩

theorem Akin.trans (h : q.Akin r') (h' : r'.Akin r) : q.Akin r :=
  ⟨h.iri.trans h'.iri, h.kinds.trans h'.kinds, h.owner.trans h'.owner, h.schema.trans h'.schema⟩

/-- An identifier is read from the value of its key alone. -/
theorem iri?_eq_of_get?_eq (h : r'.get? k = r.get? k) : r'.iri? k = r.iri? k := by
  rw [iri?, iri?, h]

/-- Resources that are akin differ in their links by lists only. -/
theorem Akin.links (h : r'.Akin r) : r'.links.Alike r.links where
  iri := h.iri
  kinds := h.kinds
  owner := iri?_eq_of_get?_eq h.owner
  schema := iri?_eq_of_get?_eq h.schema

/-- A resource is akin to what it was before an attribute other than owner and schema was
written. -/
theorem akin_set (r : Resource) (ho : k ≠ .owner) (hs : k ≠ .schema) (v : AttributeValue) :
    (r.set k v).Akin r :=
  ⟨rfl, rfl, by rw [get?_set, if_neg ho.symm], by rw [get?_set, if_neg hs.symm]⟩

/-- The same holds if such an attribute is removed. -/
theorem akin_remove (r : Resource) (ho : k ≠ .owner) (hs : k ≠ .schema) : (r.remove k).Akin r :=
  ⟨rfl, rfl, by rw [get?_remove, if_neg ho.symm], by rw [get?_remove, if_neg hs.symm]⟩

/-! ## Shapes -/

/-- A resource all of whose attributes have the shape of their keys. -/
def Shaped (r : Resource) : Prop := ∀ k v, r.get? k = some v → k.accepts v = true

/-- A resource without attributes has no value of another shape. -/
theorem shaped_new (iri : Iri) (kind : Kind) : (new iri kind).Shaped := by
  intro k v h
  simp [new, get?] at h

/-- It stays so if the value that is written has the shape of the key. -/
theorem Shaped.set (h : r.Shaped) (hv : k.accepts v = true) : (r.set k v).Shaped := by
  intro j w hw
  rw [get?_set] at hw
  split at hw
  · obtain rfl := Option.some.inj hw
    exact ‹j = k› ▸ hv
  · exact h j w hw

theorem Shaped.remove (h : r.Shaped) (k : AttributeKey) : (r.remove k).Shaped := by
  intro j w hw
  rw [get?_remove] at hw
  split at hw
  · cases hw
  · exact h j w hw

/-- Under the key of a list there is one, or nothing. -/
theorem Shaped.get?_list (h : r.Shaped) (hk : k.shape = .iriList) :
    r.get? k = none ∧ r.iriList k = [] ∨ r.get? k = some (.iriList (r.iriList k)) := by
  cases hv : r.get? k with
  | none => exact Or.inl ⟨rfl, by rw [iriList, hv]⟩
  | some v =>
    have hshape : v.shape = .iriList := by simpa [AttributeKey.accepts, hk] using h k v hv
    cases v with
    | iriList is => exact Or.inr (by rw [iriList, hv])
    | _ => cases hshape

/-! ## Lists -/

/-- The same resource but for its lists of parts and roots. Of its roots, some may be gone. -/
structure Relisted (r' r : Resource) : Prop where
  iri : r'.iri = r.iri
  kinds : r'.kinds = r.kinds
  get? : ∀ k, k ≠ .parts → k ≠ .roots → r'.get? k = r.get? k
  parts : r'.get? .parts = r.get? .parts ∨ ∃ is, r'.get? .parts = some (.iriList is)
  roots : r'.get? .roots = r.get? .roots ∨ ∃ is, r'.get? .roots = some (.iriList is) ∧
    is.length < (r.iriList .roots).length

theorem Relisted.refl (r : Resource) : r.Relisted r :=
  ⟨rfl, rfl, fun _ _ _ => rfl, Or.inl rfl, Or.inl rfl⟩

/-- A list is read from the value of its key alone. -/
theorem iriList_eq_of_get?_eq (h : r'.get? k = r.get? k) : r'.iriList k = r.iriList k := by
  rw [iriList, iriList, h]

/-- A list that is written is read. -/
theorem iriList_eq {is : List Iri} (h : r.get? k = some (.iriList is)) : r.iriList k = is := by
  rw [iriList, h]

theorem Relisted.trans (h : q.Relisted r') (h' : r'.Relisted r) : q.Relisted r where
  iri := h.iri.trans h'.iri
  kinds := h.kinds.trans h'.kinds
  get? k hp hr := (h.get? k hp hr).trans (h'.get? k hp hr)
  parts := h.parts.elim (fun heq => by rw [heq]; exact h'.parts) Or.inr
  roots := by
    rcases h.roots with heq | ⟨is, his, hlt⟩
    · rw [heq]
      exact h'.roots
    rcases h'.roots with heq' | ⟨is', his', hlt'⟩
    · exact Or.inr ⟨is, his, iriList_eq_of_get?_eq heq' ▸ hlt⟩
    · exact Or.inr ⟨is, his, Nat.lt_trans (iriList_eq his' ▸ hlt) hlt'⟩

/-- A resource with other lists is akin to what it was. -/
theorem Relisted.akin (h : r'.Relisted r) : r'.Akin r :=
  ⟨h.iri, h.kinds, h.get? _ nofun nofun, h.get? _ nofun nofun⟩

/-- A resource with other lists has its values in their shapes. -/
theorem Relisted.shaped (h : r'.Relisted r) (hr : r.Shaped) : r'.Shaped := by
  intro k v hv
  by_cases hp : k = .parts
  · subst hp
    rcases h.parts with heq | ⟨is, his⟩
    · exact hr _ v (heq ▸ hv)
    · obtain rfl := Option.some.inj (his.symm.trans hv)
      rfl
  by_cases hk : k = .roots
  · subst hk
    rcases h.roots with heq | ⟨is, his, -⟩
    · exact hr _ v (heq ▸ hv)
    · obtain rfl := Option.some.inj (his.symm.trans hv)
      rfl
  · exact hr k v (h.get? k hp hk ▸ hv)

/-- Writing parts changes a list only. -/
theorem relisted_set_parts (r : Resource) (is : List Iri) :
    (r.set .parts (.iriList is)).Relisted r where
  iri := rfl
  kinds := rfl
  get? k hp _ := by rw [get?_set, if_neg hp]
  parts := Or.inr ⟨is, by rw [get?_set, if_pos rfl]⟩
  roots := Or.inl (by rw [get?_set, if_neg nofun])

/-- Adding a part changes a list only. -/
theorem relisted_addPart (r : Resource) (iri : Iri) : (r.addPart iri).Relisted r :=
  r.relisted_set_parts _

/-- Taking a part out changes a list only. -/
theorem relisted_detach_parts (r : Resource) (iri : Iri) : (r.detach .parts iri).Relisted r := by
  unfold detach
  split
  · exact r.relisted_set_parts _
  · exact .refl r

/-- Taking an identifier out of a list that has it makes the list shorter. -/
theorem relisted_detach_roots (r : Resource) (iri : Iri) : (r.detach .roots iri).Relisted r := by
  unfold detach
  split
  · rename_i hc
    have hlt : ((r.iriList .roots).filter (· ≠ iri)).length < (r.iriList .roots).length :=
      List.length_filter_lt_length_iff_exists.mpr
        ⟨iri, List.contains_iff_mem.mp hc, by simp⟩
    refine ⟨rfl, rfl, fun k _ hr => ?_, Or.inl ?_, Or.inr ⟨_, ?_, hlt⟩⟩
    · rw [updateList, get?_set, if_neg hr]
    · rw [updateList, get?_set, if_neg (by decide)]
    · rw [updateList, get?_set, if_pos rfl]
  · exact .refl r

/-- What is deleted goes from both lists of its schema at once. -/
theorem relisted_detach (r : Resource) (iri : Iri) :
    ((r.detach .parts iri).detach .roots iri).Relisted r :=
  (relisted_detach_roots _ iri).trans (r.relisted_detach_parts iri)

/-- What the resources of a store that started empty are like : each names its schema, unless it
is one, and its attributes have their shapes. -/
structure Proper (r : Resource) : Prop where
  housed : r.links.Housed
  shaped : r.Shaped

end Resource

/-! ## New resources -/

namespace Execution

variable {kind : Kind} {attributes : Attributes}

/-- The attributes that a new resource is given have the shape of their keys. -/
theorem accepts_of_attributesFault?_eq_none (h : attributesFault? kind attributes = none)
    {k : AttributeKey} {v : AttributeValue} (hv : attributes.get? k = some v) :
    k.accepts v = true := by
  have hnone := List.findSome?_eq_none_iff.mp h (k, v) (SortedMap.mem_toList_iff.mpr hv)
  unfold attributeFault? at hnone
  split at hnone
  · cases hnone
  split at hnone
  · cases hnone
  · simpa using ‹¬ (!k.accepts v) = true›

/-- A new resource has its values in their shapes if its attributes do. -/
theorem shaped_initial (iri : Iri) (h : attributesFault? kind attributes = none) :
    (initial iri kind attributes).Shaped := by
  intro k v hv
  simp only [initial, Resource.get?, SortedMap.get?_erase] at hv
  split at hv
  · cases hv
  · exact accepts_of_attributesFault?_eq_none h hv

/-- So does a new resource in a schema. -/
theorem shaped_schemaPart (iri schema : Iri) (h : attributesFault? kind attributes = none) :
    (schemaPart iri kind schema attributes).Shaped := (shaped_initial iri h).set rfl

/-- So does a new resource in a class. -/
theorem shaped_classPart (iri owner schema : Iri) (h : attributesFault? kind attributes = none) :
    (classPart iri kind owner schema attributes).Shaped := ((shaped_initial iri h).set rfl).set rfl

/-- The ends of an association have no attributes of their own. -/
theorem shaped_associationEnd (iri association schema participant : Iri) :
    (associationEnd iri association schema participant).Shaped :=
  (((Resource.shaped_new iri _).set rfl).set rfl).set rfl

/-- An association is told its ends, which are a list. -/
theorem shaped_associationOf (iri schema : Iri) (ends : List Iri)
    (h : attributesFault? .conceptualAssociation attributes = none) :
    (associationOf iri schema attributes ends).Shaped := (shaped_schemaPart iri schema h).set rfl

end Execution

end DataSpec
