import DataSpec.Json.Basic

/-!
# Members of objects

`Json.setMember` puts a name at the end, or keeps its place and gives it another value, so an
object that is made with `Json.mergeMembers` has each name once. If no name comes twice, the
members are what they were (`mergeMembers_eq_self`).
-/

set_option autoImplicit false

namespace DataSpec.Json

/-- The names of members. -/
def memberNames (l : List (String × Json)) : List String := l.map Prod.fst

theorem memberNames_append (l l' : List (String × Json)) :
    memberNames (l ++ l') = memberNames l ++ memberNames l' := List.map_append

/-- A new member comes last. -/
theorem setMember_of_not_mem {name : String} (v : Json) :
    ∀ {l : List (String × Json)}, name ∉ memberNames l → setMember name v l = l ++ [(name, v)]
  | [], _ => rfl
  | (n, w) :: rest, h => by
    obtain ⟨hne, hrest⟩ := not_or.mp (mt List.mem_cons.mpr h)
    rw [setMember, if_neg (Ne.symm hne), setMember_of_not_mem v hrest]
    rfl

/-- A member that is there keeps its place. -/
theorem memberNames_setMember_of_mem {name : String} (v : Json) :
    ∀ {l : List (String × Json)}, name ∈ memberNames l →
      memberNames (setMember name v l) = memberNames l
  | (n, w) :: rest, h => by
    rw [setMember]
    split
    · rfl
    · rename_i hne
      have hrest : name ∈ memberNames rest := (List.mem_cons.mp h).resolve_left (Ne.symm hne)
      exact congrArg (n :: ·) (memberNames_setMember_of_mem v hrest)

/-- Giving a name a value adds the name, if it is new. -/
theorem memberNames_setMember (name : String) (v : Json) (l : List (String × Json)) :
    memberNames (setMember name v l) =
      if name ∈ memberNames l then memberNames l else memberNames l ++ [name] := by
  split
  · exact memberNames_setMember_of_mem v ‹_›
  · rw [setMember_of_not_mem v ‹_›, memberNames_append]
    rfl

/-- No name comes twice by setting a member. -/
theorem nodup_memberNames_setMember {name : String} {v : Json} {l : List (String × Json)}
    (h : (memberNames l).Nodup) : (memberNames (setMember name v l)).Nodup := by
  rw [memberNames_setMember]
  split
  · exact h
  · rename_i hnot
    refine List.nodup_append.mpr ⟨h, List.pairwise_singleton _ name, ?_⟩
    rintro a ha b hb rfl
    exact hnot (List.mem_singleton.mp hb ▸ ha)

theorem mem_memberNames_setMember {name name' : String} {v : Json} {l : List (String × Json)} :
    name' ∈ memberNames (setMember name v l) ↔ name' ∈ memberNames l ∨ name' = name := by
  rw [memberNames_setMember]
  split
  · exact ⟨Or.inl, fun h => h.elim id fun heq => heq ▸ ‹_›⟩
  · simp

/-- An object that is made member by member has no name twice, and no other names. -/
theorem memberNames_mergeMembers (l : List (String × Json)) :
    (memberNames (mergeMembers l)).Nodup ∧
      ∀ name, name ∈ memberNames (mergeMembers l) ↔ name ∈ memberNames l := by
  have merge : ∀ (l acc : List (String × Json)), (memberNames acc).Nodup →
      (memberNames (l.foldl (fun acc m => setMember m.1 m.2 acc) acc)).Nodup ∧
        ∀ name, name ∈ memberNames (l.foldl (fun acc m => setMember m.1 m.2 acc) acc) ↔
          name ∈ memberNames acc ∨ name ∈ memberNames l := by
    intro l
    induction l with
    | nil => exact fun acc h => ⟨h, fun name => by simp [memberNames]⟩
    | cons m rest ih =>
      intro acc h
      obtain ⟨hnodup, hmem⟩ := ih (setMember m.1 m.2 acc) (nodup_memberNames_setMember h)
      refine ⟨hnodup, fun name => (hmem name).trans ?_⟩
      rw [mem_memberNames_setMember, or_assoc]
      exact or_congr_right List.mem_cons.symm
  obtain ⟨hnodup, hmem⟩ := merge l [] List.nodup_nil
  exact ⟨hnodup, fun name => (hmem name).trans (or_iff_right List.not_mem_nil)⟩

theorem mem_of_mem_setMember {name : String} {v : Json} {e : String × Json} :
    ∀ {l : List (String × Json)}, e ∈ setMember name v l → e = (name, v) ∨ e ∈ l
  | [], h => Or.inl (List.mem_singleton.mp h)
  | (n, w) :: rest, h => by
    rw [setMember] at h
    split at h
    · rename_i heq
      exact (List.mem_cons.mp h).imp (fun he => by rw [he, heq]) (List.mem_cons_of_mem _)
    · rcases List.mem_cons.mp h with rfl | h
      · exact Or.inr List.mem_cons_self
      · exact (mem_of_mem_setMember h).imp_right (List.mem_cons_of_mem _)

/-- The members of an object are among those it is made of. -/
theorem mem_of_mem_mergeMembers {l : List (String × Json)} {e : String × Json}
    (h : e ∈ mergeMembers l) : e ∈ l := by
  have merge : ∀ (l acc : List (String × Json)),
      e ∈ l.foldl (fun acc m => setMember m.1 m.2 acc) acc → e ∈ acc ∨ e ∈ l := by
    intro l
    induction l with
    | nil => exact fun acc h => Or.inl h
    | cons m rest ih =>
      intro acc h
      rcases ih _ h with h | h
      · exact (mem_of_mem_setMember h).elim (fun he => Or.inr (he ▸ List.mem_cons_self)) Or.inl
      · exact Or.inr (List.mem_cons_of_mem _ h)
  exact (merge l [] h).resolve_left List.not_mem_nil

/-- Members without a name that comes twice are the members of an object. -/
theorem mergeMembers_eq_self {l : List (String × Json)} (h : (memberNames l).Nodup) :
    mergeMembers l = l := by
  have merge : ∀ (l acc : List (String × Json)), (memberNames (acc ++ l)).Nodup →
      l.foldl (fun acc m => setMember m.1 m.2 acc) acc = acc ++ l := by
    intro l
    induction l with
    | nil => exact fun acc _ => (List.append_nil acc).symm
    | cons m rest ih =>
      intro acc h
      have hnew : m.1 ∉ memberNames acc := by
        rw [memberNames_append] at h
        exact fun hm => (List.nodup_append.mp h).2.2 m.1 hm m.1 List.mem_cons_self rfl
      rw [List.foldl_cons, setMember_of_not_mem m.2 hnew, ih _ (by simpa using h)]
      simp
  exact merge l [] h

/-! ## Looking members up -/

/-- A member of two lists is looked for in the first one first. -/
@[simp]
theorem member?_append (name : String) : ∀ l l' : List (String × Json),
    member? name (l ++ l') = (member? name l).or (member? name l')
  | [], _ => rfl
  | (n, w) :: rest, l' => by
    rw [List.cons_append, member?, member?]
    split
    · rfl
    · exact member?_append name rest l'

@[simp]
theorem member?_textMember_of_ne {name name' : String} (h : name' ≠ name) (s : Option String) :
    member? name (textMember name' s) = none := by
  cases s with
  | none => rfl
  | some s => rw [textMember, member?, if_neg h, member?]

end DataSpec.Json
