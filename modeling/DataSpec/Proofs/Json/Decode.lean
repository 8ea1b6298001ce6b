import DataSpec.Json.Decode
import DataSpec.Proofs.Json.Members
import DataSpec.Proofs.Json.RoundTrip
import DataSpec.Proofs.SortedMap

/-!
# Readers of written values

What the readers make of values as they are written. A record finds its members in any object that
has no name twice (`record_obj`); a list, a map and an optional value are read back if their parts
are (`list?_map`, `map?_obj`, `option?_orNull`). Beside each of them stands the fact that the
written value is plain, so its text can be read back, too.
-/

set_option autoImplicit false

namespace DataSpec.Json

/-! ## Records -/

/-- What a record says about a member with the given value, if it has one. -/
def Member.ofValue? : Option Json → Member
  | some v => .given v
  | none => .missing

namespace Member

variable {α : Type} (f : Json → Option α) (v : Json)

/-- A member is given if the object has it. -/
@[simp]
theorem ofValue?_some : ofValue? (some v) = .given v := rfl

/-- A member is missing if the object does not have it. -/
@[simp]
theorem ofValue?_none : ofValue? none = .missing := rfl

/-- A required member that is given is read. -/
@[simp]
theorem required_given : required f (.given v) = f v := rfl

/-- An optional member that is given may be `null`. -/
@[simp]
theorem optional_given : optional f (.given v) = option? f v := rfl

/-- The default does not matter for a member that is given. -/
@[simp]
theorem withDefault_given (d : α) : withDefault d f (.given v) = f v := rfl

/-- For a missing member there is the default. -/
@[simp]
theorem withDefault_missing (d : α) : withDefault d f .missing = some d := rfl

end Member

theorem str_ne_null (s : String) : Json.str s ≠ .null := nofun

@[simp]
theorem str?_str (s : String) : str? (.str s) = some s := rfl

/-- If no name comes twice, there is at most one member of a name. -/
theorem filter_eq_member? {members : List (String × Json)} (h : (memberNames members).Nodup)
    (name : String) :
    (members.filter fun m => m.1 = name) = (member? name members).toList.map (name, ·) := by
  induction members with
  | nil => rfl
  | cons m rest ih =>
    obtain ⟨hnew, hrest⟩ := List.nodup_cons.mp h
    rw [List.filter_cons, member?]
    split
    · rename_i heq
      obtain rfl : m.1 = name := of_decide_eq_true heq
      have hnone : (rest.filter fun m' => m'.1 = m.1) = [] := by
        refine List.filter_eq_nil_iff.mpr fun m' hm' heq' => hnew ?_
        exact of_decide_eq_true heq' ▸ List.mem_map_of_mem hm'
      rw [hnone, if_pos rfl]
      rfl
    · rename_i hne
      rw [if_neg fun heq => hne (decide_eq_true heq)]
      exact ih hrest

/-- A record finds its members in an object by their names. -/
theorem record_obj {members : List (String × Json)} (h : (memberNames members).Nodup)
    (names : List String) :
    record names (.obj members) =
      some (names.map fun name => Member.ofValue? (member? name members)) := by
  rw [record, byName]
  induction names with
  | nil => rfl
  | cons name names ih =>
    rw [List.mapM_cons, ih, filter_eq_member? h, List.map_cons]
    cases member? name members <;> rfl

/-! ## Lists, maps and optional values -/

section

variable {α β : Type}

/-- A list is read back if its elements are. -/
theorem list?_map {f : Json → Option α} {g : α → Json} {l : List α}
    (h : ∀ a ∈ l, f (g a) = some a) : list? f (.arr (l.map g)) = some l :=
  mapM_map_eq_some h

theorem list?_strings (l : List String) : list? str? (strings l) = some l :=
  list?_map fun _ _ => rfl

/-- A map is read back if its keys and values are. -/
theorem map?_obj [KeyOrder α] [DecidableEq α] {f : Json → Option β} {g : β → Json}
    {p : String → Option α} {q : α → String} {m : SortedMap α β} (hkey : ∀ k, p (q k) = some k)
    (h : ∀ v, f (g v) = some v) :
    map? p f (.obj (m.toList.map fun e => (q e.1, g e.2))) = some m := by
  refine (congrArg (Option.map SortedMap.ofList) (mapM_map_eq_some fun e _ => ?_)).trans ?_
  · simp only [hkey, h]
  · rw [Option.map_some, SortedMap.ofList_toList]

/-- An optional value is read back if values are, and none of them is written as `null`. -/
theorem option?_orNull {f : Json → Option α} {g : α → Json} {a : Option α}
    (hnull : ∀ b, g b ≠ .null) (h : ∀ b, f (g b) = some b) :
    option? f (orNull (a.map g)) = some a := by
  cases a with
  | none => rfl
  | some b =>
    rw [Option.map_some, orNull, option?, h b]
    · rfl
    · exact hnull b

/-- Numbers below the bound are read back. -/
theorem natBelow?_nat {bound n : Nat} (h : n < bound) : natBelow? bound (nat n) = some n := by
  rw [natBelow?, nat, int?, Option.bind_some, if_pos (by omega), Int.toNat_natCast]

end

/-! ## Plain written values -/

section

variable {room : Nat}

/-- Numbers that have 64 bits are plain. -/
theorem plain_nat {n : Nat} (h : n < UInt64.size) : Plain room (nat n) :=
  .int (Int.le_trans (by decide) (Int.natCast_nonneg n)) (Int.ofNat_lt.mpr h)

theorem plain_orNull {α : Type} {g : α → Json} {a : Option α} (h : ∀ b, Plain room (g b)) :
    Plain room (orNull (a.map g)) := by
  cases a with
  | none => exact .null
  | some b => exact h b

/-- A list has a level more than its elements. -/
theorem plain_list {α : Type} {g : α → Json} {l : List α} (h : ∀ a, Plain room (g a)) :
    Plain (room + 1) (.arr (l.map g)) := by
  refine .arr fun v hv => ?_
  obtain ⟨a, -, rfl⟩ := List.mem_map.mp hv
  exact h a

/-- A map has a level more than its values. -/
theorem plain_map {α β : Type} [KeyOrder α] {g : β → Json} {q : α → String} {m : SortedMap α β}
    (h : ∀ v, Plain room (g v)) :
    Plain (room + 1) (.obj (m.toList.map fun e => (q e.1, g e.2))) := by
  refine .obj fun e' he' => ?_
  obtain ⟨e, -, rfl⟩ := List.mem_map.mp he'
  exact h e.2

theorem plain_strings (l : List String) : Plain (room + 1) (strings l) := plain_list .str

end

end DataSpec.Json
