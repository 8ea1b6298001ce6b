import DataSpec.Config.Generation
import DataSpec.Proofs.Json.Members

/-!
# Values laid over others

An object that is laid over another one is laid over it member by member, so its members are
found one by one (`member?_overlayMembers`) if no name comes twice in it. What is at a path after
an object was laid over a value follows by induction on the path : it is what the object has
there (`at?_overlay_of_some`), or else what was there before (`at?_overlay_of_none`).
-/

set_option autoImplicit false

namespace DataSpec.Json

/-! ## Objects in which no name comes twice -/

theorem map_eq_self_iff {α : Type} {f : α → α} {l : List α} :
    l.map f = l ↔ ∀ a ∈ l, f a = a := by
  simpa using List.map_inj_left (l := l) (f := f) (g := id)

/-- Items are merged one by one. -/
theorem mergedItems_eq_map (items : List Json) : mergedItems items = items.map merged := by
  induction items with
  | nil => rfl
  | cons v rest ih => rw [mergedItems, ih, List.map_cons]

/-- The values of members are merged one by one. -/
theorem mergedMembers_eq_map (members : List (String × Json)) :
    mergedMembers members = members.map fun m => (m.1, m.2.merged) := by
  induction members with
  | nil => rfl
  | cons m rest ih => rw [mergedMembers, ih, List.map_cons]

/-- In an array no name comes twice if it does in none of the items. -/
theorem merged_arr_iff {items : List Json} :
    (arr items).merged = arr items ↔ ∀ v ∈ items, v.merged = v := by
  rw [merged, mergedItems_eq_map, arr.injEq, map_eq_self_iff]

/-- In an object no name comes twice if its own are different and it does in none of the values. -/
theorem merged_obj_iff {members : List (String × Json)} :
    (obj members).merged = obj members ↔
      (memberNames members).Nodup ∧ ∀ m ∈ members, m.2.merged = m.2 := by
  have hnames : memberNames (mergedMembers members) = memberNames members := by
    rw [mergedMembers_eq_map, memberNames, List.map_map]
    rfl
  have hmerge (h : (memberNames members).Nodup) :
      mergeMembers (mergedMembers members) = members ↔ ∀ m ∈ members, m.2.merged = m.2 := by
    rw [mergeMembers_eq_self (hnames ▸ h), mergedMembers_eq_map, map_eq_self_iff]
    exact forall₂_congr fun m _ => ⟨congrArg Prod.snd, fun h => Prod.ext rfl h⟩
  rw [merged, obj.injEq]
  constructor
  · intro h
    have hnodup : (memberNames members).Nodup :=
      h ▸ (memberNames_mergeMembers (mergedMembers members)).1
    exact ⟨hnodup, (hmerge hnodup).mp h⟩
  · rintro ⟨hnodup, hvalues⟩
    exact (hmerge hnodup).mpr hvalues

@[simp]
theorem merged_str (s : String) : (str s).merged = str s := rfl

@[simp]
theorem merged_bool (b : Bool) : (bool b).merged = bool b := rfl

@[simp]
theorem merged_strings (l : List String) : (strings l).merged = strings l := by
  simp [strings, merged_arr_iff]

theorem mem_of_member? {name : String} {v : Json} {members : List (String × Json)}
    (h : member? name members = some v) : (name, v) ∈ members := by
  induction members with
  | nil => simp [member?] at h
  | cons m rest ih =>
    rw [member?] at h
    split at h
    · rename_i heq
      obtain rfl := Option.some.inj h
      exact heq ▸ List.mem_cons_self
    · exact List.mem_cons_of_mem _ (ih h)

/-- The value of a member is such an object if the whole is. -/
theorem merged_of_member? {members : List (String × Json)}
    (h : (obj members).merged = obj members) {name : String} {v : Json}
    (hv : member? name members = some v) : v.merged = v :=
  (merged_obj_iff.mp h).2 _ (mem_of_member? hv)

theorem merged_getD_member? {members : List (String × Json)}
    (h : (obj members).merged = obj members) (name : String) :
    ((member? name members).getD .null).merged = (member? name members).getD .null := by
  cases hv : member? name members with
  | none => rfl
  | some v => exact merged_of_member? h hv

/-- There is no value for a name that does not occur. -/
theorem member?_eq_none {name : String} {members : List (String × Json)}
    (h : name ∉ memberNames members) : member? name members = none := by
  cases hv : member? name members with
  | none => rfl
  | some v => exact absurd (List.mem_map_of_mem (mem_of_member? hv)) h

/-- To set a member changes no other one. -/
theorem member?_setMember (name name' : String) (v : Json) (members : List (String × Json)) :
    member? name' (setMember name v members) =
      if name' = name then some v else member? name' members := by
  induction members with
  | nil => simp [setMember, member?, eq_comm]
  | cons m rest ih =>
    obtain ⟨n, w⟩ := m
    rw [setMember]
    split
    · rename_i heq
      subst heq
      rw [member?, member?]
      by_cases hn : n = name'
      · rw [if_pos hn, if_pos hn.symm]
      · rw [if_neg hn, if_neg (Ne.symm hn), if_neg hn]
    · rename_i hne
      rw [member?, ih, member?]
      by_cases hn : n = name'
      · subst hn
        simp [hne]
      · simp [hn]

/-! ## Overlays -/

/-- What is laid over nothing is as it is. -/
@[simp]
theorem overlay_null (v : Json) : overlay .null v = v := by
  cases v <;> rfl

/-- Anything but an object is laid over with what takes its place. -/
theorem overlay_of_not_obj {below : Json} (h : ∀ members, below ≠ .obj members) (v : Json) :
    below.overlay v = v := by
  cases v <;> try rfl
  cases below <;> first | rfl | exact absurd rfl (h _)

/-- A member of an object that is laid over another one takes the place of what is below, and
members that it does not have are kept. -/
theorem member?_overlayMembers {upper : List (String × Json)} (h : (memberNames upper).Nodup)
    (below : List (String × Json)) (name : String) :
    member? name (overlayMembers below upper) =
      ((member? name upper).map (overlay ((member? name below).getD .null))).or
        (member? name below) := by
  induction upper generalizing below with
  | nil => rfl
  | cons m rest ih =>
    obtain ⟨n, v⟩ := m
    obtain ⟨hnew, hrest⟩ := List.nodup_cons.mp h
    rw [overlayMembers, ih hrest, member?_setMember, member?]
    by_cases hn : n = name
    · subst hn
      rw [member?_eq_none hnew]
      simp
    · simp [hn, Ne.symm hn]

/-- No name comes twice in an object over which another one is laid. -/
theorem nodup_memberNames_overlayMembers {below : List (String × Json)}
    (h : (memberNames below).Nodup) (upper : List (String × Json)) :
    (memberNames (overlayMembers below upper)).Nodup := by
  induction upper generalizing below with
  | nil => exact h
  | cons m rest ih => exact ih (nodup_memberNames_setMember h)

mutual

/-- Values in which no name comes twice are laid over each other without one. -/
theorem merged_overlay {below : Json} (hb : below.merged = below) :
    ∀ {v : Json}, v.merged = v → (below.overlay v).merged = below.overlay v
  | .obj upper, hv => by
    cases below with
    | obj members => exact merged_overlayMembers hb (merged_obj_iff.mp hv).2
    | _ => exact hv
  | .null, hv | .bool _, hv | .int _, hv | .decimal _, hv | .str _, hv | .arr _, hv
  | .unreadable, hv => hv

/-- The same with the members of two objects. -/
theorem merged_overlayMembers {below : List (String × Json)}
    (hb : (obj below).merged = obj below) : ∀ {upper : List (String × Json)},
      (∀ m ∈ upper, m.2.merged = m.2) →
        (obj (overlayMembers below upper)).merged = obj (overlayMembers below upper)
  | [], _ => hb
  | (name, v) :: rest, h => by
    rw [overlayMembers]
    obtain ⟨hv, hrest⟩ := List.forall_mem_cons.mp h
    refine merged_overlayMembers (merged_obj_iff.mpr ⟨?_, fun m hm => ?_⟩) hrest
    · exact nodup_memberNames_setMember (merged_obj_iff.mp hb).1
    · rcases mem_of_mem_setMember hm with rfl | hm
      · exact merged_overlay (merged_getD_member? hb name) hv
      · exact (merged_obj_iff.mp hb).2 m hm

end

/-! ## Paths -/

/-- The value to which a path of names leads through objects. -/
def at? : Json → List String → Option Json
  | v, [] => some v
  | v, name :: path => (v.get? name).bind fun w => w.at? path

/-- Whether a value has nothing but objects on the way to a path. -/
def Passable (v : Json) (path : List String) : Prop :=
  ∀ before, before <+: path → before ≠ path → ∀ w, v.at? before = some w →
    ∃ members, w = .obj members

/-- What is laid over is at every path to which it leads, over anything but an object. -/
theorem at?_overlay_of_some {path : List String} {below upper v w : Json}
    (hm : upper.merged = upper) (hbelow : below.at? path = some w)
    (hw : ∀ members, w ≠ .obj members) (hv : upper.at? path = some v) :
    (below.overlay upper).at? path = some v := by
  induction path generalizing below upper with
  | nil =>
    obtain rfl := Option.some.inj hbelow
    obtain rfl := Option.some.inj hv
    exact congrArg some (overlay_of_not_obj hw _)
  | cons name path ih =>
    obtain ⟨w₁, hw₁, hbelow₁⟩ := Option.bind_eq_some_iff.mp hbelow
    obtain ⟨v₁, hv₁, hupper₁⟩ := Option.bind_eq_some_iff.mp hv
    cases below <;> simp only [get?, reduceCtorEq] at hw₁
    cases upper <;> simp only [get?, reduceCtorEq] at hv₁
    rename_i members upper
    have hmember := member?_overlayMembers (merged_obj_iff.mp hm).1 members name
    rw [hv₁, hw₁, Option.map_some, Option.some_or, Option.getD_some] at hmember
    rw [at?, overlay, get?, hmember]
    exact ih (merged_of_member? hm hv₁) hbelow₁ hupper₁

/-- A way that leads through an object goes on in the member. -/
theorem Passable.member {members : List (String × Json)} {name : String} {path : List String}
    {v : Json} (h : (obj members).Passable (name :: path)) (hv : member? name members = some v) :
    v.Passable path := by
  intro before hprefix hne w hw
  refine h (name :: before) (List.cons_prefix_cons.mpr ⟨rfl, hprefix⟩) ?_ w ?_
  · exact fun heq => hne (List.cons.inj heq).2
  · rwa [at?, get?, hv]

/-- What is below is still at a path to which what is laid over does not lead, if that has only
objects on the way. -/
theorem at?_overlay_of_none {path : List String} {below upper : Json}
    (hm : upper.merged = upper) (hnone : upper.at? path = none) (hpass : upper.Passable path) :
    (below.overlay upper).at? path = below.at? path := by
  induction path generalizing below upper with
  | nil => simp [at?] at hnone
  | cons name path ih =>
    obtain ⟨upper, rfl⟩ := hpass [] List.nil_prefix (List.cons_ne_nil _ _).symm upper rfl
    cases below with
    | obj members =>
      have hmember := member?_overlayMembers (merged_obj_iff.mp hm).1 members name
      rw [overlay, at?, at?, get?, get?, hmember]
      cases hv : member? name upper with
      | none => rfl
      | some v =>
        have hpath : v.at? path = none := by rwa [at?, get?, hv] at hnone
        rw [Option.map_some, Option.some_or, Option.bind_some,
          ih (merged_of_member? hm hv) hpath (hpass.member hv)]
        cases member? name members with
        | some w => rfl
        | none =>
          cases path with
          | nil => simp [at?] at hpath
          | cons _ _ => rfl
    | _ => exact hnone

end DataSpec.Json
