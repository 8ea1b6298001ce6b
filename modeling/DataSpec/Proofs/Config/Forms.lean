import DataSpec.Proofs.Json.Decode
import DataSpec.Proofs.Json.Overlays

/-!
# Records of records

The form of a document says where its records have which parts (`Form`). What is read at a path
is found record by record (`Form.read?`) : in an object by its name, in an array by its place, and
not at all where it has a default. If a value was laid over the document, it is found again after
the value was laid over what came out (`Form.read?_overlay_again`), and members that no record
asks for are not looked at (`Form.read?_overlay_known`).
-/

set_option autoImplicit false

namespace DataSpec

namespace Json

variable {α β γ : Type}

/-! ## Parts of records -/

/-- What a record with the given names says about one of them. -/
def slot? (names : List String) (name : String) (v : Json) : Option Member :=
  (v.record names).bind fun members => (names.zip members).lookup name

/-- The part of a record that has a name, `d` if it is missing. -/
def part? (names : List String) (name : String) (d : α) (f : Json → Option α) (v : Json) :
    Option α :=
  (slot? names name v).bind fun member => member.withDefault d f

theorem slot?_obj {members : List (String × Json)} (h : (memberNames members).Nodup)
    {names : List String} {name : String} (hname : name ∈ names) :
    slot? names name (.obj members) = some (Member.ofValue? (member? name members)) := by
  rw [slot?, record_obj h, Option.bind_some]
  induction names with
  | nil => simp at hname
  | cons n names ih =>
    rw [List.map_cons, List.zip_cons_cons, List.lookup_cons]
    by_cases heq : name = n
    · simp [heq]
    · rw [beq_false_of_ne heq]
      exact ih ((List.mem_cons.mp hname).resolve_left heq)

theorem length_positional {names : List String} {items : List Json} {members : List Member}
    (h : positional names items = some members) : members.length = names.length := by
  induction names generalizing items members with
  | nil =>
    cases items with
    | nil =>
      obtain rfl := Option.some.inj h
      rfl
    | cons v rest => simp [positional] at h
  | cons name names ih =>
    cases items with
    | nil =>
      obtain ⟨members, hmembers, rfl⟩ := Option.map_eq_some_iff.mp h
      exact congrArg (· + 1) (ih hmembers)
    | cons v rest =>
      obtain ⟨members, hmembers, rfl⟩ := Option.map_eq_some_iff.mp h
      exact congrArg (· + 1) (ih hmembers)

theorem length_byName {members : List (String × Json)} {names : List String}
    {found : List Member} (h : byName members names = some found) :
    found.length = names.length := by
  induction names generalizing found with
  | nil =>
    obtain rfl := Option.some.inj h
    rfl
  | cons name names ih =>
    rw [byName, List.mapM_cons] at h
    obtain ⟨member, -, h⟩ := Option.bind_eq_some_iff.mp h
    obtain ⟨rest, hrest, h⟩ := Option.bind_eq_some_iff.mp h
    obtain rfl := Option.some.inj h
    exact congrArg (· + 1) (ih hrest)

/-- A record says something about each of its members. -/
theorem length_record {v : Json} {names : List String} {members : List Member}
    (h : v.record names = some members) : members.length = names.length := by
  cases v with
  | obj _ => exact length_byName h
  | arr _ => exact length_positional h
  | _ => simp [record] at h

theorem part?_of_record_eq_none {names : List String} {v : Json} (h : v.record names = none)
    (name : String) (d : α) (f : Json → Option α) : part? names name d f v = none := by
  rw [part?, slot?, h]
  rfl

theorem part?_of_record_eq_some {names : List String} {v : Json} {members : List Member}
    (h : v.record names = some members) (name : String) (d : α) (f : Json → Option α) :
    part? names name d f v =
      ((names.zip members).lookup name).bind fun member => member.withDefault d f := by
  rw [part?, slot?, h]
  rfl

/-- What is read of a record with one member. -/
theorem part?_singleton (name : String) (d : α) (f : Json → Option α) (v : Json) :
    (match v.record [name] with
      | some [member] => member.withDefault d f
      | _ => none) = part? [name] name d f v := by
  cases hmembers : v.record [name] with
  | none => rw [part?_of_record_eq_none hmembers]
  | some members =>
    obtain ⟨member, rfl⟩ := List.length_eq_one_iff.mp (length_record hmembers)
    rw [part?_of_record_eq_some hmembers, List.zip_cons_cons, List.lookup_cons, beq_self_eq_true]
    rfl

/-- If a value consists of two, so does a part of a record that is such a value. -/
theorem part?_eq_some_iff_and {names : List String} {name : String} {f : Json → Option α}
    {g : Json → Option β} {h : Json → Option γ} {p : α → β} {q : α → γ} {d a : α} {v : Json}
    (hf : ∀ w a, f w = some a ↔ g w = some (p a) ∧ h w = some (q a))
    (hinj : ∀ {a b}, p a = p b → q a = q b → a = b) :
    part? names name d f v = some a ↔
      part? names name (p d) g v = some (p a) ∧ part? names name (q d) h v = some (q a) := by
  unfold part?
  cases slot? names name v with
  | none => simp
  | some member =>
    cases member with
    | given w => exact hf w a
    | missing | beyondEnd =>
      simp only [Option.bind_some, Member.withDefault, Option.some.injEq]
      exact ⟨fun heq => heq ▸ ⟨rfl, rfl⟩, fun ⟨hp, hq⟩ => hinj hp hq⟩

/-- An array is a record if it is not too long. -/
theorem isSome_positional (names : List String) (items : List Json) :
    (positional names items).isSome = decide (items.length ≤ names.length) := by
  induction names generalizing items with
  | nil => cases items <;> simp [positional]
  | cons name names ih => cases items <;> simp [positional, ih]

theorem part?_arr_cons (n : String) (names : List String) (name : String) (d : α)
    (f : Json → Option α) (v : Json) (rest : List Json) :
    part? (n :: names) name d f (.arr (v :: rest)) =
      if name = n then (if rest.length ≤ names.length then f v else none)
      else part? names name d f (.arr rest) := by
  have hlength := isSome_positional names rest
  simp only [part?, slot?, record, positional]
  cases hmembers : positional names rest with
  | none =>
    rw [hmembers] at hlength
    simp [of_decide_eq_false hlength.symm]
  | some members =>
    rw [hmembers] at hlength
    rw [if_pos (of_decide_eq_true hlength.symm)]
    by_cases h : name = n <;> simp [List.lookup_cons, h, beq_false_of_ne]

end Json

/-! ## Forms -/

/-- How settings are written : a value of some kind, or a record of settings with names. -/
inductive Form where
  | value
  | record (parts : List (String × Form))

namespace Form

variable {α : Type} {d : α} {f : Json → Option α}

/-- The value at a path, as `f` reads it, or `d` where a record leaves out what leads there. -/
def read? (d : α) (f : Json → Option α) : Form → List String → Json → Option α
  | .value, [], v => f v
  | .record parts, name :: path, v =>
    match parts.lookup name with
    | some part => v.part? (parts.map Prod.fst) name d (part.read? d f path)
    | none => none
  | _, _, _ => none

mutual

/-- A value without the members that the records of a form do not have. -/
def known : Form → Json → Json
  | .record parts, .obj members => .obj (knownMembers parts members)
  | .record parts, .arr items => .arr (knownItems parts items)
  | _, v => v

/-- The members of an object that a record has. -/
def knownMembers (parts : List (String × Form)) : List (String × Json) → List (String × Json)
  | [] => []
  | (name, v) :: rest =>
    match parts.lookup name with
    | some part => (name, part.known v) :: knownMembers parts rest
    | none => knownMembers parts rest

/-- The items of an array, which are the parts of a record by their places. -/
def knownItems : List (String × Form) → List Json → List Json
  | (_, part) :: parts, v :: rest => part.known v :: knownItems parts rest
  | _, items => items

end

theorem mem_names_of_lookup {parts : List (String × Form)} {name : String} {part : Form}
    (h : parts.lookup name = some part) : name ∈ parts.map Prod.fst := by
  obtain ⟨before, after, rfl, -⟩ := List.lookup_eq_some_iff.mp h
  simp

theorem read?_record_obj {parts : List (String × Form)} {name : String} {part : Form}
    (hpart : parts.lookup name = some part) {members : List (String × Json)}
    (h : (Json.memberNames members).Nodup) (path : List String) :
    (record parts).read? d f (name :: path) (.obj members) =
      (Json.Member.ofValue? (Json.member? name members)).withDefault d (part.read? d f path) := by
  simp only [read?, hpart, Json.part?, Json.slot?_obj h (mem_names_of_lookup hpart),
    Option.bind_some]

/-- What is read is the value at the path, if the path leads to one. -/
theorem read?_of_at? {form : Form} {path : List String} {v w : Json} {x : α}
    (hm : v.merged = v) (hw : v.at? path = some w) (h : form.read? d f path v = some x) :
    f w = some x := by
  induction path generalizing form v with
  | nil =>
    obtain rfl := Option.some.inj hw
    cases form with
    | value => exact h
    | record parts => simp [read?] at h
  | cons name path ih =>
    obtain ⟨v₁, hv₁, hw₁⟩ := Option.bind_eq_some_iff.mp hw
    cases v <;> simp only [Json.get?, reduceCtorEq] at hv₁
    cases form with
    | value => simp [read?] at h
    | record parts =>
      cases hpart : parts.lookup name with
      | none => simp [read?, hpart] at h
      | some part =>
        rw [read?_record_obj hpart (Json.merged_obj_iff.mp hm).1, hv₁] at h
        exact ih (Json.merged_of_member? hm hv₁) hw₁ h

/-- What is read after a value was laid over another one is read again after it was laid over
one that has this in its place. -/
theorem read?_overlay_again {form : Form} {path : List String} {below below' upper w w' : Json}
    {x : α} (hb : below.merged = below) (hb' : below'.merged = below')
    (hu : upper.merged = upper) (hw : below.at? path = some w) (hwobj : ∀ members, w ≠ .obj members)
    (hw' : below'.at? path = some w') (hwobj' : ∀ members, w' ≠ .obj members)
    (hread : form.read? d f path (below.overlay upper) = some x)
    (hread' : form.read? d f path below' = some x) :
    form.read? d f path (below'.overlay upper) = some x := by
  induction path generalizing form below below' upper with
  | nil =>
    obtain rfl := Option.some.inj hw
    obtain rfl := Option.some.inj hw'
    rw [Json.overlay_of_not_obj hwobj] at hread
    rwa [Json.overlay_of_not_obj hwobj']
  | cons name path ih =>
    obtain ⟨w₁, hw₁, hat⟩ := Option.bind_eq_some_iff.mp hw
    obtain ⟨w₁', hw₁', hat'⟩ := Option.bind_eq_some_iff.mp hw'
    cases below <;> simp only [Json.get?, reduceCtorEq] at hw₁
    rename_i members
    cases below' <;> simp only [Json.get?, reduceCtorEq] at hw₁'
    rename_i members'
    cases form with
    | value => simp [read?] at hread
    | record parts =>
      cases hpart : parts.lookup name with
      | none => simp [read?, hpart] at hread
      | some part =>
        cases upper with
        | obj upper =>
          obtain ⟨hnodup, -⟩ := Json.merged_obj_iff.mp hu
          obtain ⟨hbnodup, -⟩ := Json.merged_obj_iff.mp hb
          obtain ⟨hbnodup', -⟩ := Json.merged_obj_iff.mp hb'
          rw [Json.overlay, read?_record_obj hpart
            (Json.nodup_memberNames_overlayMembers hbnodup upper),
            Json.member?_overlayMembers hnodup, hw₁] at hread
          rw [read?_record_obj hpart hbnodup', hw₁'] at hread'
          rw [Json.overlay, read?_record_obj hpart
            (Json.nodup_memberNames_overlayMembers hbnodup' upper),
            Json.member?_overlayMembers hnodup, hw₁']
          cases hv : Json.member? name upper with
          | none => exact hread'
          | some v =>
            rw [hv] at hread
            exact ih (Json.merged_of_member? hb hw₁) (Json.merged_of_member? hb' hw₁')
              (Json.merged_of_member? hu hv) hat hat' hread hread'
        | _ => exact hread

/-! ## Members that no record has -/

theorem known_value (v : Json) : value.known v = v := by
  cases v <;> rfl

theorem member?_knownMembers {parts : List (String × Form)} {name : String} {part : Form}
    (h : parts.lookup name = some part) (members : List (String × Json)) :
    Json.member? name (knownMembers parts members) =
      (Json.member? name members).map part.known := by
  induction members with
  | nil => rfl
  | cons m rest ih =>
    obtain ⟨n, v⟩ := m
    by_cases heq : n = name
    · subst heq
      simp [knownMembers, h, Json.member?]
    · rw [Json.member?, if_neg heq, ← ih, knownMembers]
      split
      · rw [Json.member?, if_neg heq]
      · rfl

theorem memberNames_knownMembers (parts : List (String × Form)) (members : List (String × Json)) :
    (Json.memberNames (knownMembers parts members)).Sublist (Json.memberNames members) := by
  induction members with
  | nil => exact .slnil
  | cons m rest ih =>
    obtain ⟨n, v⟩ := m
    rw [knownMembers]
    split
    · exact ih.cons_cons n
    · exact ih.cons n

theorem length_knownItems (parts : List (String × Form)) (items : List Json) :
    (knownItems parts items).length = items.length := by
  induction items generalizing parts with
  | nil => cases parts <;> rfl
  | cons v rest ih =>
    cases parts with
    | nil => rfl
    | cons part parts => exact congrArg (· + 1) (ih parts)

/-- The parts of an array are found at their places. -/
theorem part?_knownItems {parts : List (String × Form)} {name : String} {part : Form}
    (h : parts.lookup name = some part) {items : List Json}
    (hf : ∀ v ∈ items, f (part.known v) = f v) :
    Json.part? (parts.map Prod.fst) name d f (.arr (knownItems parts items)) =
      Json.part? (parts.map Prod.fst) name d f (.arr items) := by
  induction parts generalizing items with
  | nil => simp at h
  | cons head parts ih =>
    obtain ⟨n, form⟩ := head
    cases items with
    | nil => rfl
    | cons v rest =>
      rw [knownItems, List.map_cons, Json.part?_arr_cons, Json.part?_arr_cons,
        length_knownItems]
      rw [List.lookup_cons] at h
      by_cases hn : name = n
      · rw [if_pos hn, if_pos hn]
        obtain rfl : form = part := by simpa [hn] using h
        rw [hf v List.mem_cons_self]
      · rw [if_neg hn, if_neg hn]
        rw [beq_false_of_ne hn] at h
        exact ih h fun w hw => hf w (List.mem_cons_of_mem _ hw)

/-- What is read does not depend on members that no record has. -/
theorem read?_known {form : Form} {path : List String} {v : Json} (hm : v.merged = v) :
    form.read? d f path (form.known v) = form.read? d f path v := by
  induction path generalizing form v with
  | nil =>
    cases form with
    | value => rw [known_value]
    | record parts => rfl
  | cons name path ih =>
    cases form with
    | value => rfl
    | record parts =>
      cases hpart : parts.lookup name with
      | none => simp only [read?, hpart]
      | some part =>
        cases v with
        | obj members =>
          obtain ⟨hnodup, hmembers⟩ := Json.merged_obj_iff.mp hm
          rw [known, read?_record_obj hpart hnodup, read?_record_obj hpart
            ((memberNames_knownMembers parts members).nodup hnodup), member?_knownMembers hpart]
          cases hv : Json.member? name members with
          | none => rfl
          | some v => exact ih (Json.merged_of_member? hm hv)
        | arr items =>
          simp only [known, read?, hpart]
          exact part?_knownItems hpart fun v hv => ih (Json.merged_arr_iff.mp hm v hv)
        | _ => rfl

/-- So it is if the value is laid over another one. -/
theorem read?_overlay_known {form : Form} {path : List String} {below upper : Json}
    (hb : below.merged = below) (hu : upper.merged = upper) :
    form.read? d f path (below.overlay (form.known upper)) =
      form.read? d f path (below.overlay upper) := by
  induction path generalizing form below upper with
  | nil =>
    cases form with
    | value => rw [known_value]
    | record parts => rfl
  | cons name path ih =>
    cases form with
    | value => rfl
    | record parts =>
      cases hpart : parts.lookup name with
      | none => simp only [read?, hpart]
      | some part =>
        cases upper with
        | obj upper =>
          cases below with
          | obj members =>
            obtain ⟨hnodup, -⟩ := Json.merged_obj_iff.mp hu
            obtain ⟨hbnodup, -⟩ := Json.merged_obj_iff.mp hb
            have hknown := (memberNames_knownMembers parts upper).nodup hnodup
            rw [known, Json.overlay, Json.overlay,
              read?_record_obj hpart (Json.nodup_memberNames_overlayMembers hbnodup _),
              read?_record_obj hpart (Json.nodup_memberNames_overlayMembers hbnodup _),
              Json.member?_overlayMembers hknown, Json.member?_overlayMembers hnodup,
              member?_knownMembers hpart]
            cases hv : Json.member? name upper with
            | none => rfl
            | some v => exact ih (Json.merged_getD_member? hb name) (Json.merged_of_member? hu hv)
          | _ => exact read?_known hu
        | _ => exact read?_known hu

end Form

end DataSpec
