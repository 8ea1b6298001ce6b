import DataSpec.Json.Parser
import DataSpec.Proofs.Json.Scanning

/-!
# Reading back what was written

A value is `Json.Plain` if its text keeps all of it : its numbers are integers of 64 bits, it has
no unreadable part, and only so many arrays and objects are inside one another. `Json.tokens` are
the tokens of such a value. Both printed forms are read as these tokens (`reads_compact`,
`reads_prettyAt`), and the reader makes the value of them (`foldlM_tokens`), so reading undoes
writing (`parse?_compact`, `parse?_pretty`).
-/

set_option autoImplicit false

namespace DataSpec.Json

open Token (Reads Closed)

/-- A value that a text keeps as it is, with at most `room` arrays and objects inside one
another. -/
inductive Plain : Nat → Json → Prop where
  | null {room : Nat} : Plain room .null
  | bool {room : Nat} (b : Bool) : Plain room (.bool b)
  | int {room : Nat} {n : Int} : Int64.minValue.toInt ≤ n → n < UInt64.size → Plain room (.int n)
  | str {room : Nat} (s : String) : Plain room (.str s)
  | arr {room : Nat} {items : List Json} : (∀ v ∈ items, Plain room v) →
      Plain (room + 1) (.arr items)
  | obj {room : Nat} {members : List (String × Json)} : (∀ m ∈ members, Plain room m.2) →
      Plain (room + 1) (.obj members)

/-- Values that were written one by one are read one by one. -/
theorem mapM_map_eq_some {α γ : Type} {f : γ → Option α} {g : α → γ} {l : List α}
    (h : ∀ a ∈ l, f (g a) = some a) : (l.map g).mapM f = some l := by
  induction l with
  | nil => rfl
  | cons a l ih =>
    rw [List.map_cons, List.mapM_cons, h a List.mem_cons_self,
      ih fun b hb => h b (List.mem_cons_of_mem a hb)]
    rfl

/-! ## Tokens of a value -/

/-- Runs of tokens with commas between them. -/
def separated : List (List Token) → List Token
  | [] => []
  | [ts] => ts
  | ts :: rest => ts ++ .comma :: separated rest

mutual

/-- The tokens of a value. -/
def tokens : Json → List Token
  | .null => [.null]
  | .bool b => [.bool b]
  | .int n => [.int n]
  | .decimal d => [.decimal d]
  | .unreadable => [.null]
  | .str s => [.str s]
  | .arr items => .beginArray :: (separated (itemTokens items) ++ [.endArray])
  | .obj members => .beginObject :: (separated (memberTokens members) ++ [.endObject])

/-- The tokens of each item. -/
def itemTokens : List Json → List (List Token)
  | [] => []
  | v :: rest => v.tokens :: itemTokens rest

/-- The tokens of each member. -/
def memberTokens : List (String × Json) → List (List Token)
  | [] => []
  | (n, v) :: rest => (.str n :: .colon :: v.tokens) :: memberTokens rest

end

theorem itemTokens_eq_map (items : List Json) : itemTokens items = items.map tokens := by
  induction items with
  | nil => rfl
  | cons v rest ih => rw [itemTokens, ih, List.map_cons]

theorem memberTokens_eq_map (members : List (String × Json)) :
    memberTokens members = members.map fun m => .str m.1 :: .colon :: m.2.tokens := by
  induction members with
  | nil => rfl
  | cons m rest ih => rw [memberTokens, ih, List.map_cons]

/-! ## Items and members as joined texts -/

theorem compactItems_eq_join :
    ∀ items, compactItems items = Text.join "," (items.map compact)
  | [] => rfl
  | [_] => rfl
  | v :: w :: rest => congrArg (v.compact ++ "," ++ ·) (compactItems_eq_join (w :: rest))

theorem compactMembers_eq_join :
    ∀ members, compactMembers members =
      Text.join "," (members.map fun m => quoted m.1 ++ ":" ++ m.2.compact)
  | [] => rfl
  | [_] => rfl
  | m :: m' :: rest =>
    congrArg (quoted m.1 ++ ":" ++ m.2.compact ++ "," ++ ·) (compactMembers_eq_join (m' :: rest))

theorem prettyItems_eq_join (depth : Nat) :
    ∀ items, prettyItems depth items =
      Text.join ("," ++ newLine depth) (items.map (prettyAt depth))
  | [] => rfl
  | [_] => rfl
  | v :: w :: rest => by
    have hrest := congrArg (v.prettyAt depth ++ "," ++ newLine depth ++ ·)
      (prettyItems_eq_join depth (w :: rest))
    exact hrest.trans (congrArg (· ++ _) String.append_assoc)

theorem prettyMembers_eq_join (depth : Nat) :
    ∀ members, prettyMembers depth members =
      Text.join ("," ++ newLine depth)
        (members.map fun m => quoted m.1 ++ ": " ++ m.2.prettyAt depth)
  | [] => rfl
  | [_] => rfl
  | m :: m' :: rest => by
    have hrest := congrArg (quoted m.1 ++ ": " ++ m.2.prettyAt depth ++ "," ++ newLine depth ++ ·)
      (prettyMembers_eq_join depth (m' :: rest))
    exact hrest.trans (congrArg (· ++ _) String.append_assoc)

/-! ## From the text to the tokens -/

section

variable {a b : String} {t t' : Token} {ts us : List Token}

theorem reads_empty : Reads "" [] := fun _ _ _ => rfl

theorem reads_null : Reads "null" [.null] :=
  Token.reads_word (by decide) (by decide) (by decide)

theorem reads_true : Reads "true" [.bool true] :=
  Token.reads_word (by decide) (by decide) (by decide)

theorem reads_false : Reads "false" [.bool false] :=
  Token.reads_word (by decide) (by decide) (by decide)

/-- A name, a colon and a value. -/
theorem reads_member {colon : String} (hcolon : Closed colon [.colon]) (name : String)
    (ha : Reads a ts) : Reads (quoted name ++ colon ++ a) (.str name :: .colon :: ts) :=
  ((Token.closed_quoted name).append_closed hcolon).append ha

/-- What stands between brackets. -/
theorem closed_between {l r : String} {c : Char} (hl : Closed l [t]) (ha : Reads a ts)
    (hr : Closed r [t']) (hfirst : r.toList.head? = some c) (hc : Token.isWordChar c = false) :
    Closed (l ++ a ++ r) (t :: (ts ++ [t'])) :=
  (hl.append ha).append hr hfirst hc

/-- What stands between brackets on lines of its own. -/
theorem closed_lines {l r : String} (hl : Closed l [t]) (ha : Reads a ts) (hr : Closed r [t'])
    (inner outer : Nat) :
    Closed (l ++ newLine inner ++ a ++ newLine outer ++ r) (t :: (ts ++ [t'])) := by
  have hopen : Closed (l ++ newLine inner) [t] := hl.append_closed (Token.closed_newLine inner)
  have hclose : Closed (newLine outer ++ r) [t'] := (Token.closed_newLine outer).append_closed hr
  rw [String.append_assoc]
  refine closed_between hopen ha hclose ?_ (show Token.isWordChar '\n' = false by decide)
  rw [String.toList_append, Token.toList_newLine]
  rfl

/-- Texts that are joined with commas. -/
theorem reads_join {α : Type} {sep : String} (hsep : Closed sep [.comma])
    (hfirst : sep.toList.head? = some ',') {f : α → String} {g : α → List Token} {l : List α}
    (h : ∀ x ∈ l, Reads (f x) (g x)) : Reads (Text.join sep (l.map f)) (separated (l.map g)) := by
  induction l with
  | nil => exact reads_empty
  | cons x rest ih =>
    have hx := h x List.mem_cons_self
    cases rest with
    | nil => exact hx
    | cons y rest =>
      have hrest := ih fun z hz => h z (List.mem_cons_of_mem x hz)
      simpa [Text.join, separated] using (hx.append hsep hfirst (by decide)).append hrest

theorem closed_comma : Closed "," [.comma] := Token.closed_mark rfl rfl

theorem closed_colon : Closed ":" [.colon] := Token.closed_mark rfl rfl

theorem closed_comma_newLine (depth : Nat) : Closed ("," ++ newLine depth) [.comma] :=
  closed_comma.append_closed (Token.closed_newLine depth)

theorem head?_comma_newLine (depth : Nat) : ("," ++ newLine depth).toList.head? = some ',' := by
  rw [String.toList_append]
  rfl

theorem closed_colon_blank : Closed ": " [.colon] :=
  closed_colon.append_closed (b := " ") (Token.closed_mark rfl rfl)

end

/-- The tokens of a value on one line. -/
theorem reads_compact {room : Nat} {v : Json} (h : Plain room v) : Reads v.compact v.tokens := by
  induction h with
  | null => exact reads_null
  | bool b => cases b; exacts [reads_false, reads_true]
  | int hmin hmax => exact Token.reads_int hmin hmax
  | str s => exact (Token.closed_quoted s).reads
  | @arr room items _ ih =>
    have hitems : Reads (compactItems items) (separated (itemTokens items)) := by
      rw [compactItems_eq_join, itemTokens_eq_map]
      exact reads_join closed_comma rfl ih
    rw [compact, tokens]
    exact (closed_between (Token.closed_mark rfl rfl) hitems (Token.closed_mark rfl rfl) rfl
      (by decide)).reads
  | @obj room members _ ih =>
    have hmembers : Reads (compactMembers members) (separated (memberTokens members)) := by
      rw [compactMembers_eq_join, memberTokens_eq_map]
      exact reads_join closed_comma rfl fun m hm => reads_member closed_colon m.1 (ih m hm)
    rw [compact, tokens]
    exact (closed_between (Token.closed_mark rfl rfl) hmembers (Token.closed_mark rfl rfl) rfl
      (by decide)).reads

theorem prettyAt_arr_nil (depth : Nat) : prettyAt depth (.arr []) = compact (.arr []) := by
  rw [prettyAt, compact, compactItems]
  decide

theorem prettyAt_obj_nil (depth : Nat) : prettyAt depth (.obj []) = compact (.obj []) := by
  rw [prettyAt, compact, compactMembers]
  decide

/-- The tokens of a value with one item or member per line. -/
theorem reads_prettyAt {room : Nat} {v : Json} (h : Plain room v) (depth : Nat) :
    Reads (v.prettyAt depth) v.tokens := by
  induction h generalizing depth with
  | null => exact reads_null
  | bool b => cases b; exacts [reads_false, reads_true]
  | int hmin hmax => exact Token.reads_int hmin hmax
  | str s => exact (Token.closed_quoted s).reads
  | @arr room items hplain ih =>
    cases items with
    | nil => exact prettyAt_arr_nil depth ▸ reads_compact (Plain.arr hplain)
    | cons v rest =>
      have hitems : Reads (prettyItems (depth + 1) (v :: rest))
          (separated (itemTokens (v :: rest))) := by
        rw [prettyItems_eq_join, itemTokens_eq_map]
        exact reads_join (closed_comma_newLine _) (head?_comma_newLine _) fun v hv =>
          ih v hv (depth + 1)
      rw [prettyAt, tokens]
      exact (closed_lines (Token.closed_mark rfl rfl) hitems (Token.closed_mark rfl rfl) _ _).reads
  | @obj room members hplain ih =>
    cases members with
    | nil => exact prettyAt_obj_nil depth ▸ reads_compact (Plain.obj hplain)
    | cons m rest =>
      have hmembers : Reads (prettyMembers (depth + 1) (m :: rest))
          (separated (memberTokens (m :: rest))) := by
        rw [prettyMembers_eq_join, memberTokens_eq_map]
        exact reads_join (closed_comma_newLine _) (head?_comma_newLine _) fun m hm =>
          reads_member closed_colon_blank m.1 (ih m hm (depth + 1))
      rw [prettyAt, tokens]
      exact (closed_lines (Token.closed_mark rfl rfl) hmembers (Token.closed_mark rfl rfl) _
        _).reads

/-! ## From the tokens to the value -/

namespace Reader

/-- Inside of `within`, the tokens of a value lead to the state after it. -/
def Reaches (v : Json) (within : List Open) : Prop :=
  ∀ ts, (v.tokens ++ ts).foldlM step (.value within) = ts.foldlM step (afterValue v within)

/-- The tokens of a value do not begin with the end of an array. -/
theorem tokens_eq_cons (v : Json) : ∃ t ts, v.tokens = t :: ts ∧ t ≠ .endArray := by
  cases v <;> exact ⟨_, _, rfl, nofun⟩

theorem separated_eq_cons (v : Json) (rest : List Json) :
    ∃ t ts, separated (itemTokens (v :: rest)) = t :: ts ∧ t ≠ .endArray := by
  obtain ⟨t, ts, hv, hne⟩ := tokens_eq_cons v
  cases rest with
  | nil => exact ⟨t, ts, hv, hne⟩
  | cons w rest =>
    refine ⟨t, ts ++ .comma :: separated (itemTokens (w :: rest)), ?_, hne⟩
    exact congrArg (· ++ .comma :: separated (itemTokens (w :: rest))) hv

/-- The first item of an array is read like any other. -/
theorem step_item {t : Token} (h : t ≠ .endArray) (within : List Open) :
    step (.item within) t = step (.value within) t := by
  cases within with
  | nil => rfl
  | cons o within => cases o <;> cases t <;> first | rfl | exact absurd rfl h

/-- Items are read one after the other into an array that has some already. -/
theorem foldlM_separated_items {items : List Json} {within : List Open} (hne : items ≠ [])
    (h : ∀ v ∈ items, ∀ acc, Reaches v (.arr acc :: within)) (acc : List Json) (ts : List Token) :
    (separated (itemTokens items) ++ .endArray :: ts).foldlM step (.value (.arr acc :: within)) =
      ts.foldlM step (endArray (items.reverse ++ acc) within) := by
  induction items generalizing acc with
  | nil => exact absurd rfl hne
  | cons v rest ih =>
    have hv := h v List.mem_cons_self acc
    cases rest with
    | nil =>
      rw [itemTokens, itemTokens, separated, hv, List.foldlM_cons]
      rfl
    | cons w rest =>
      have hrest := ih (List.cons_ne_nil w rest) (fun u hu => h u (List.mem_cons_of_mem v hu))
        (v :: acc)
      have hcut : separated (itemTokens (v :: w :: rest)) =
        v.tokens ++ .comma :: separated (itemTokens (w :: rest)) := rfl
      rw [hcut, List.append_assoc, hv, List.cons_append, List.foldlM_cons, List.reverse_cons,
        List.append_assoc]
      exact hrest

/-- Names and values as the reader keeps them. -/
def named (members : List (String × Json)) : List (Option String × Json) :=
  members.map fun m => (some m.1, m.2)

/-- A name and a colon lead to the value of the member. -/
theorem foldlM_name (name : String) (members : List (Option String × Json)) (first : Bool)
    (within : List Open) (ts : List Token) :
    (.str name :: .colon :: ts).foldlM step (.member members first within) =
      ts.foldlM step (.value (.obj members (some name) :: within)) := by
  cases first <;> rfl

/-- Members are read one after the other into an object that has some already. -/
theorem foldlM_separated_members {members : List (String × Json)} {within : List Open}
    (hne : members ≠ [])
    (h : ∀ m ∈ members, ∀ acc, Reaches m.2 (.obj acc (some m.1) :: within))
    (acc : List (Option String × Json)) (first : Bool) (ts : List Token) :
    (separated (memberTokens members) ++ .endObject :: ts).foldlM step
        (.member acc first within) =
      ts.foldlM step (endObject ((named members).reverse ++ acc) within) := by
  induction members generalizing acc first with
  | nil => exact absurd rfl hne
  | cons m rest ih =>
    have hm := h m List.mem_cons_self acc
    cases rest with
    | nil =>
      have hcut : separated (memberTokens [m]) = .str m.1 :: .colon :: m.2.tokens := rfl
      rw [hcut, List.cons_append, List.cons_append, foldlM_name, hm, List.foldlM_cons]
      rfl
    | cons m' rest =>
      have hrest := ih (List.cons_ne_nil m' rest) (fun u hu => h u (List.mem_cons_of_mem m hu))
        ((some m.1, m.2) :: acc) false
      have hcut : separated (memberTokens (m :: m' :: rest)) = .str m.1 :: .colon ::
        (m.2.tokens ++ .comma :: separated (memberTokens (m' :: rest))) := rfl
      rw [hcut, List.cons_append, List.cons_append, foldlM_name, List.append_assoc, hm,
        List.cons_append, List.foldlM_cons, named, List.map_cons, List.reverse_cons,
        List.append_assoc]
      exact hrest

theorem endArray_of_lt {items : List Json} {within : List Open} (h : within.length < maxDepth) :
    endArray items.reverse within = afterValue (.arr items) within := by
  rw [endArray, afterNested, if_pos h, List.reverse_reverse]

theorem endObject_of_lt {members : List (String × Json)} {within : List Open}
    (h : within.length < maxDepth) :
    endObject (named members).reverse within = afterValue (.obj members) within := by
  have hnamed : ((named members).mapM fun m => m.1.map fun name => (name, m.2)) = some members :=
    mapM_map_eq_some fun _ _ => rfl
  rw [endObject, List.reverse_reverse, hnamed, afterNested, if_pos h]
  rfl

/-- The reader makes a value of its tokens, if there is room for it. -/
theorem reaches_of_plain {room : Nat} {v : Json} (h : Plain room v) {within : List Open}
    (hroom : within.length + room ≤ maxDepth) : Reaches v within := by
  induction h generalizing within with
  | null => exact fun ts => rfl
  | bool b => exact fun ts => rfl
  | int hmin hmax => exact fun ts => rfl
  | str s => exact fun ts => rfl
  | @arr room items _ ih =>
    have hlt : within.length < maxDepth := by omega
    -- The items have one level less of their own, and one more around them.
    have hitems : ∀ v ∈ items, ∀ acc, Reaches v (.arr acc :: within) := fun v hv acc =>
      ih v hv (by rw [List.length_cons]; omega)
    intro ts
    rw [tokens, List.cons_append, List.foldlM_cons, ← endArray_of_lt hlt, List.append_assoc]
    change ((separated (itemTokens items) ++ .endArray :: ts).foldlM step
      (.item (.arr [] :: within))) = _
    cases items with
    | nil => rfl
    | cons v rest =>
      -- The array might have ended here, but no value begins with the end of one.
      obtain ⟨t, us, hfirst, hne⟩ := separated_eq_cons v rest
      have hread := foldlM_separated_items (List.cons_ne_nil v rest) hitems [] ts
      rw [List.append_nil, hfirst, List.cons_append, List.foldlM_cons] at hread
      rw [hfirst, List.cons_append, List.foldlM_cons, step_item hne]
      exact hread
  | @obj room members _ ih =>
    have hlt : within.length < maxDepth := by omega
    have hmembers : ∀ m ∈ members, ∀ acc, Reaches m.2 (.obj acc (some m.1) :: within) :=
      fun m hm acc => ih m hm (by rw [List.length_cons]; omega)
    intro ts
    rw [tokens, List.cons_append, List.foldlM_cons, ← endObject_of_lt hlt, List.append_assoc]
    cases members with
    | nil => rfl
    | cons m rest =>
      have hread := foldlM_separated_members (List.cons_ne_nil m rest) hmembers [] true ts
      rw [List.append_nil] at hread
      exact hread

end Reader

/-! ## Reading undoes writing -/

theorem ofTokens?_tokens {v : Json} (h : Plain Reader.maxDepth v) :
    ofTokens? v.tokens = some v := by
  have hroom : ([] : List Open).length + Reader.maxDepth ≤ Reader.maxDepth :=
    Nat.le_of_eq (Nat.zero_add _)
  have hread := Reader.reaches_of_plain h hroom []
  rw [List.append_nil] at hread
  rw [ofTokens?, hread]
  rfl

/-- A text that is read as the tokens of a value is the text of that value. -/
theorem parse?_of_reads {text : String} {v : Json} (h : Plain Reader.maxDepth v)
    (hreads : Reads text v.tokens) : parse? text = some v := by
  rw [parse?, hreads.scan_eq, Option.bind_some, ofTokens?_tokens h]

/-- A value comes back from its text on one line. -/
theorem parse?_compact {v : Json} (h : Plain Reader.maxDepth v) : parse? v.compact = some v :=
  parse?_of_reads h (reads_compact h)

/-- A value comes back from its text on several lines. -/
theorem parse?_pretty {v : Json} (h : Plain Reader.maxDepth v) : parse? v.pretty = some v :=
  parse?_of_reads h (reads_prettyAt h 0)

/-! ## Plain values -/

/-- What is plain with less room is plain with more. -/
theorem Plain.mono {room room' : Nat} {v : Json} (h : Plain room v) (hle : room ≤ room') :
    Plain room' v := by
  induction h generalizing room' with
  | null => exact .null
  | bool b => exact .bool b
  | int hmin hmax => exact .int hmin hmax
  | str s => exact .str s
  | @arr room items _ ih =>
    obtain ⟨room', rfl⟩ := Nat.exists_eq_add_of_lt hle
    exact .arr fun v hv => ih v hv (by omega)
  | @obj room members _ ih =>
    obtain ⟨room', rfl⟩ := Nat.exists_eq_add_of_lt hle
    exact .obj fun m hm => ih m hm (by omega)

theorem areReadable_iff {items : List Json} :
    areReadable items = true ↔ ∀ v ∈ items, v.isReadable = true := by
  induction items with
  | nil => simp [areReadable]
  | cons v rest ih => simp [areReadable, ih]

theorem areMembersReadable_iff {members : List (String × Json)} :
    areMembersReadable members = true ↔ ∀ m ∈ members, m.2.isReadable = true := by
  induction members with
  | nil => simp [areMembersReadable]
  | cons m rest ih => simp [areMembersReadable, ih]

/-- A plain value has no part that cannot be read. -/
theorem Plain.isReadable {room : Nat} {v : Json} (h : Plain room v) : v.isReadable = true := by
  induction h with
  | null => rfl
  | bool b => rfl
  | int hmin hmax => rfl
  | str s => rfl
  | arr _ ih => exact areReadable_iff.mpr ih
  | obj _ ih => exact areMembersReadable_iff.mpr ih

end DataSpec.Json
