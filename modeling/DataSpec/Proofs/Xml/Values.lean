import DataSpec.Xml
import Mathlib.Data.List.Basic
import Mathlib.Logic.Basic

/-!
# Names and values in XML

What may stand where XML has names, texts and values of attributes. Every text can stand there
once it is escaped (`isClean_escape`, `isValue_escape`), and so can several with spaces between
them (`isValue_join_iff`).
-/

set_option autoImplicit false

namespace DataSpec.Xml

/-! ## Names and values -/

/-- The code points that a name may begin with, as first and last of each range. -/
def nameStarts : List (Nat × Nat) :=
  [(0x3A, 0x3A), (0x41, 0x5A), (0x5F, 0x5F), (0x61, 0x7A), (0xC0, 0xD6), (0xD8, 0xF6),
    (0xF8, 0x2FF), (0x370, 0x37D), (0x37F, 0x1FFF), (0x200C, 0x200D), (0x2070, 0x218F),
    (0x2C00, 0x2FEF), (0x3001, 0xD7FF), (0xF900, 0xFDCF), (0xFDF0, 0xFFFD), (0x10000, 0xEFFFF)]

/-- The other code points that a name may have. -/
def nameRests : List (Nat × Nat) :=
  [(0x2D, 0x2E), (0x30, 0x39), (0xB7, 0xB7), (0x300, 0x36F), (0x203F, 0x2040)]

/-- Whether a character is in one of some ranges. -/
def isIn (ranges : List (Nat × Nat)) (c : Char) : Bool :=
  ranges.any fun r => decide (r.1 ≤ c.toNat) && decide (c.toNat ≤ r.2)

/-- Whether a character may stand in a name. -/
def isNameChar (c : Char) : Bool := isIn nameStarts c || isIn nameRests c

/-- Whether a text is a name. -/
def isName (s : String) : Bool :=
  match s.toList with
  | [] => false
  | c :: cs => isIn nameStarts c && cs.all isNameChar

/-- A name has a character, and none but those of names. -/
theorem exists_of_isName {name : String} (h : isName name = true) :
    ∃ c cs, name.toList = c :: cs ∧ ∀ d ∈ c :: cs, isNameChar d = true := by
  unfold isName at h
  split at h
  · simp at h
  · rename_i c cs hname
    obtain ⟨hc, hcs⟩ := Bool.and_eq_true_iff.mp h
    refine ⟨c, cs, hname, List.forall_mem_cons.mpr ⟨?_, List.all_eq_true.mp hcs⟩⟩
    rw [isNameChar, hc, Bool.true_or]

/-- A name with a name before it is one. -/
theorem isName_append {s name : String} (hs : isName s = true) (hname : isName name = true) :
    isName (s ++ name) = true := by
  obtain ⟨c, cs, hname, hchars⟩ := exists_of_isName hname
  unfold isName at hs ⊢
  rw [String.toList_append, hname]
  split at hs
  · simp at hs
  · rename_i d ds heq
    rw [heq]
    simp only [List.cons_append, List.all_append, Bool.and_eq_true, List.all_eq_true] at hs ⊢
    exact ⟨hs.1, hs.2, hchars⟩

/-- How characters are written that could be taken for markup. -/
def entities : List String := ["&amp;", "&lt;", "&gt;", "&quot;"]

/-- Whether a text has no bracket that could open a tag, and no ampersand but those that an entity
begins with. -/
def isClean : List Char → Bool
  | [] => true
  | c :: cs =>
    c != '<' && (c != '&' || entities.any fun e => e.toList.isPrefixOf (c :: cs)) && isClean cs

/-- There is no markup in a clean text. -/
theorem lt_not_mem_of_isClean : ∀ {cs : List Char}, isClean cs = true → '<' ∉ cs
  | [], _ => by simp
  | c :: cs, h => by
    simp only [isClean, Bool.and_eq_true, bne_iff_ne] at h
    exact List.not_mem_cons_of_ne_of_not_mem (Ne.symm h.1.1) (lt_not_mem_of_isClean h.2)

/-- A text without the quote that ends the value of an attribute. -/
def Unquoted (s : String) : Prop := '"' ∉ s.toList

instance : DecidablePred Unquoted := fun s => inferInstanceAs (Decidable ('"' ∉ s.toList))

/-- Whether a text can stand between the quotes of an attribute. -/
def isValue (s : String) : Bool := isClean s.toList && decide (Unquoted s)

/-! ## Escaped texts -/

/-- A character that is escaped leaves a text as clean as it is. -/
theorem isClean_escapeChar_append (c : Char) (cs : List Char) :
    isClean (escapeChar c ++ cs) = isClean cs := by
  unfold escapeChar
  split
  all_goals simp_all [isClean, entities, List.isPrefixOf]

/-- An escaped text is clean. -/
theorem isClean_escape (s : String) : isClean (escape s).toList = true := by
  rw [escape, Text.mapChars, String.toList_ofList]
  induction s.toList with
  | nil => rfl
  | cons c cs ih => rw [List.flatMap_cons, isClean_escapeChar_append, ih]

/-- What could be taken for markup is not in an escaped text. -/
theorem not_mem_escape {c : Char} (hc : c ∈ ['<', '>', '"']) (s : String) :
    c ∉ (escape s).toList := by
  rw [escape, Text.mapChars, String.toList_ofList, List.mem_flatMap]
  rintro ⟨d, -, hd⟩
  unfold escapeChar at hd
  split at hd
  case h_5 => simp_all
  all_goals
    simp only [List.mem_cons, List.not_mem_nil, or_false] at hc
    rcases hc with rfl | rfl | rfl <;> simp at hd

/-- An escaped text has no quotes. -/
theorem unquoted_escape (s : String) : Unquoted (escape s) := not_mem_escape (by simp) s

theorem isValue_iff {s : String} : isValue s = true ↔ isClean s.toList = true ∧ Unquoted s := by
  rw [isValue, Bool.and_eq_true, decide_eq_true_eq]

/-- An escaped text may be the value of an attribute. -/
theorem isValue_escape (s : String) : isValue (escape s) = true :=
  isValue_iff.mpr ⟨isClean_escape s, unquoted_escape s⟩

/-- A text in which nothing could be taken for markup is escaped as it is. -/
theorem escape_eq_self {s : String} (h : ∀ c ∈ s.toList, c ∉ ['&', '<', '>', '"']) :
    escape s = s := by
  have hchars : ∀ cs : List Char, (∀ c ∈ cs, c ∉ ['&', '<', '>', '"']) →
      cs.flatMap escapeChar = cs := by
    intro cs hcs
    induction cs with
    | nil => rfl
    | cons c cs ih =>
      obtain ⟨hc, hcs⟩ := List.forall_mem_cons.mp hcs
      have hself : escapeChar c = [c] := by
        unfold escapeChar
        split
        all_goals simp_all
      rw [List.flatMap_cons, hself, ih hcs, List.singleton_append]
  rw [escape, Text.mapChars, hchars _ h, String.ofList_toList]

/-- Whether a text starts like one without some character is decided before that character. -/
theorem isPrefixOf_append_cons {e : List Char} {c : Char} (he : c ∉ e) (ds : List Char) :
    ∀ cs : List Char, e.isPrefixOf (cs ++ c :: ds) = e.isPrefixOf cs := by
  induction e with
  | nil => simp
  | cons d e ih =>
    rw [List.mem_cons, not_or] at he
    intro cs
    cases cs with
    | nil => simp [List.isPrefixOf, Ne.symm he.1]
    | cons d' cs => simp [List.isPrefixOf, ih he.2 cs]

/-- No entity stands across a space. -/
theorem isClean_append_space (cs ds : List Char) :
    isClean (cs ++ ' ' :: ds) = (isClean cs && isClean ds) := by
  have hspace : ∀ e ∈ entities, ' ' ∉ e.toList := by decide
  induction cs with
  | nil => simp [isClean]
  | cons c cs ih =>
    have hentities : (entities.any fun e => e.toList.isPrefixOf (c :: cs ++ ' ' :: ds)) =
        entities.any fun e => e.toList.isPrefixOf (c :: cs) := by
      rw [Bool.eq_iff_iff, List.any_eq_true, List.any_eq_true]
      exact exists_congr fun e => and_congr_right fun he => by
        rw [isPrefixOf_append_cons (hspace e he)]
    rw [List.cons_append, isClean, ← List.cons_append, hentities, ih, isClean]
    simp only [Bool.and_assoc]

/-- What can be said of texts on both sides of a space can be said of texts with spaces between
them. -/
theorem join_iff {P : List Char → Prop} (hnil : P [])
    (hspace : ∀ cs ds, P (cs ++ ' ' :: ds) ↔ P cs ∧ P ds) :
    ∀ texts : List String, P (Text.join " " texts).toList ↔ ∀ t ∈ texts, P t.toList
  | [] => by simpa [Text.join] using hnil
  | [t] => by simp [Text.join]
  | t :: t' :: rest => by
    have hcut : (Text.join " " (t :: t' :: rest)).toList =
        t.toList ++ ' ' :: (Text.join " " (t' :: rest)).toList := by simp [Text.join]
    rw [hcut, hspace, join_iff hnil hspace (t' :: rest)]
    simp only [List.forall_mem_cons]

/-- Joined texts have no quotes if none of them has. -/
theorem unquoted_join_iff (texts : List String) :
    Unquoted (Text.join " " texts) ↔ ∀ t ∈ texts, Unquoted t := by
  refine @join_iff (fun cs => '"' ∉ cs) (by simp) (fun cs ds => ?_) texts
  simp

/-- Joined texts may be the value of an attribute if each of them may. -/
theorem isValue_join_iff (texts : List String) :
    isValue (Text.join " " texts) = true ↔ ∀ t ∈ texts, isValue t = true := by
  have hclean := @join_iff (fun cs => isClean cs = true) rfl
    (fun cs ds => by rw [isClean_append_space, Bool.and_eq_true]) texts
  simp only [isValue_iff, hclean, unquoted_join_iff]
  exact forall₂_and.symm

end DataSpec.Xml
