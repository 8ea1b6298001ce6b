import DataSpec.Proofs.Xml.Values
import Mathlib.Logic.Function.Basic

/-!
# Reading escaped texts back

A text is escaped by replacing four characters one after the other, each in the whole text. The
ampersand comes first, so no later replacement touches an entity, and it is the same to replace
all four at once (`escape_eq_foldl`).

`unescape` goes through a text once and puts characters in the place of entities. It undoes
`escape` also where the text has entities of its own, because their ampersands are escaped
(`unescape_escape`).
-/

set_option autoImplicit false

namespace DataSpec

namespace Text

theorem mapChars_mapChars (f g : Char → List Char) (s : String) :
    mapChars f (mapChars g s) = mapChars (fun c => (g c).flatMap f) s := by
  rw [mapChars, mapChars, mapChars, String.toList_ofList, List.flatMap_assoc]

end Text

namespace Xml

/-! ## Replacements -/

/-- A text with `t` in the place of every `c`. -/
def replaceAll (c : Char) (t s : String) : String :=
  Text.mapChars (fun d => if d = c then t.toList else [d]) s

/-- What is replaced in a text, in this order. -/
def replacements : List (Char × String) :=
  [('&', "&amp;"), ('<', "&lt;"), ('>', "&gt;"), ('"', "&quot;")]

/-- Four replacements in the whole text come to the same as one of each character. -/
theorem escape_eq_foldl (s : String) :
    escape s = replacements.foldl (fun t r => replaceAll r.1 r.2 t) s := by
  simp only [replacements, List.foldl_cons, List.foldl_nil, replaceAll, Text.mapChars_mapChars]
  refine congrArg (Text.mapChars · s) (funext fun c => ?_)
  have hkept : ∀ {d : Char} {t : List Char}, c ≠ d →
      [c].flatMap (fun e => if e = d then t else [e]) = [c] := by
    intro d t hne
    rw [List.flatMap_singleton, if_neg hne]
  unfold escapeChar
  split
  case h_5 hamp hlt hgt hquot => rw [if_neg hamp, hkept hlt, hkept hgt, hkept hquot]
  all_goals rfl

/-! ## Entities -/

/-- Characters without their entities. Where no entity begins, the character stands for itself. -/
def unescapeChars : List Char → List Char
  | '&' :: 'a' :: 'm' :: 'p' :: ';' :: rest => '&' :: unescapeChars rest
  | '&' :: 'l' :: 't' :: ';' :: rest => '<' :: unescapeChars rest
  | '&' :: 'g' :: 't' :: ';' :: rest => '>' :: unescapeChars rest
  | '&' :: 'q' :: 'u' :: 'o' :: 't' :: ';' :: rest => '"' :: unescapeChars rest
  | c :: rest => c :: unescapeChars rest
  | [] => []

/-- A text without its entities. -/
def unescape (s : String) : String := String.ofList (unescapeChars s.toList)

theorem unescapeChars_cons {c : Char} (h : c ≠ '&') (rest : List Char) :
    unescapeChars (c :: rest) = c :: unescapeChars rest := by
  rw [unescapeChars] <;>
  · intros
    exact h ‹_›

theorem unescapeChars_escapeChar_append (c : Char) (rest : List Char) :
    unescapeChars (escapeChar c ++ rest) = c :: unescapeChars rest := by
  unfold escapeChar
  split
  case h_5 hamp _ _ _ => exact unescapeChars_cons hamp rest
  all_goals rfl

theorem unescape_escape (s : String) : unescape (escape s) = s := by
  have hchars : ∀ cs : List Char, unescapeChars (cs.flatMap escapeChar) = cs := by
    intro cs
    induction cs with
    | nil => rfl
    | cons c cs ih => rw [List.flatMap_cons, unescapeChars_escapeChar_append, ih]
  rw [unescape, escape, Text.mapChars, String.toList_ofList, hchars, String.ofList_toList]

theorem escape_injective : Function.Injective escape :=
  Function.LeftInverse.injective unescape_escape

/-- The ampersands of a clean text begin entities. -/
theorem exists_entity_of_isClean {after : List Char} :
    ∀ {before : List Char}, isClean (before ++ '&' :: after) = true →
      ∃ e ∈ entities, e.toList <+: '&' :: after
  | [], h => by
    simp only [List.nil_append, isClean, bne_self_eq_false, Bool.false_or, Bool.and_eq_true,
      List.any_eq_true, List.isPrefixOf_iff_prefix] at h
    exact h.1.2
  | c :: before, h => by
    rw [List.cons_append, isClean, Bool.and_eq_true] at h
    exact exists_entity_of_isClean h.2

/-- An escaped text has no brackets or quotes, and no ampersands but those of its entities. The
text is read back from it, so no other text is escaped in the same way. -/
theorem marks_escape_and_unescape (s : String) :
    escape s = replacements.foldl (fun t r => replaceAll r.1 r.2 t) s ∧
      (∀ c ∈ ['<', '>', '"'], c ∉ (escape s).toList) ∧
      (∀ before after, (escape s).toList = before ++ '&' :: after →
        ∃ e ∈ entities, e.toList <+: '&' :: after) ∧
      unescape (escape s) = s ∧ ∀ t, escape t = escape s → t = s := by
  refine ⟨escape_eq_foldl s, fun c hc => not_mem_escape hc s, fun before after h => ?_,
    unescape_escape s, fun t h => escape_injective h⟩
  exact exists_entity_of_isClean (h ▸ isClean_escape s)

/-- A text that looks escaped is not taken for what it looks like. -/
theorem marks_escape_and_unescape_entity :
    escape "<&lt;" = "&lt;&amp;lt;" ∧ '<' ∉ (escape "<&lt;").toList ∧
      (∃ e ∈ entities, e.toList <+: "&amp;lt;".toList) ∧ unescape "&lt;&amp;lt;" = "<&lt;" := by
  have hescape : escape "<&lt;" = "&lt;&amp;lt;" := by decide
  obtain ⟨-, hmarks, hentities, hback, -⟩ := marks_escape_and_unescape "<&lt;"
  rw [hescape] at hback
  exact ⟨hescape, hmarks '<' (by decide),
    hentities "&lt;".toList "amp;lt;".toList (by decide), hback⟩

end Xml

end DataSpec
