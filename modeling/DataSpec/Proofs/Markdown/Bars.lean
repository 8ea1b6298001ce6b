import DataSpec.Markdown.Printer
import DataSpec.Proofs.Text.Segments
import Mathlib.Algebra.GroupWithZero.Nat
import Mathlib.Data.Nat.Bits

/-!
# Bars in written Markdown

In a row of a table a bar divides cells if there is an even number of backslashes before it.
`bars false` counts these bars, and `bars true` all others. Both can be counted while a text is
read, if one keeps in mind whether the backslashes read last are odd in number
(`bars_eq_barsFrom`).

A bar in a cell gets one backslash more, so it divides the cell only if it had an odd number of
them before (`barsFrom_flatMap_cellChar`). In a text every backslash is written twice, so no bar
has (`bars_escape`).
-/

set_option autoImplicit false

namespace DataSpec.Markdown

/-! ## Bars by place -/

/-- The number of backslashes at the end of a text. -/
def slashes (cs : List Char) : Nat := (cs.reverse.takeWhile (· = '\\')).length

/-- The number of bars in a text that have an odd, or an even, number of backslashes before
them. -/
def bars (odd : Bool) (cs : List Char) : Nat :=
  (List.range cs.length).countP fun i => cs[i]? = some '|' && (slashes (cs.take i)).bodd == odd

@[simp]
theorem bars_nil (odd : Bool) : bars odd [] = 0 := rfl

/-- One more backslash is counted, and any other character ends them. -/
theorem slashes_concat (cs : List Char) (c : Char) :
    slashes (cs ++ [c]) = if c = '\\' then slashes cs + 1 else 0 := by
  rw [slashes, List.reverse_append, List.reverse_singleton, List.singleton_append]
  by_cases h : c = '\\'
  · rw [List.takeWhile_cons_of_pos (by simpa using h), List.length_cons, if_pos h, slashes]
  · rw [List.takeWhile_cons_of_neg (by simpa using h), List.length_nil, if_neg h]

/-- A bar counts by the backslashes before it. -/
theorem bars_concat (odd : Bool) (cs : List Char) (c : Char) :
    bars odd (cs ++ [c]) =
      bars odd cs + if c = '|' ∧ (slashes cs).bodd = odd then 1 else 0 := by
  have hbefore : ∀ i ∈ List.range cs.length,
      ((cs ++ [c])[i]? = some '|' && (slashes ((cs ++ [c]).take i)).bodd == odd) =
        (cs[i]? = some '|' && (slashes (cs.take i)).bodd == odd) := by
    intro i hi
    have hi := List.mem_range.mp hi
    rw [List.getElem?_append_left hi, List.take_append_of_le_length (Nat.le_of_lt hi)]
  rw [bars, List.length_append, List.length_singleton, List.range_succ, List.countP_append,
    List.countP_congr fun i hi => by rw [hbefore i hi], ← bars, List.countP_singleton]
  simp

/-! ## Bars as they are read -/

/-- Whether the backslashes read last are odd in number after one more character. -/
def oddAfter (odd : Bool) (c : Char) : Bool := c == '\\' && !odd

/-- The number of bars of which `bars` speaks, if the backslashes before the text are odd, or even,
in number. -/
def barsFrom (odd : Bool) : Bool → List Char → Nat
  | _, [] => 0
  | before, c :: cs =>
    (if c = '|' ∧ before = odd then 1 else 0) + barsFrom odd (oddAfter before c) cs

/-- It is enough to know whether the backslashes are odd in number. -/
theorem bodd_slashes_concat (cs : List Char) (c : Char) :
    (slashes (cs ++ [c])).bodd = oddAfter (slashes cs).bodd c := by
  rw [slashes_concat, oddAfter]
  split
  · simp_all
  · simp_all

/-- So bars are counted from any place on, with one bit of what is before it. -/
theorem bars_append (odd : Bool) (cs ds : List Char) :
    bars odd (cs ++ ds) = bars odd cs + barsFrom odd (slashes cs).bodd ds := by
  induction ds generalizing cs with
  | nil => rw [List.append_nil, barsFrom, Nat.add_zero]
  | cons d ds ih =>
    have hmove : cs ++ d :: ds = (cs ++ [d]) ++ ds := by simp
    rw [hmove, ih, bars_concat, bodd_slashes_concat, barsFrom, Nat.add_assoc]

theorem bars_eq_barsFrom (odd : Bool) (cs : List Char) : bars odd cs = barsFrom odd false cs :=
  (bars_append odd [] cs).trans (Nat.zero_add _)

/-- This can be done in two steps. -/
theorem barsFrom_append (odd before : Bool) (cs ds : List Char) :
    barsFrom odd before (cs ++ ds) =
      barsFrom odd before cs + barsFrom odd (cs.foldl oddAfter before) ds := by
  induction cs generalizing before with
  | nil => exact (Nat.zero_add _).symm
  | cons c cs ih => rw [List.cons_append, barsFrom, ih, barsFrom, List.foldl_cons, Nat.add_assoc]

/-! ## Written characters -/

/-- Characters are written in such a way that the bars that are counted by `odd'` are those that
were counted by `odd`. -/
def Turns (f : Char → List Char) (odd odd' : Bool) : Prop :=
  ∀ before c, barsFrom odd' before (f c) = barsFrom odd before [c] ∧
    (f c).foldl oddAfter before = oddAfter before c

/-- If it is so for each character, the bars of the written text are those of the text. -/
theorem Turns.barsFrom_flatMap {f : Char → List Char} {odd odd' : Bool} (h : Turns f odd odd')
    (before : Bool) (cs : List Char) :
    barsFrom odd' before (cs.flatMap f) = barsFrom odd before cs := by
  induction cs generalizing before with
  | nil => rfl
  | cons c cs ih =>
    rw [List.flatMap_cons, barsFrom_append, (h before c).1, (h before c).2, ih]
    rfl

/-- What divides a cell are the bars that had an odd number of backslashes before them. -/
theorem turns_cellChar : Turns cellChar true false := by
  intro before c
  unfold cellChar
  split
  · rename_i h
    subst h
    cases before <;> decide
  · split
    · rename_i h
      subst h
      cases before <;> decide
    · rename_i h _
      simp [barsFrom, h]

/-- Characters that are written as they are turn nothing. -/
theorem turns_singleton (odd : Bool) : Turns (fun c => [c]) odd odd := fun _ _ => ⟨rfl, rfl⟩

/-- Only one character is written in another way, and neither it nor what is written for it
counts. -/
theorem turns_replaced {odd : Bool} {d : Char} {ds : List Char}
    (h : ∀ before, barsFrom odd before ds = barsFrom odd before [d] ∧
      ds.foldl oddAfter before = oddAfter before d) :
    Turns (fun c => if c = d then ds else [c]) odd odd := by
  intro before c
  dsimp only
  split
  · rename_i hc
    exact hc ▸ h before
  · exact ⟨rfl, rfl⟩

/-- In code only the backtick is written otherwise. -/
theorem turns_codeChar (odd : Bool) : Turns codeChar odd odd :=
  turns_replaced (by cases odd <;> decide)

/-- In targets only the blank is written otherwise. -/
theorem turns_targetChar (odd : Bool) : Turns targetChar odd odd :=
  turns_replaced (by cases odd <;> decide)

/-! ## Written pieces of text -/

/-- A text with `n` bars that have an odd number of backslashes before them, and no odd number of
backslashes at the end. -/
structure Hides (cs : List Char) (n : Nat) : Prop where
  bars : barsFrom true false cs = n
  even : cs.foldl oddAfter false = false

/-- The bars in two pieces of text add up. -/
theorem Hides.append {cs ds : List Char} {n k : Nat} (h : Hides cs n) (h' : Hides ds k) :
    Hides (cs ++ ds) (n + k) :=
  ⟨by rw [barsFrom_append, h.bars, h.even, h'.bars], by rw [List.foldl_append, h.even, h'.even]⟩

/-- The bars in all pieces of a text add up. -/
theorem Hides.flatMap {α : Type} {f : α → List Char} {n : α → Nat}
    (h : ∀ a, Hides (f a) (n a)) (l : List α) : Hides (l.flatMap f) (l.map n).sum := by
  induction l with
  | nil => exact ⟨rfl, rfl⟩
  | cons a l ih => exact (h a).append ih

/-- A text in which every backslash is written twice hides no bar. -/
theorem hides_escape (s : String) : Hides (escape s).toList 0 := by
  have hspecial : ∀ c ∈ special, barsFrom true false ['\\', c] = 0 ∧
      ['\\', c].foldl oddAfter false = false := by
    simp [special, barsFrom, oddAfter]
  have hchar : ∀ c, Hides (escapeChar c) 0 := by
    intro c
    unfold escapeChar
    split
    · obtain ⟨hbars, heven⟩ := hspecial c (List.contains_iff_mem.mp ‹_›)
      exact ⟨hbars, heven⟩
    · rename_i hc
      have hslash : c ≠ '\\' := by
        rintro rfl
        exact hc rfl
      exact ⟨by simp [barsFrom], by simp [oddAfter, hslash]⟩
  rw [escape, Text.mapChars, String.toList_ofList]
  have hall := Hides.flatMap hchar s.toList
  rwa [List.map_const', List.sum_replicate_nat, Nat.mul_zero] at hall

/-- What is written as it is, before another character than a bar or a backslash, hides the bars
that have an odd number of backslashes before them. -/
theorem hides_verbatim {f : Char → List Char} (h : Turns f true true) (s : String) {c : Char}
    (hbar : c ≠ '|') (hslash : c ≠ '\\') :
    Hides (s.toList.flatMap f ++ [c]) (bars true s.toList) := by
  refine ⟨?_, ?_⟩
  · rw [barsFrom_append, h.barsFrom_flatMap, ← bars_eq_barsFrom, barsFrom,
      if_neg fun hc => hbar hc.1]
    rfl
  · rw [List.foldl_append]
    simp [oddAfter, hslash]

/-- What is written as it is in a piece of text. -/
def Inline.verbatim : Inline → String
  | .text _ | .strong _ => ""
  | .code s => s
  | .anchor name => name
  | .link _ target => target

/-- The number of bars in a piece of text that are written as they are and have an odd number of
backslashes before them. -/
def Inline.hidden (i : Inline) : Nat := bars true i.verbatim.toList

/-- Bars in a piece of text are hidden only in what is written as it is. -/
theorem Inline.hides_render (i : Inline) : Hides i.render.toList i.hidden := by
  have hmarks : ∀ s ∈ ["**", "\x60", "<a id=\"", "></a>", "[", "]("],
      barsFrom true false s.toList = 0 ∧ s.toList.foldl oddAfter false = false := by decide
  have hmark : ∀ s ∈ ["**", "\x60", "<a id=\"", "></a>", "[", "]("], Hides s.toList 0 :=
    fun s hs => ⟨(hmarks s hs).1, (hmarks s hs).2⟩
  cases i with
  | text s => exact hides_escape s
  | strong s =>
    have hstrong := ((hmark "**" (by decide)).append (hides_escape s)).append
      (hmark "**" (by decide))
    simpa [Inline.render, hidden, verbatim] using hstrong
  | code s =>
    have hcode := (hmark "\x60" (by decide)).append
      (hides_verbatim (turns_codeChar true) s (c := '\x60') (by decide) (by decide))
    simpa [Inline.render, Text.mapChars, hidden, verbatim] using hcode
  | anchor name =>
    have hname := ((hmark "<a id=\"" (by decide)).append
      (hides_verbatim (turns_singleton true) name (c := '"') (by decide) (by decide))).append
      (hmark "></a>" (by decide))
    simpa [Inline.render, anchorText, hidden, verbatim] using hname
  | link label target =>
    have hlink := (((hmark "[" (by decide)).append (hides_escape label)).append
      (hmark "](" (by decide))).append
      (hides_verbatim (turns_targetChar true) target (c := ')') (by decide) (by decide))
    simpa [Inline.render, Text.mapChars, hidden, verbatim] using hlink

/-- A cell has the bars that its pieces hide. -/
theorem bars_renderInlines (content : List Inline) :
    bars true (renderInlines content).toList = (content.map Inline.hidden).sum := by
  rw [bars_eq_barsFrom, renderInlines, Text.toList_join_empty, List.flatMap_map]
  exact (Hides.flatMap Inline.hides_render content).bars

end DataSpec.Markdown
