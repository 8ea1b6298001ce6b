import DataSpec.Proofs.Markdown.Bars
import DataSpec.Proofs.Markdown.Marks

/-!
# Rows of tables

The header of a table and each of its rows is a line of the document (`Document.infix_lines`),
with one bar more than there are cells, and those bars in the cells that have an even number of
backslashes before them once they are written (`bars_rowLine`). Texts add none. But what is
written as it is adds every bar that has an odd number of backslashes before it, because the one
that is put before the bar makes the number even (`rows_of_table`).
-/

set_option autoImplicit false

namespace DataSpec

namespace Text

theorem fields_append_cons {isSep : Char → Bool} {c : Char} (h : isSep c = true)
    (cs ds : List Char) : fields isSep (cs ++ c :: ds) = fields isSep cs ++ fields isSep ds := by
  rw [fields_eq_splitOnP, List.splitOnP_append_cons cs ds h, ← fields_eq_splitOnP,
    ← fields_eq_splitOnP]

/-- Stretches with a separator behind each are those before what follows. -/
theorem fields_flatMap_concat {isSep : Char → Bool} {c : Char} (h : isSep c = true)
    {ls : List (List Char)} (hls : ∀ l ∈ ls, ∀ d ∈ l, isSep d = false) (rest : List Char) :
    fields isSep (ls.flatMap (fun l => l ++ [c]) ++ rest) = ls ++ fields isSep rest := by
  induction ls with
  | nil => rfl
  | cons l ls ih =>
    obtain ⟨hl, hls⟩ := List.forall_mem_cons.mp hls
    have hmove : (l :: ls).flatMap (fun l => l ++ [c]) ++ rest =
        l ++ c :: (ls.flatMap (fun l => l ++ [c]) ++ rest) := by simp
    rw [hmove, fields_append_cons h, ih hls, fields_eq_splitOnP, List.splitOnP_eq_singleton hl]
    rfl

end Text

namespace Markdown

/-! ## Cells -/

/-- A line of cells. -/
def line (cells : List String) : String := "| " ++ Text.join " | " cells ++ " |"

theorem row_eq (cells : List String) : row cells = line cells ++ "\n" := by
  refine String.toList_injective ?_
  simp [row, line]

/-- The line of a row. -/
def rowLine (r : List (List Inline)) : String := line ((r.map renderInlines).map cell)

theorem barsFrom_cell (s : String) : barsFrom false false (cell s).toList = bars true s.toList := by
  rw [cell, Text.mapChars, String.toList_ofList, turns_cellChar.barsFrom_flatMap,
    bars_eq_barsFrom]

theorem barsFrom_join_cell : ∀ {ss : List String}, ss ≠ [] →
    barsFrom false false (Text.join " | " (ss.map cell) ++ " |").toList =
      ss.length + (ss.map fun s => bars true s.toList).sum
  | [], hne => absurd rfl hne
  | [s], _ => by
    have hend : ∀ before, barsFrom false before " |".toList = 1 := by decide
    rw [List.map_singleton, Text.join, String.toList_append, barsFrom_append, barsFrom_cell, hend]
    simp [Nat.add_comm]
  | s :: s' :: ss, _ => by
    have hbetween : ∀ before, barsFrom false before " | ".toList = 1 ∧
        " | ".toList.foldl oddAfter before = false := by decide
    have hcut : (Text.join " | " ((s :: s' :: ss).map cell) ++ " |").toList = (cell s).toList ++
        (" | ".toList ++ (Text.join " | " ((s' :: ss).map cell) ++ " |").toList) := by
      simp [Text.join]
    rw [hcut, barsFrom_append, barsFrom_append, barsFrom_cell, (hbetween _).1, (hbetween _).2,
      barsFrom_join_cell (List.cons_ne_nil s' ss)]
    simp only [List.length_cons, List.map_cons, List.sum_cons]
    omega

/-- The bars that divide a line of cells are those between them and at both ends, and those that
come to be in the cells. -/
theorem bars_line {ss : List String} (hne : ss ≠ []) :
    bars false (line (ss.map cell)).toList =
      ss.length + 1 + (ss.map fun s => bars true s.toList).sum := by
  have hcut : (line (ss.map cell)).toList =
      "| ".toList ++ (Text.join " | " (ss.map cell) ++ " |").toList := by simp [line]
  have hstart : barsFrom false false "| ".toList = 1 ∧
      "| ".toList.foldl oddAfter false = false := by decide
  rw [bars_eq_barsFrom, hcut, barsFrom_append, hstart.1, hstart.2, barsFrom_join_cell hne]
  omega

theorem bars_rowLine {r : List (List Inline)} (hne : r ≠ []) :
    bars false (rowLine r).toList =
      r.length + 1 + (r.map fun content => (content.map Inline.hidden).sum).sum := by
  rw [rowLine, bars_line (by simpa using hne), List.length_map, List.map_map]
  simp only [Function.comp_def, bars_renderInlines]

/-! ## Lines of a table -/

/-- Whether a character ends a line. -/
def isLineEnd (c : Char) : Bool := c = '\n' || c = '\r'

/-- The lines of a document. -/
def Document.lines (d : Document) : List String :=
  (Text.fields isLineEnd d.render.toList).map String.ofList

/-- The lines of a table. -/
def tableLines (header : List String) (rows : List (List (List Inline))) : List String :=
  line (header.map cell) :: ("|" ++ Text.join "" (List.replicate header.length " --- |")) ::
    rows.map rowLine

/-- The texts that a piece of text is made of. -/
def Inline.texts : Inline → List String
  | .text s | .strong s | .code s => [s]
  | .anchor name => [name]
  | .link label target => [label, target]

/-- The texts that a table is made of have no carriage return. -/
def OnLines (header : List String) (rows : List (List (List Inline))) : Prop :=
  (∀ s ∈ header, '\r' ∉ s.toList) ∧
    ∀ r ∈ rows, ∀ content ∈ r, ∀ i ∈ content, ∀ s ∈ i.texts, '\r' ∉ s.toList

theorem render_table (header : List String) (rows : List (List (List Inline))) :
    (Block.table header rows).render.toList =
      '\n' :: (tableLines header rows).flatMap fun l => l.toList ++ ['\n'] := by
  have hrows : (Text.join "" (rows.map fun r => row (r.map fun c => cell (renderInlines c)))).toList
      = (rows.map rowLine).flatMap fun l => l.toList ++ ['\n'] := by
    rw [Text.toList_join_empty, List.flatMap_map, List.flatMap_map]
    refine List.flatMap_congr fun r _ => ?_
    rw [row_eq, String.toList_append, rowLine, List.map_map]
    rfl
  rw [Block.render, row_eq, String.toList_append, hrows]
  simp [tableLines, rule]

/-! ## Lines of a document -/

/-- All blocks of a document. -/
def Document.allBlocks (d : Document) : List Block :=
  d.blocks ++ (sectionsWithin d.sections).flatMap Section.blocks

theorem infix_renderBlocks {b : Block} {bs : List Block} (h : b ∈ bs) :
    b.render.toList <:+: (renderBlocks bs).toList := by
  obtain ⟨before, after, rfl⟩ := List.append_of_mem h
  rw [renderBlocks, Text.toList_join_empty, List.flatMap_map, List.flatMap_append,
    List.flatMap_cons]
  exact ⟨_, _, (List.append_assoc ..)⟩

mutual

theorem infix_renderSection (level : Nat) {b : Block} : ∀ {s t : Section}, t ∈ s.within →
    b ∈ t.blocks → b.render.toList <:+: (s.render level).toList
  | ⟨title, anchor, blocks, sections⟩, t, ht, hb => by
    rw [Section.within] at ht
    rw [Section.render, String.toList_append, String.toList_append]
    rcases List.mem_cons.mp ht with rfl | ht
    · exact ((infix_renderBlocks hb).trans (List.suffix_append _ _).isInfix).trans
        (List.prefix_append _ _).isInfix
    · exact (infix_renderSections (level + 1) ht hb).trans (List.suffix_append _ _).isInfix

theorem infix_renderSections (level : Nat) {b : Block} : ∀ {ss : List Section} {t : Section},
    t ∈ sectionsWithin ss → b ∈ t.blocks → b.render.toList <:+: (renderSections level ss).toList
  | [], t, ht, _ => by simp [sectionsWithin] at ht
  | s :: ss, t, ht, hb => by
    rw [sectionsWithin] at ht
    rw [renderSections, String.toList_append]
    rcases List.mem_append.mp ht with ht | ht
    · exact (infix_renderSection level ht hb).trans (List.prefix_append _ _).isInfix
    · exact (infix_renderSections level ht hb).trans (List.suffix_append _ _).isInfix

end

/-- Every block of a document is written out in it. -/
theorem Document.infix_render {d : Document} {b : Block} (h : b ∈ d.allBlocks) :
    b.render.toList <:+: d.render.toList := by
  rw [Document.render, String.toList_append, String.toList_append]
  rcases List.mem_append.mp h with h | h
  · exact ((infix_renderBlocks h).trans (List.suffix_append _ _).isInfix).trans
      (List.prefix_append _ _).isInfix
  · obtain ⟨s, hs, hb⟩ := List.mem_flatMap.mp h
    exact (infix_renderSections 2 hs hb).trans (List.suffix_append _ _).isInfix

/-! ## Line ends -/

/-- Writing characters in another way puts no carriage returns into a text. -/
theorem return_not_mem_mapChars {f : Char → List Char} (hf : ∀ c, '\r' ∈ f c → '\r' = c)
    {s : String} (h : '\r' ∉ s.toList) : '\r' ∉ (Text.mapChars f s).toList := by
  rw [Text.mapChars, String.toList_ofList, List.mem_flatMap]
  rintro ⟨c, hc, hr⟩
  exact h (hf c hr ▸ hc)

theorem eq_of_return_mem_ite {p : Prop} [Decidable p] {c : Char} {cs : List Char}
    (hcs : '\r' ∈ cs → '\r' = c) (h : '\r' ∈ if p then cs else [c]) : '\r' = c := by
  split at h
  · exact hcs h
  · exact List.mem_singleton.mp h

theorem return_not_mem_render {i : Inline} (h : ∀ s ∈ i.texts, '\r' ∉ s.toList) :
    '\r' ∉ i.render.toList := by
  have hescape : ∀ c, '\r' ∈ escapeChar c → '\r' = c := fun _ => eq_of_return_mem_ite (by simp)
  have hcode : ∀ c, '\r' ∈ codeChar c → '\r' = c := fun _ => eq_of_return_mem_ite (by simp)
  have htarget : ∀ c, '\r' ∈ targetChar c → '\r' = c := fun _ => eq_of_return_mem_ite (by simp)
  cases i with
  | text s => exact return_not_mem_mapChars hescape (h s (by simp [Inline.texts]))
  | strong s =>
    have hs : '\r' ∉ (escape s).toList :=
      return_not_mem_mapChars hescape (h s (by simp [Inline.texts]))
    simpa [Inline.render] using hs
  | code s =>
    have hs := return_not_mem_mapChars hcode (h s (by simp [Inline.texts]))
    simpa [Inline.render] using hs
  | anchor name =>
    have hname := h name (by simp [Inline.texts])
    simpa [Inline.render, anchorText] using hname
  | link label target =>
    have hlabel : '\r' ∉ (escape label).toList :=
      return_not_mem_mapChars hescape (h label (by simp [Inline.texts]))
    have hlink := return_not_mem_mapChars htarget (h target (by simp [Inline.texts]))
    simpa [Inline.render] using ⟨hlabel, hlink⟩

theorem return_not_mem_renderInlines {content : List Inline}
    (h : ∀ i ∈ content, ∀ s ∈ i.texts, '\r' ∉ s.toList) :
    '\r' ∉ (renderInlines content).toList := by
  rw [renderInlines, Text.toList_join_empty, List.flatMap_map, List.mem_flatMap]
  rintro ⟨i, hi, hr⟩
  exact return_not_mem_render (h i hi) hr

/-- What stands between cells, and between the header and the rows, does not end a line. -/
theorem isLineEnd_marks {t : String} (h : t ∈ ["| ", " | ", " |", "|", " --- |"]) :
    ∀ c ∈ t.toList, isLineEnd c = false := by
  have hall : ∀ t ∈ ["| ", " | ", " |", "|", " --- |"],
      t.toList.all (fun c => !isLineEnd c) = true := by decide
  simpa using hall t h

/-- The cells of a line do not go beyond it. -/
theorem isLineEnd_line {ss : List String} (h : ∀ s ∈ ss, '\r' ∉ s.toList) :
    ∀ c ∈ (line (ss.map cell)).toList, isLineEnd c = false := by
  have hcell : ∀ s ∈ ss, ∀ c ∈ (cell s).toList, isLineEnd c = false := by
    intro s hs c hc
    rw [cell, Text.mapChars, String.toList_ofList, List.mem_flatMap] at hc
    obtain ⟨d, hd, hc⟩ := hc
    unfold cellChar at hc
    split at hc
    · rcases List.mem_pair.mp hc with rfl | rfl <;> rfl
    · split at hc
      · obtain rfl := List.mem_singleton.mp hc
        rfl
      · rename_i hn
        obtain rfl := List.mem_singleton.mp hc
        have hr : c ≠ '\r' := fun hr => h s hs (hr ▸ hd)
        rw [isLineEnd, decide_eq_false hn, decide_eq_false hr, Bool.false_or]
  intro c hc
  rw [line, String.toList_append, String.toList_append, List.mem_append, List.mem_append] at hc
  rcases hc with (hc | hc) | hc
  · exact isLineEnd_marks (by simp) c hc
  · rcases Text.mem_toList_join hc with hc | ⟨part, hpart, hc⟩
    · exact isLineEnd_marks (by simp) c hc
    · obtain ⟨s, hs, rfl⟩ := List.mem_map.mp hpart
      exact hcell s hs c hc
  · exact isLineEnd_marks (by simp) c hc

theorem isLineEnd_tableLines {header : List String} {rows : List (List (List Inline))}
    (h : OnLines header rows) :
    ∀ l ∈ tableLines header rows, ∀ c ∈ l.toList, isLineEnd c = false := by
  refine List.forall_mem_cons.mpr ⟨isLineEnd_line h.1, List.forall_mem_cons.mpr ⟨?_, ?_⟩⟩
  · rw [String.toList_append, Text.toList_join_empty]
    refine List.forall_mem_append.mpr ⟨isLineEnd_marks (by simp), fun c hc => ?_⟩
    obtain ⟨t, ht, hc⟩ := List.mem_flatMap.mp hc
    obtain rfl := List.eq_of_mem_replicate ht
    exact isLineEnd_marks (by simp) c hc
  · refine List.forall_mem_map.mpr fun r hr => isLineEnd_line ?_
    exact List.forall_mem_map.mpr fun content hcontent =>
      return_not_mem_renderInlines (h.2 r hr content hcontent)

/-- The lines of a table are lines of every document that it is in. -/
theorem Document.infix_lines {d : Document} {header : List String}
    {rows : List (List (List Inline))} (hd : .table header rows ∈ d.allBlocks)
    (h : OnLines header rows) : tableLines header rows <:+: d.lines := by
  obtain ⟨before, after, heq⟩ := d.infix_render hd
  have hmove : d.render.toList = before ++ '\n' ::
      (((tableLines header rows).map String.toList).flatMap (fun l => l ++ ['\n']) ++ after) := by
    rw [← heq, render_table, List.flatMap_map]
    simp
  have hends : ∀ l ∈ (tableLines header rows).map String.toList, ∀ c ∈ l, isLineEnd c = false :=
    List.forall_mem_map.mpr (isLineEnd_tableLines h)
  refine ⟨(Text.fields isLineEnd before).map String.ofList,
    (Text.fields isLineEnd after).map String.ofList, ?_⟩
  rw [Document.lines, hmove, Text.fields_append_cons rfl, Text.fields_flatMap_concat rfl hends,
    List.map_append, List.map_append, List.map_map]
  simp [Function.comp_def]

/-- The header and the rows of a table are lines of the document. Each line has as many cells as
it is meant to have if and only if no bar in what is written as it is has an odd number of
backslashes before it. -/
theorem rows_of_table {d : Document} {header : List String} {rows : List (List (List Inline))}
    (hd : .table header rows ∈ d.allBlocks) (h : OnLines header rows) :
    tableLines header rows <:+: d.lines ∧
      (header ≠ [] → (bars false (line (header.map cell)).toList = header.length + 1 ↔
        ∀ s ∈ header, bars true s.toList = 0)) ∧
      ∀ r ∈ rows, r ≠ [] → (bars false (rowLine r).toList = r.length + 1 ↔
        ∀ content ∈ r, ∀ i ∈ content, bars true i.verbatim.toList = 0) := by
  refine ⟨d.infix_lines hd h, fun hne => ?_, fun r _ hne => ?_⟩
  · rw [bars_line hne, Nat.add_eq_left, List.sum_eq_zero_iff_forall_eq_nat, List.forall_mem_map]
  · rw [bars_rowLine hne, Nat.add_eq_left, List.sum_eq_zero_iff_forall_eq_nat, List.forall_mem_map]
    simp only [List.sum_eq_zero_iff_forall_eq_nat, List.forall_mem_map]
    rfl

/-- A row with a text and with code that each have a bar. -/
def barRow : List (List Inline) := [[.strong "a|b\\", .text "|"], [.code "c|d"]]

/-- Backslashes in a text and bars in code do not divide cells. -/
theorem rows_of_table_barRow :
    Block.table ["Name", "Code"] [barRow] ∈
        (⟨"Codes", [.table ["Name", "Code"] [barRow]], []⟩ : Document).allBlocks ∧
      OnLines ["Name", "Code"] [barRow] ∧ barRow ≠ [] ∧
      bars false (rowLine barRow).toList = 3 := by
  have hblock : Block.table ["Name", "Code"] [barRow] ∈
      (⟨"Codes", [.table ["Name", "Code"] [barRow]], []⟩ : Document).allBlocks := by
    simp [Document.allBlocks]
  have hlines : OnLines ["Name", "Code"] [barRow] := by
    simp [OnLines, barRow, Inline.texts]
  have hne : barRow ≠ [] := List.cons_ne_nil _ _
  refine ⟨hblock, hlines, hne, ?_⟩
  refine ((rows_of_table hblock hlines).2.2 barRow (List.mem_singleton_self _) hne).mpr ?_
  decide

/-- A backslash before a bar in code makes the bar divide the cell. -/
theorem bars_rowLine_code :
    Block.table ["Code"] [[[.code "a\\|b"]]] ∈
        (⟨"Codes", [.table ["Code"] [[[.code "a\\|b"]]]], []⟩ : Document).allBlocks ∧
      OnLines ["Code"] [[[.code "a\\|b"]]] ∧
      rowLine [[.code "a\\|b"]] = "| \x60a\\\\|b\x60 |" ∧
      bars false (rowLine [[.code "a\\|b"]]).toList = 3 ∧
      bars false (rowLine [[.code "a\\|b"]]).toList ≠ [[Inline.code "a\\|b"]].length + 1 := by
  have hbars : bars false (rowLine [[.code "a\\|b"]]).toList = 3 := by decide
  refine ⟨by simp [Document.allBlocks], by simp [OnLines, Inline.texts], by decide, hbars, ?_⟩
  rw [hbars]
  decide

end Markdown

end DataSpec
