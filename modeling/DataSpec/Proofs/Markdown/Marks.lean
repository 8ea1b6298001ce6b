import DataSpec.Markdown.Basic
import DataSpec.Text.Segments

/-!
# Anchors and links of Markdown documents

The anchors of a document are those of its sections and those in its text, and a link whose
target begins with a hash leads to one of them, if `Document.LinksResolve`. Both are read from
pieces of text by functions that have no use for any others (`ReadsMarks`).
-/

set_option autoImplicit false

namespace DataSpec.Markdown

/-! ## Anchors and links of a document -/

/-- The name of the place that a piece of text is. -/
def Inline.anchor? : Inline → Option String
  | .anchor name => some name
  | _ => none

/-- The name of the place in the document to which a piece of text leads. -/
def Inline.target? : Inline → Option String
  | .link _ target => Text.after? target "#"
  | _ => none

/-- The pieces of text of a block. -/
def Block.inlines : Block → List Inline
  | .paragraph content => content
  | .list items => items.flatten
  | .table _ rows => rows.flatten.flatten

/-- What `f` reads from the pieces of text of blocks. -/
def readBlocks (f : Inline → Option String) (blocks : List Block) : List String :=
  (blocks.flatMap Block.inlines).filterMap f

mutual

/-- A section and all sections in it. -/
def Section.within : Section → List Section
  | ⟨title, anchor, blocks, sections⟩ =>
    ⟨title, anchor, blocks, sections⟩ :: sectionsWithin sections

/-- Sections and all sections in them. -/
def sectionsWithin : List Section → List Section
  | [] => []
  | s :: rest => s.within ++ sectionsWithin rest

end

/-- The anchor of a section and those in its text. -/
def Section.anchors (s : Section) : List String :=
  s.anchor.toList ++ readBlocks Inline.anchor? s.blocks

/-- All anchors of a document. -/
def Document.anchors (doc : Document) : List String :=
  readBlocks Inline.anchor? doc.blocks ++ (sectionsWithin doc.sections).flatMap Section.anchors

/-- The names of the places in a document to which its links lead. -/
def Document.targets (doc : Document) : List String :=
  readBlocks Inline.target? doc.blocks ++
    (sectionsWithin doc.sections).flatMap fun s => readBlocks Inline.target? s.blocks

/-- Every link within a document leads to one place. -/
def Document.LinksResolve (doc : Document) : Prop :=
  ∀ name ∈ doc.targets, doc.anchors.count name = 1

@[simp]
theorem anchor?_anchor (name : String) : (Inline.anchor name).anchor? = some name := rfl

@[simp]
theorem target?_anchor (name : String) : (Inline.anchor name).target? = none := rfl

@[simp]
theorem anchor?_link (text target : String) : (Inline.link text target).anchor? = none := rfl

/-- A link leads to an anchor if it has a fragment. -/
@[simp]
theorem target?_link (text target : String) :
    (Inline.link text target).target? = Text.after? target "#" := rfl

@[simp]
theorem target?_local (text anchor : String) :
    (Inline.local text anchor).target? = some anchor := by
  simp [Inline.local, Inline.target?, Text.after?, Text.startsWith]

/-- All sections are those of the document, each with those in it. -/
theorem sectionsWithin_eq_flatMap (l : List Section) :
    sectionsWithin l = l.flatMap Section.within := by
  induction l with
  | nil => simp [sectionsWithin]
  | cons s l ih => simp [sectionsWithin, ih]

/-- A section comes before those in it. -/
theorem Section.within_eq (s : Section) : s.within = s :: s.sections.flatMap Section.within := by
  cases s
  rw [within, sectionsWithin_eq_flatMap]

/-- Sections without sections in them are all there is. -/
theorem flatMap_within {l : List Section} (h : ∀ s ∈ l, s.sections = []) :
    l.flatMap Section.within = l := by
  induction l with
  | nil => rfl
  | cons s l ih =>
    obtain ⟨hs, hl⟩ := List.forall_mem_cons.mp h
    rw [List.flatMap_cons, Section.within_eq, hs, ih hl]
    rfl

/-- A function that reads nothing from pieces of text other than anchors and links. -/
structure ReadsMarks (f : Inline → Option String) : Prop where
  text : ∀ s, f (.text s) = none
  strong : ∀ s, f (.strong s) = none
  code : ∀ s, f (.code s) = none

/-- Plain and strong texts and code are no anchors. -/
theorem readsMarks_anchor? : ReadsMarks Inline.anchor? :=
  ⟨fun _ => rfl, fun _ => rfl, fun _ => rfl⟩

/-- Plain and strong texts and code lead to no anchor. -/
theorem readsMarks_target? : ReadsMarks Inline.target? :=
  ⟨fun _ => rfl, fun _ => rfl, fun _ => rfl⟩

section

variable (f : Inline → Option String)

@[simp]
theorem readBlocks_nil : readBlocks f [] = [] := rfl

/-- Marks are read block after block. -/
@[simp]
theorem readBlocks_append (bs bs' : List Block) :
    readBlocks f (bs ++ bs') = readBlocks f bs ++ readBlocks f bs' := by
  simp [readBlocks]

@[simp]
theorem readBlocks_cons (b : Block) (bs : List Block) :
    readBlocks f (b :: bs) = b.inlines.filterMap f ++ readBlocks f bs := by
  simp [readBlocks]

/-- The marks of a list are those of its items. -/
@[simp]
theorem filterMap_inlines_list (items : List (List Inline)) :
    (Block.list items).inlines.filterMap f = items.flatMap (List.filterMap f) := by
  simp [Block.inlines, List.flatMap_def]

end

end DataSpec.Markdown

