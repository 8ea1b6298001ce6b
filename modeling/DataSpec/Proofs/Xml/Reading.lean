import DataSpec.Proofs.Xml.Values
import Mathlib.Tactic.Tauto

/-!
# Reading XML

The other way of `Xml.render` : a text is read character by character as tags with the texts
before them (`Reader.step`), in the form that elements are written in. It is well-formed if the
tags are nested, and their names, values and texts are written as they have to be
(`WellFormed`). A rendered element is read as its own tags (`run_render`), which are always nested
(`isNested_pieces`).
-/

set_option autoImplicit false

namespace DataSpec.Xml

/-! ## Tags -/

/-- A tag. -/
inductive Tag where
  | opening (name : String) (attributes : List (String × String))
  /-- A tag that opens and closes an element. -/
  | single (name : String) (attributes : List (String × String))
  | closing (name : String)
deriving DecidableEq

/-- Whether names and values are written as they have to be. -/
def Tag.isWritten : Tag → Bool
  | opening name attributes => isName name && attributes.all fun a => isName a.1 && isValue a.2
  | single name attributes => isName name && attributes.all fun a => isName a.1 && isValue a.2
  | closing name => isName name

/-- A tag with the text before it. -/
structure Piece where
  before : String
  tag : Tag
deriving DecidableEq

/-- Whether a tag and the text before it are written as they have to be. -/
def Piece.isWritten (p : Piece) : Bool := isClean p.before.toList && p.tag.isWritten

/-- Whether tags close the elements that are open, the last of them first, and all that they open
themselves. -/
def isNested : List String → List Piece → Bool
  | opened, [] => opened.isEmpty
  | opened, ⟨_, .opening name _⟩ :: rest => isNested (name :: opened) rest
  | opened, ⟨_, .single _ _⟩ :: rest => isNested opened rest
  | name :: opened, ⟨_, .closing name'⟩ :: rest => decide (name = name') && isNested opened rest
  | [], ⟨_, .closing _⟩ :: _ => false

/-! ## The tags of an element -/

/-- The text before a tag on a line of its own. -/
def lineBreak (level : Nat) : String := "\n" ++ indent level

mutual

/-- The tags that an element is written with. -/
def pieces (level : Nat) : Xml → List Piece
  | leaf name attributes => [⟨lineBreak level, .single name attributes⟩]
  | text name attributes content =>
    [⟨lineBreak level, .opening name attributes⟩, ⟨content, .closing name⟩]
  | node name attributes children =>
    ⟨lineBreak level, .opening name attributes⟩ ::
      (piecesAll (level + 1) children ++ [⟨lineBreak level, .closing name⟩])

def piecesAll (level : Nat) : List Xml → List Piece
  | [] => []
  | x :: rest => pieces level x ++ piecesAll level rest

end

/-- Attributes whose names are names and whose values have a property. -/
def AttributesConform (P : String → Prop) (attributes : List (String × String)) : Prop :=
  ∀ a ∈ attributes, isName a.1 = true ∧ P a.2

instance (P : String → Prop) [DecidablePred P] : DecidablePred (AttributesConform P) :=
  fun attributes => inferInstanceAs (Decidable (∀ a ∈ attributes, isName a.1 = true ∧ P a.2))

mutual

/-- Whether names and texts are written as they have to be, and the values of all attributes have
a property. -/
def Conforms (P : String → Prop) : Xml → Prop
  | leaf name attributes =>
    isName name = true ∧ AttributesConform P attributes
  | text name attributes content =>
    isName name = true ∧ AttributesConform P attributes ∧
      isClean content.toList = true
  | node name attributes children =>
    isName name = true ∧ AttributesConform P attributes ∧ ConformAll P children

def ConformAll (P : String → Prop) : List Xml → Prop
  | [] => True
  | x :: rest => Conforms P x ∧ ConformAll P rest

end

section

variable {P Q : String → Prop} {attributes more : List (String × String)}

/-- Attributes conform if each one does. -/
theorem attributesConform_cons_iff {a : String × String} :
    AttributesConform P (a :: attributes) ↔
      (isName a.1 = true ∧ P a.2) ∧ AttributesConform P attributes :=
  List.forall_mem_cons

theorem attributesConform_singleton_iff {a : String × String} :
    AttributesConform P [a] ↔ isName a.1 = true ∧ P a.2 :=
  List.forall_mem_singleton

theorem attributesConform_append_iff :
    AttributesConform P (attributes ++ more) ↔
      AttributesConform P attributes ∧ AttributesConform P more :=
  List.forall_mem_append

@[simp]
theorem attributesConform_nil : AttributesConform P [] := List.forall_mem_nil _

theorem AttributesConform.imp (h : ∀ value, P value → Q value)
    (hattributes : AttributesConform P attributes) : AttributesConform Q attributes :=
  fun a ha => (hattributes a ha).imp_right (h a.2)

mutual

/-- Elements conform to a weaker condition too. -/
theorem Conforms.imp (h : ∀ value, P value → Q value) : ∀ {x : Xml}, x.Conforms P → x.Conforms Q
  | .leaf _ _, ⟨hname, hattributes⟩ => ⟨hname, hattributes.imp h⟩
  | .text _ _ _, ⟨hname, hattributes, hcontent⟩ => ⟨hname, hattributes.imp h, hcontent⟩
  | .node _ _ _, ⟨hname, hattributes, hchildren⟩ =>
    ⟨hname, hattributes.imp h, ConformAll.imp h hchildren⟩

theorem ConformAll.imp (h : ∀ value, P value → Q value) :
    ∀ {xs : List Xml}, ConformAll P xs → ConformAll Q xs
  | [], _ => trivial
  | _ :: _, ⟨hx, hrest⟩ => ⟨Conforms.imp h hx, ConformAll.imp h hrest⟩

end

/-- All elements conform if each one does. -/
theorem conformAll_iff : ∀ {xs : List Xml}, ConformAll P xs ↔ ∀ x ∈ xs, x.Conforms P
  | [] => by simp [ConformAll]
  | x :: rest => by rw [ConformAll, conformAll_iff, List.forall_mem_cons]

theorem conformAll_append {xs ys : List Xml} :
    ConformAll P (xs ++ ys) ↔ ConformAll P xs ∧ ConformAll P ys := by
  rw [conformAll_iff, conformAll_iff, conformAll_iff, List.forall_mem_append]

end

/-- There is no markup in the blanks at the start of a line. -/
theorem lt_not_mem_indent : ∀ level : Nat, '<' ∉ (indent level).toList
  | 0 => by simp [indent]
  | level + 1 => by simpa [indent] using lt_not_mem_indent level

/-! ## The reader -/

/-- What is known of a tag that opens an element. -/
structure Head where
  before : List Char
  name : List Char
  attributes : List (String × String)

namespace Reader

/-- How far a text has been read. -/
inductive Place where
  /-- Behind a tag, with the text since then. -/
  | text (before : List Char)
  /-- At the first character of a tag. -/
  | tag (before : List Char)
  | closing (before name : List Char)
  | name (h : Head)
  /-- Behind the name of a tag or the value of an attribute. -/
  | between (h : Head)
  | attribute (h : Head) (name : List Char)
  /-- Behind the equals sign of an attribute. -/
  | equals (h : Head) (name : List Char)
  | value (h : Head) (name value : List Char)
  /-- Behind the slash of a tag that opens and closes an element. -/
  | slash (h : Head)

/-- One character behind the name of a tag or the value of an attribute. -/
def stepBetween (h : Head) (c : Char) : Option (Place × List Piece) :=
  match c with
  | ' ' => some (.attribute h [], [])
  | '/' => some (.slash h, [])
  | '>' => some (.text [],
    [⟨.ofList h.before, .opening (.ofList h.name) h.attributes⟩])
  | _ => none

/-- One character. -/
def step : Place → Char → Option (Place × List Piece)
  | .text before, c => some (if c = '<' then .tag before else .text (before ++ [c]), [])
  | .tag before, c =>
    if c = '/' then some (.closing before [], [])
    else if isNameChar c then some (.name ⟨before, [c], []⟩, [])
    else none
  | .closing before name, c =>
    if c = '>' then some (.text [], [⟨.ofList before, .closing (.ofList name)⟩])
    else if isNameChar c then some (.closing before (name ++ [c]), [])
    else none
  | .name h, c =>
    if isNameChar c then some (.name { h with name := h.name ++ [c] }, []) else stepBetween h c
  | .between h, c => stepBetween h c
  | .attribute h name, c =>
    if c = '=' then some (.equals h name, [])
    else if isNameChar c then some (.attribute h (name ++ [c]), [])
    else none
  | .equals h name, c => if c = '"' then some (.value h name [], []) else none
  | .value h name value, c =>
    if c = '"' then
      some (.between { h with
        attributes := h.attributes ++ [(.ofList name, .ofList value)] }, [])
    else some (.value h name (value ++ [c]), [])
  | .slash h, c =>
    if c = '>' then
      some (.text [], [⟨.ofList h.before, .single (.ofList h.name) h.attributes⟩])
    else none

/-- Characters one after another, with the tags that end among them. -/
def run : Place → List Char → Option (Place × List Piece)
  | p, [] => some (p, [])
  | p, c :: cs => (step p c).bind fun s => (run s.1 cs).map fun r => (r.1, s.2 ++ r.2)

variable {p q r : Place} {h : Head} {cs ds : List Char} {pieces more : List Piece}

/-- A text is read piece after piece. -/
theorem run_append (hcs : run p cs = some (q, pieces)) (hds : run q ds = some (r, more)) :
    run p (cs ++ ds) = some (r, pieces ++ more) := by
  induction cs generalizing p pieces with
  | nil =>
    obtain ⟨rfl, rfl⟩ : p = q ∧ [] = pieces := by simpa [run] using hcs
    simpa using hds
  | cons c cs ih =>
    obtain ⟨s, hstep, hrun⟩ := Option.bind_eq_some_iff.mp hcs
    obtain ⟨⟨q', rest⟩, hrest, heq⟩ := Option.map_eq_some_iff.mp hrun
    obtain ⟨rfl, rfl⟩ : q' = q ∧ s.2 ++ rest = pieces := by simpa using heq
    rw [List.cons_append, run, hstep, Option.bind_some, ih hrest, Option.map_some,
      List.append_assoc]

theorem run_cons {c : Char} (hc : step p c = some (q, [])) (hcs : run q cs = some (r, pieces)) :
    run p (c :: cs) = some (r, pieces) := by
  simp [run, hc, hcs]

/-- Characters that a place collects. -/
theorem run_collect {place : List Char → Place}
    (hstep : ∀ c ∈ cs, ∀ before, step (place before) c = some (place (before ++ [c]), []))
    (before : List Char) : run (place before) cs = some (place (before ++ cs), []) := by
  induction cs generalizing before with
  | nil => simp [run]
  | cons c cs ih =>
    obtain ⟨hc, hcs⟩ := List.forall_mem_cons.mp hstep
    simpa using run_cons (hc before) (ih hcs (before ++ [c]))

/-- Up to the next tag all characters are text. -/
theorem run_text (h : '<' ∉ cs) (before : List Char) :
    run (.text before) cs = some (.text (before ++ cs), []) :=
  run_collect (fun c hc before => by simp [step, ne_of_mem_of_not_mem hc h]) before

/-! ## Tags in turn -/

/-- The characters that a name ends before. -/
theorem not_isNameChar {d : Char} (hd : d ∈ ['/', '>', '=', ' ']) : isNameChar d = false := by
  simp only [List.mem_cons, List.not_mem_nil, or_false] at hd
  rcases hd with rfl | rfl | rfl | rfl <;> decide

/-- The characters that end a name are not in it. -/
theorem ne_of_isNameChar {c d : Char} (hc : isNameChar c = true) (hd : d ∈ ['/', '>', '=', ' ']) :
    c ≠ d :=
  fun heq => by simp [heq, not_isNameChar hd] at hc

/-- A closing tag is read with its name. -/
theorem run_closing {name : String} (hname : isName name = true) (before : List Char) :
    run (.tag before) ('/' :: name.toList ++ ['>']) =
      some (.text [], [⟨.ofList before, .closing name⟩]) := by
  obtain ⟨c, cs, heq, hchars⟩ := exists_of_isName hname
  have hcollect : run (.closing before []) name.toList =
      some (.closing before name.toList, []) := by
    refine run_collect (fun d hd before' => ?_) []
    have hd := hchars d (heq ▸ hd)
    simp [step, hd, ne_of_isNameChar hd (show '>' ∈ _ by simp)]
  have hclose : run (.closing before name.toList) ['>'] =
      some (.text [], [⟨.ofList before, .closing name⟩]) := by simp [run, step]
  exact run_append (run_cons rfl hcollect) hclose

/-- A name up to a character that it ends before. -/
theorem run_name {name : String} (hname : isName name = true) {d : Char}
    (hd : d ∈ ['/', '>', '=', ' ']) {before : List Char}
    (h : run (.between ⟨before, name.toList, []⟩) (d :: ds) = some (r, pieces)) :
    run (.tag before) (name.toList ++ d :: ds) = some (r, pieces) := by
  obtain ⟨c, cs, heq, hchars⟩ := exists_of_isName hname
  obtain ⟨hc, hcs⟩ := List.forall_mem_cons.mp hchars
  have hfirst : step (.tag before) c = some (.name ⟨before, [c], []⟩, []) := by
    simp [step, hc, ne_of_isNameChar hc (show '/' ∈ _ by simp)]
  have hcollect : run (.name ⟨before, [c], []⟩) cs = some (.name ⟨before, [c] ++ cs, []⟩, []) :=
    @run_collect cs (fun name => .name ⟨before, name, []⟩)
      (fun d hd name => by simp [step, hcs d hd]) [c]
  rw [heq] at h ⊢
  have hbehind : run (.name ⟨before, [c] ++ cs, []⟩) (d :: ds) = some (r, pieces) := by
    rw [← h, run, run]
    simp [step, not_isNameChar hd]
  exact run_append (run_cons hfirst hcollect) hbehind

/-- An attribute with the space before it. -/
theorem run_attribute {name value : String} (hname : isName name = true)
    (hvalue : Unquoted value) :
    run (.between h) (' ' :: name.toList ++ ['=', '"'] ++ value.toList ++ ['"']) =
      some (.between { h with attributes := h.attributes ++ [(name, value)] }, []) := by
  obtain ⟨c, cs, heq, hchars⟩ := exists_of_isName hname
  have hnames : run (.attribute h []) name.toList = some (.attribute h name.toList, []) := by
    refine run_collect (fun d hd before => ?_) []
    have hd := hchars d (heq ▸ hd)
    simp [step, hd, ne_of_isNameChar hd (show '=' ∈ _ by simp)]
  have hopen : run (.attribute h name.toList) ['=', '"'] =
      some (.value h name.toList [], []) := by simp [run, step]
  have hvalues : run (.value h name.toList []) value.toList =
      some (.value h name.toList value.toList, []) :=
    run_collect (fun d hd before => by simp [step, ne_of_mem_of_not_mem hd hvalue]) []
  have hclose : run (.value h name.toList value.toList) ['"'] =
      some (.between { h with attributes := h.attributes ++ [(name, value)] }, []) := by
    simp [run, step]
  exact run_append (run_append (run_append (run_cons rfl hnames) hopen) hvalues) hclose

/-- Attributes are read one after the other. -/
theorem run_attributesText :
    ∀ {attributes : List (String × String)} {h : Head},
      AttributesConform Unquoted attributes →
        run (.between h) (attributesText attributes).toList =
          some (.between { h with attributes := h.attributes ++ attributes }, [])
  | [], h, _ => by simp [attributesText, run]
  | (name, value) :: rest, h, hall => by
    obtain ⟨⟨hname, hvalue⟩, hrest⟩ := attributesConform_cons_iff.mp hall
    have htext := run_append (run_attribute (h := h) hname hvalue) (run_attributesText hrest)
    simpa [attributesText] using htext

/-- What a tag begins with, up to the slash or the bracket behind it. -/
theorem run_opening {level : Nat} {name : String} {attributes : List (String × String)}
    (hname : isName name = true)
    (hattributes : AttributesConform Unquoted attributes)
    {d : Char} (hd : d ∈ ['/', '>'])
    (h : run (.between ⟨(lineBreak level).toList, name.toList, attributes⟩) (d :: ds) =
      some (r, pieces)) :
    run (.text ['\n']) ((opening level name attributes).toList ++ d :: ds) = some (r, pieces) := by
  have hindent : run (.text ['\n']) ((indent level).toList ++ ['<']) =
      some (.tag (lineBreak level).toList, []) := by
    refine run_append (run_text (lt_not_mem_indent level) _) ?_
    simp [run, step, lineBreak]
  have hbehind : run (.between ⟨(lineBreak level).toList, name.toList, []⟩)
      ((attributesText attributes).toList ++ d :: ds) = some (r, pieces) := by
    simpa using run_append (run_attributesText hattributes) h
  have htag : run (.tag (lineBreak level).toList)
      (name.toList ++ ((attributesText attributes).toList ++ d :: ds)) = some (r, pieces) := by
    cases attributes with
    | nil => exact run_name hname (by simp at hd ⊢; tauto) hbehind
    | cons a rest =>
      have hspace : ∃ es, (attributesText (a :: rest)).toList ++ d :: ds = ' ' :: es :=
        ⟨_, by simp [attributesText]; rfl⟩
      obtain ⟨es, hes⟩ := hspace
      rw [hes] at hbehind ⊢
      exact run_name hname (by simp) hbehind
  have hall := run_append hindent htag
  simpa [opening] using hall

variable {name : String} {attributes : List (String × String)}

/-- An opening tag is read with its name and attributes. -/
theorem run_openTag (level : Nat) (hname : isName name = true)
    (hattributes : AttributesConform Unquoted attributes) :
    run (.text ['\n']) ((opening level name attributes).toList ++ ['>']) =
      some (.text [], [⟨lineBreak level, .opening name attributes⟩]) := by
  refine run_opening hname hattributes (by simp) ?_
  simp [run, step, stepBetween]

/-- A tag without contents is read with its name and attributes. -/
theorem run_singleTag (level : Nat) (hname : isName name = true)
    (hattributes : AttributesConform Unquoted attributes) :
    run (.text ['\n']) ((opening level name attributes).toList ++ ['/', '>', '\n']) =
      some (.text ['\n'], [⟨lineBreak level, .single name attributes⟩]) := by
  refine run_opening hname hattributes (by simp) ?_
  simp [run, step, stepBetween]

/-- A closing tag is read with the text before it. -/
theorem run_closeTag {before cs : List Char} (hname : isName name = true) (hcs : '<' ∉ cs) :
    run (.text before) (cs ++ ('<' :: ('/' :: name.toList ++ ['>']) ++ ['\n'])) =
      some (.text ['\n'], [⟨.ofList (before ++ cs), .closing name⟩]) := by
  refine run_append (run_text hcs before) ?_
  exact run_append (run_cons rfl (run_closing hname _)) (by simp [run, step])

/-! ## Elements in turn -/

mutual

/-- A rendered element is read as its tags. -/
theorem run_render (level : Nat) : ∀ x : Xml, x.Conforms Unquoted →
    run (.text ['\n']) (x.render level).toList = some (.text ['\n'], x.pieces level)
  | .leaf name attributes, ⟨hname, hattributes⟩ => by
    simpa [render, pieces] using run_singleTag level hname hattributes
  | .text name attributes content, ⟨hname, hattributes, hcontent⟩ => by
    have hall := run_append (run_openTag level hname hattributes)
      (run_closeTag hname (lt_not_mem_of_isClean hcontent))
    simpa [render, pieces] using hall
  | .node name attributes children, ⟨hname, hattributes, hchildren⟩ => by
    have hopen : run (.text ['\n']) ((opening level name attributes).toList ++ ['>'] ++ ['\n']) =
        some (.text ['\n'], [⟨lineBreak level, .opening name attributes⟩] ++ []) :=
      run_append (run_openTag level hname hattributes) (by simp [run, step])
    have hclose : run (.text ['\n'])
        ((indent level).toList ++ ('<' :: ('/' :: name.toList ++ ['>']) ++ ['\n'])) =
          some (.text ['\n'], [⟨lineBreak level, .closing name⟩]) := by
      simpa [lineBreak, String.ext_iff] using run_closeTag hname (lt_not_mem_indent level)
    have hall := run_append (run_append hopen (run_renderAll (level + 1) children hchildren)) hclose
    simpa [render, pieces] using hall

/-- Elements are read one after the other. -/
theorem run_renderAll (level : Nat) :
    ∀ xs : List Xml, ConformAll Unquoted xs →
      run (.text ['\n']) (renderAll level xs).toList = some (.text ['\n'], piecesAll level xs)
  | [], _ => rfl
  | x :: rest, ⟨hx, hrest⟩ => by
    rw [renderAll, String.toList_append]
    exact run_append (run_render level x hx) (run_renderAll level rest hrest)

end

end Reader

/-! ## Well-formed texts -/

mutual

/-- The tags of an element leave open what was open. -/
theorem isNested_pieces (level : Nat) (opened : List String) (rest : List Piece) :
    ∀ x : Xml, isNested opened (x.pieces level ++ rest) = isNested opened rest
  | .leaf name attributes => by simp [pieces, isNested]
  | .text name attributes content => by simp [pieces, isNested]
  | .node name attributes children => by
    simp [pieces, isNested, isNested_piecesAll (level + 1) (name :: opened) _ children]

/-- The tags of elements close what they open, each in turn. -/
theorem isNested_piecesAll (level : Nat) (opened : List String) (rest : List Piece) :
    ∀ xs : List Xml, isNested opened (piecesAll level xs ++ rest) = isNested opened rest
  | [] => by simp [piecesAll]
  | x :: xs => by
    rw [piecesAll, List.append_assoc, isNested_pieces level opened _ x,
      isNested_piecesAll level opened rest xs]

end

theorem isClean_lineBreak : ∀ level : Nat, isClean (lineBreak level).toList = true
  | 0 => by decide
  | level + 1 => by simpa [lineBreak, indent, isClean] using isClean_lineBreak level

section

variable {before name : String} {attributes : List (String × String)}

/-- A tag is written well if the text before it, its name and its values are. -/
theorem isWritten_opening_iff : Piece.isWritten ⟨before, .opening name attributes⟩ = true ↔
    isClean before.toList = true ∧ isName name = true ∧
      AttributesConform (fun value => isValue value = true) attributes := by
  simp [Piece.isWritten, Tag.isWritten, AttributesConform]

theorem isWritten_single_iff : Piece.isWritten ⟨before, .single name attributes⟩ = true ↔
    isClean before.toList = true ∧ isName name = true ∧
      AttributesConform (fun value => isValue value = true) attributes := by
  simp [Piece.isWritten, Tag.isWritten, AttributesConform]

theorem isWritten_closing_iff : Piece.isWritten ⟨before, .closing name⟩ = true ↔
    isClean before.toList = true ∧ isName name = true := by
  simp [Piece.isWritten, Tag.isWritten]

end

mutual

/-- The tags of an element are written as they have to be exactly if the element is. -/
theorem isWritten_pieces_iff (level : Nat) : ∀ x : Xml,
    (∀ p ∈ x.pieces level, p.isWritten = true) ↔ x.Conforms fun value => isValue value = true
  | .leaf name attributes => by
    rw [pieces, Conforms, List.forall_mem_singleton, isWritten_single_iff]
    simp only [isClean_lineBreak, true_and]
  | .text name attributes content => by
    rw [pieces, Conforms, List.forall_mem_cons, List.forall_mem_singleton, isWritten_opening_iff,
      isWritten_closing_iff]
    simp only [isClean_lineBreak, true_and]
    tauto
  | .node name attributes children => by
    rw [pieces, Conforms, List.forall_mem_cons, List.forall_mem_append, List.forall_mem_singleton,
      isWritten_opening_iff, isWritten_closing_iff, isWritten_piecesAll_iff (level + 1) children]
    simp only [isClean_lineBreak, true_and]
    tauto

/-- The tags of elements are written well if the elements conform. -/
theorem isWritten_piecesAll_iff (level : Nat) : ∀ xs : List Xml,
    (∀ p ∈ piecesAll level xs, p.isWritten = true) ↔
      ConformAll (fun value => isValue value = true) xs
  | [] => by simp [piecesAll, ConformAll]
  | x :: rest => by
    rw [piecesAll, ConformAll, List.forall_mem_append, isWritten_pieces_iff level x,
      isWritten_piecesAll_iff level rest]

end

/-- What a document begins with. -/
def prolog : String := "<?xml version=\"1.0\" encoding=\"utf-8\"?>"

/-- The declaration is a line of its own. -/
theorem declaration_eq : declaration = prolog ++ "\n" := by decide

/-- A document that is read as these tags, nested and written as they have to be. -/
def Reads (text : String) (pieces : List Piece) : Prop :=
  ∃ body after, text = prolog ++ body ∧
    Reader.run (.text []) body.toList = some (.text after, pieces) ∧
      isNested [] pieces = true ∧ (∀ p ∈ pieces, p.isWritten = true) ∧ isClean after = true

/-- A text that is XML. -/
def WellFormed (text : String) : Prop := ∃ pieces, Reads text pieces

variable {root : Xml}

/-- A document is read as the tags of its root. -/
theorem run_document (h : root.Conforms Unquoted) :
    Reader.run (.text []) ("\n" ++ root.render 0).toList =
      some (.text ['\n'], root.pieces 0) := by
  rw [String.toList_append]
  exact Reader.run_cons rfl (Reader.run_render 0 root h)

theorem document_eq (root : Xml) : document root = prolog ++ ("\n" ++ root.render 0) := by
  rw [document, declaration_eq, String.append_assoc]

/-- A document is read as the tags of its root, and is XML, exactly if the root is written as it
has to be. -/
theorem reads_document_iff :
    Reads (document root) (root.pieces 0) ↔ root.Conforms fun value => isValue value = true := by
  rw [← isWritten_pieces_iff 0 root]
  refine ⟨fun ⟨_, _, _, _, _, hwritten, _⟩ => hwritten, fun hwritten => ?_⟩
  have hunquoted : root.Conforms Unquoted :=
    ((isWritten_pieces_iff 0 root).mp hwritten).imp fun value hvalue => (isValue_iff.mp hvalue).2
  have hnested : isNested [] (root.pieces 0) = true := by
    simpa [isNested] using isNested_pieces 0 [] [] root
  exact ⟨_, _, document_eq root, run_document hunquoted, hnested, hwritten, by decide⟩

/-- Without quotes in the values of attributes, a document is XML only if its root is written as it
has to be. -/
theorem wellFormed_document_iff (h : root.Conforms Unquoted) :
    WellFormed (document root) ↔ root.Conforms fun value => isValue value = true := by
  rw [← reads_document_iff]
  refine ⟨fun ⟨pieces, hreads⟩ => ?_, fun hreads => ⟨_, hreads⟩⟩
  obtain ⟨body, after, htext, hrun, -⟩ := id hreads
  rw [document_eq] at htext
  obtain rfl := String.append_right_inj prolog |>.mp htext
  rw [run_document h] at hrun
  obtain rfl := (Prod.mk.inj (Option.some.inj hrun)).2
  exact hreads

end DataSpec.Xml
