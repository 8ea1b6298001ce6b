import DataSpec.Proofs.Text.RelativePaths
import Mathlib.Data.List.TakeWhile

/-!
# References to resources

A document refers to another one by a `UriReference`, which is read against the URI of the document
itself (`resolve`) : what the reference does not say is taken from there, and a path that does not
begin with a slash goes on from the directory of the document. Then `.` and `..` are worked off.

A path is kept as its stretches between slashes, so the path `/a/b` is an empty stretch, `a` and
`b`, and the empty path is one empty stretch.
-/

set_option autoImplicit false

namespace DataSpec

/-- A reference by its parts, which may all be absent but the path. -/
structure UriReference where
  scheme : Option String
  authority : Option String
  path : List String
  query : Option String
  fragment : Option String

namespace UriReference

/-! ## Reading and writing -/

/-- What stands before the first place of a character, and what stands behind it. -/
def cut (c : Char) (s : String) : String × Option String :=
  match s.toList.dropWhile (· ≠ c) with
  | [] => (s, none)
  | _ :: rest => (String.ofList (s.toList.takeWhile (· ≠ c)), some (String.ofList rest))

/-- The scheme that a reference begins with, and what follows it. A colon behind a slash, or
with nothing before it, ends no scheme. -/
def cutScheme : List String → Option String × List String
  | [] => (none, [])
  | first :: rest =>
    match cut ':' first with
    | (scheme, some first') =>
      if scheme = "" then (none, first :: rest) else (some scheme, first' :: rest)
    | (_, none) => (none, first :: rest)

/-- The authority that stands behind two slashes, and the path that follows it. -/
def cutAuthority : List String → Option String × List String
  | "" :: "" :: [authority] => (some authority, [""])
  | "" :: "" :: authority :: path => (some authority, "" :: path)
  | path => (none, path)

/-- The reference that is spelled by stretches between slashes. -/
def ofStretches (stretches : List String) (query fragment : Option String) : UriReference :=
  let (scheme, rest) := cutScheme stretches
  let (authority, path) := cutAuthority rest
  ⟨scheme, authority, path, query, fragment⟩

/-- The reference that a text spells. -/
def parse (text : String) : UriReference :=
  let (rest, fragment) := cut '#' text
  let (rest, query) := cut '?' rest
  ofStretches ((Text.fields (· = '/') rest.toList).map String.ofList) query fragment

/-- The text of a reference. -/
def text (r : UriReference) : String :=
  (match r.scheme with | some scheme => scheme ++ ":" | none => "") ++
    (match r.authority with | some authority => "//" ++ authority | none => "") ++
    Text.join "/" r.path ++
    (match r.query with | some query => "?" ++ query | none => "") ++
    (match r.fragment with | some fragment => "#" ++ fragment | none => "")

/-! ## Resolution -/

/-- Work off `.` and `..` behind the first stretch of a path. What has been passed is kept with the
last stretch first; a path that ends in one of the two leads to a directory. If even the first
stretch is left, the path goes on from the root. -/
def workOff (first : String) (passed : List String) : List String → List String
  | [] => first :: passed.reverse
  | name :: rest =>
    let passed' := if rest = [] then [""] else []
    if name = "." then workOff first (passed' ++ passed) rest
    else if name = ".." then
      workOff (if passed = [] then "" else first) (passed' ++ passed.tail) rest
    else workOff first (name :: passed) rest

/-- The path without `.` and `..`. -/
def removeDots : List String → List String
  | [] => [""]
  | first :: rest =>
    if first = "." || first = ".." then removeDots rest else workOff first [] rest

/-- A path that goes on from the directory of the base. -/
def merge (base : UriReference) (path : List String) : List String :=
  if base.authority.isSome && base.path = [""] then "" :: path else base.path.dropLast ++ path

/-- What a reference means in a document at `base`. -/
def resolve (base r : UriReference) : UriReference :=
  if r.scheme.isSome then { r with path := removeDots r.path }
  else if r.authority.isSome then { r with scheme := base.scheme, path := removeDots r.path }
  else if r.path = [""] then
    { base with query := r.query <|> base.query, fragment := r.fragment }
  else
    let path := if r.path.head? = some "" then r.path else base.merge r.path
    { base with path := removeDots path, query := r.query, fragment := r.fragment }

/-- What the text of a reference means in a document at a URI. -/
def meaning (base reference : String) : String := ((parse base).resolve (parse reference)).text

example : meaning "http://a/b/c/d;p?q" "../../../g;x=1/./y#s" = "http://a/g;x=1/y#s" := by
  decide +kernel

example : meaning "http://a/b/c/d;p?q" "g:h/../i" = "g:/i" := by decide +kernel

/-! ## Spellings that are read back -/

variable {name scheme authority : String} {rest stretches names steps passed : List String}
  {n : Nat}

/-- A text that can be a stretch of the path of a reference, or its authority. -/
def IsStretch (s : String) : Prop := ∀ c ∈ ['/', '?', '#'], c ∉ s.toList

instance (s : String) : Decidable (IsStretch s) := List.decidableBAll (· ∉ s.toList) _

theorem IsStretch.slash_not_mem (h : IsStretch name) : '/' ∉ name.toList :=
  h '/' List.mem_cons_self

theorem cut_of_not_mem {c : Char} (h : c ∉ name.toList) : cut c name = (name, none) := by
  have hall : name.toList.dropWhile (· ≠ c) = [] :=
    List.dropWhile_eq_nil_iff.mpr fun d hd => by simpa using ne_of_mem_of_not_mem hd h
  rw [cut, hall]

theorem cut_append {c : Char} {before after : String} (h : c ∉ before.toList) :
    cut c (before ++ String.singleton c ++ after) = (before, some after) := by
  have hcs : (before ++ String.singleton c ++ after).toList =
      before.toList ++ c :: after.toList := by simp
  have hall : ∀ d ∈ before.toList, decide (d ≠ c) = true := fun d hd => by
    simpa using ne_of_mem_of_not_mem hd h
  rw [cut, hcs, List.dropWhile_append_of_pos hall, List.takeWhile_append_of_pos hall]
  simp

/-- Stretches without the marks of queries and fragments are read back. -/
theorem parse_join (hne : stretches ≠ []) (h : ∀ s ∈ stretches, IsStretch s) :
    parse (Text.join "/" stretches) = ofStretches stretches none none := by
  have hnot : ∀ c ∈ ['?', '#'], c ∉ (Text.join "/" stretches).toList := by
    intro c hc hmem
    rcases Text.mem_toList_join hmem with hslash | ⟨s, hs, hcs⟩
    · rcases List.mem_pair.mp hc with rfl | rfl <;> exact absurd hslash (by decide)
    · exact h s hs c (List.mem_cons_of_mem _ hc) hcs
  simp only [parse, cut_of_not_mem (hnot '#' (by simp)), cut_of_not_mem (hnot '?' (by simp)),
    Text.fields_join hne fun s hs => (h s hs).slash_not_mem]

/-- The text begins with a scheme and a colon. -/
def HasScheme (s : String) : Prop :=
  ∃ scheme rest, scheme ≠ "" ∧ ':' ∉ scheme.toList ∧ s = scheme ++ ":" ++ rest

theorem cutScheme_append {after : String} (hne : scheme ≠ "") (hcolon : ':' ∉ scheme.toList) :
    cutScheme ((scheme ++ ":" ++ after) :: rest) = (some scheme, after :: rest) := by
  rw [cutScheme, show ":" = String.singleton ':' from rfl, cut_append hcolon]
  simp [hne]

theorem cutScheme_of_not_hasScheme (h : ¬ HasScheme name) :
    cutScheme (name :: rest) = (none, name :: rest) := by
  rw [cutScheme]
  by_cases hcolon : ':' ∈ name.toList
  · obtain ⟨before, after, hname, hbefore⟩ := List.eq_append_cons_of_mem hcolon
    have hname : name = String.ofList before ++ ":" ++ String.ofList after := by
      rw [← String.toList_inj, hname]
      simp
    have hempty : String.ofList before = "" := by
      by_contra hne
      exact h ⟨_, _, hne, by simpa using hbefore, hname⟩
    rw [hname, show ":" = String.singleton ':' from rfl, cut_append (by simpa using hbefore)]
    simp [hempty]
  · rw [cut_of_not_mem hcolon]

theorem cutAuthority_eq_none (h : ∀ names, rest ≠ "" :: "" :: names) :
    cutAuthority rest = (none, rest) := by
  rw [cutAuthority]
  · rintro authority rfl
    exact h _ rfl
  · rintro authority names rfl
    exact h _ rfl

/-- Stretches that do not begin with a scheme or a slash spell a path. -/
theorem parse_path (hscheme : ¬ HasScheme name) (hne : name ≠ "")
    (h : ∀ s ∈ name :: rest, IsStretch s) :
    parse (Text.join "/" (name :: rest)) = ⟨none, none, name :: rest, none, none⟩ := by
  have hpath : cutAuthority (name :: rest) = (none, name :: rest) :=
    cutAuthority_eq_none fun names heq => hne (List.cons.inj heq).1
  simp only [parse_join (List.cons_ne_nil _ _) h, ofStretches, cutScheme_of_not_hasScheme hscheme,
    hpath]

/-- Stretches that begin with a scheme spell this and a path, if none of the others is empty. -/
theorem parse_scheme {after : String} (hscheme : scheme ≠ "") (hcolon : ':' ∉ scheme.toList)
    (hrest : "" ∉ rest) (h : ∀ s ∈ (scheme ++ ":" ++ after) :: rest, IsStretch s) :
    parse (Text.join "/" ((scheme ++ ":" ++ after) :: rest)) =
      ⟨some scheme, none, after :: rest, none, none⟩ := by
  have hpath : cutAuthority (after :: rest) = (none, after :: rest) :=
    cutAuthority_eq_none fun names heq => hrest ((List.cons.inj heq).2 ▸ List.mem_cons_self)
  simp only [parse_join (List.cons_ne_nil _ _) h, ofStretches, cutScheme_append hscheme hcolon,
    hpath]

/-! ## Paths without dots -/

/-- The names are not `.` or `..`. -/
def NoDots (names : List String) : Prop := ∀ name ∈ names, name ≠ "." ∧ name ≠ ".."

instance (names : List String) : Decidable (NoDots names) :=
  inferInstanceAs (Decidable (∀ _ ∈ _, _))

theorem workOff_noDots {first : String} (h : NoDots names) :
    workOff first passed (names ++ rest) = workOff first (names.reverse ++ passed) rest := by
  induction names generalizing passed with
  | nil => rfl
  | cons name names ih =>
    obtain ⟨hdot, hdots⟩ := h name List.mem_cons_self
    rw [List.cons_append, workOff, if_neg hdot, if_neg hdots,
      ih fun name hname => h name (List.mem_cons_of_mem _ hname)]
    simp

/-- Steps up leave what was passed last. -/
theorem workOff_climb (h : rest ≠ []) : ∀ (n : Nat) (passed : List String),
    workOff "" passed (List.replicate n ".." ++ rest) = workOff "" (passed.drop n) rest
  | 0, _ => rfl
  | n + 1, passed => by
    rw [List.replicate_succ, List.cons_append, workOff, if_neg (by decide), if_pos rfl, ite_self,
      if_neg (by simp [h]), List.nil_append, workOff_climb h n, List.drop_tail]

/-- What ends with a step up leads to a directory. -/
theorem workOff_climb_end (n : Nat) (passed : List String) :
    workOff "" passed (List.replicate (n + 1) "..") = workOff "" (passed.drop (n + 1)) [""] := by
  rw [List.replicate_succ', workOff_climb (by simp)]
  simp [workOff]

/-- Names behind steps up follow what the steps have left of the names before. -/
theorem removeDots_climb {before down : List String} (hbefore : NoDots before)
    (hdown : NoDots down) (hsteps : List.replicate n ".." ++ down ≠ []) :
    removeDots ("" :: (before ++ (List.replicate n ".." ++ down))) =
      "" :: (before.take (before.length - n) ++ if down = [] then [""] else down) := by
  have hleft : (before.reverse.drop n).reverse = before.take (before.length - n) := by
    rw [List.reverse_drop, List.reverse_reverse, List.length_reverse]
  have hroot : ∀ names, removeDots ("" :: names) = workOff "" [] names := fun names => by
    rw [removeDots, if_neg (by decide)]
  rw [hroot, workOff_noDots hbefore, List.append_nil]
  by_cases hend : down = []
  · obtain ⟨n, rfl⟩ := Nat.exists_eq_succ_of_ne_zero (n := n) (by
      rintro rfl
      simp [hend] at hsteps)
    rw [hend, List.append_nil, workOff_climb_end, if_pos rfl, ← hleft]
    simp [workOff]
  · rw [workOff_climb hend, if_neg hend, ← hleft, ← List.append_nil down, workOff_noDots hdown]
    simp [workOff]

/-- Only the first stretch of a path can be left out if no other one is a dot. -/
theorem exists_removeDots_eq (h : NoDots names) (name : String) :
    ∃ first rest, removeDots (name :: names) = first :: rest ∧ first ∈ "" :: name :: names ∧
      rest ⊆ names := by
  have hkeep : ∀ {first names}, NoDots names → workOff first [] names = first :: names := by
    intro first names h
    rw [← List.append_nil names, workOff_noDots h, workOff]
    simp
  rw [removeDots]
  split
  · cases names with
    | nil => exact ⟨"", [], rfl, by simp, List.Subset.refl _⟩
    | cons first names =>
      obtain ⟨hdot, hdots⟩ := h first List.mem_cons_self
      refine ⟨first, names, ?_, by simp, List.subset_cons_self _ _⟩
      rw [removeDots, if_neg (by simp [hdot, hdots]),
        hkeep fun name hname => h name (List.mem_cons_of_mem _ hname)]
  · exact ⟨name, names, hkeep h, by simp, List.Subset.refl _⟩

/-! ## What a path means in a document -/

variable {base : UriReference} {before : List String}

/-- A reference with a scheme means the same in every document. -/
theorem resolve_scheme :
    base.resolve ⟨some scheme, none, steps, none, none⟩ =
      ⟨some scheme, none, removeDots steps, none, none⟩ := rfl

/-- A path that begins with a step is followed from the directory of the document. -/
theorem resolve_path (hscheme : base.scheme = some scheme)
    (hauthority : base.authority = some authority) (hbase : base.path = "" :: before)
    (hne : before ≠ []) (hsteps : steps.head? ≠ some "") (hsome : steps ≠ []) :
    base.resolve ⟨none, none, steps, none, none⟩ =
      ⟨some scheme, some authority, removeDots ("" :: (before.dropLast ++ steps)), none, none⟩ := by
  have hpath : steps ≠ [""] := by
    rintro rfl
    simp at hsteps
  have hmerge : base.merge steps = "" :: (before.dropLast ++ steps) := by
    rw [merge, hbase, if_neg (by simp [hne]), List.dropLast_cons_of_ne_nil hne,
      List.cons_append]
  simp [resolve, hscheme, hauthority, hpath, hsteps, hmerge]

end UriReference

end DataSpec
