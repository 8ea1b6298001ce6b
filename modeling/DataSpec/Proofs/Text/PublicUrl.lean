import DataSpec.Proofs.Text.UriReference

/-!
# Ways between published documents

A document is published at an absolute URL with a path. The relative path from one URL to another
is made from their texts, so scheme and authority are names like any other, while a reference is
read against the parts of a URL. Both agree exactly on documents of one host whose paths part at
names (`meaning_relativePath_iff`).
-/

set_option autoImplicit false

namespace DataSpec

open Text UriReference

/-- An absolute URL with a path and without dots, query and fragment. -/
structure PublicUrl where
  scheme : String
  authority : String
  /-- What follows the slashes of the path. -/
  path : List String
  scheme_ne_empty : scheme ≠ ""
  colon_not_mem_scheme : ':' ∉ scheme.toList
  isStretch_scheme : IsStretch scheme
  authority_ne_empty : authority ≠ ""
  path_ne_nil : path ≠ []
  isStretch : ∀ name ∈ authority :: path, IsStretch name
  noDots : NoDots (authority :: path)

namespace PublicUrl

variable {own foreign : PublicUrl} {common up down : List String}

/-- The text between the slashes of the URL. -/
def stretches (u : PublicUrl) : List String := (u.scheme ++ ":") :: "" :: u.authority :: u.path

/-- The written form : the scheme, the authority behind `://`, and the path. -/
def text (u : PublicUrl) : String := join "/" u.stretches

/-- The names on a path. -/
def named (path : List String) : List String := path.filter (· ≠ "")

theorem named_append (path path' : List String) :
    named (path ++ path') = named path ++ named path' :=
  List.filter_append path path'

theorem named_eq_self {path : List String} (h : "" ∉ path) : named path = path :=
  List.filter_eq_self.mpr fun name hname => by simpa using ne_of_mem_of_not_mem hname h

theorem not_mem_named (path : List String) : "" ∉ named path := by simp [named]

theorem length_named_le (path : List String) : (named path).length ≤ path.length :=
  List.length_filter_le _ path

theorem isStretch_of_mem_stretches {u : PublicUrl} {s : String} (hs : s ∈ u.stretches) :
    IsStretch s := by
  rcases List.mem_cons.mp hs with rfl | hs
  · intro c hc hmem
    rw [String.toList_append] at hmem
    rcases List.mem_append.mp hmem with hmem | hmem
    · exact u.isStretch_scheme c hc hmem
    · obtain rfl : c = ':' := by simpa using hmem
      simp at hc
  · rcases List.mem_cons.mp hs with rfl | hs
    · simp [IsStretch]
    · exact u.isStretch s hs

theorem slash_not_mem {u : PublicUrl} {s : String} (hs : s ∈ u.stretches) : '/' ∉ s.toList :=
  (isStretch_of_mem_stretches hs).slash_not_mem

theorem segments_text (u : PublicUrl) :
    segments u.text = (u.scheme ++ ":") :: u.authority :: named u.path := by
  rw [text, segments_join_eq_filter fun s => slash_not_mem, stretches, named]
  have hscheme : u.scheme ++ ":" ≠ "" := by
    rw [← String.toList_inj.ne]
    simp
  simp [hscheme, u.authority_ne_empty]

/-- The segments of a URL can be steps of a relative path. -/
theorem step_of_mem_segments {u : PublicUrl} {name : String} (h : name ∈ segments u.text) :
    (IsSegment name ∧ IsStretch name) ∧ name ≠ "." ∧ name ≠ ".." := by
  refine ⟨⟨isSegment_of_mem_segments h, ?_⟩, ?_⟩
  · have hmem : name ∈ u.stretches := by
      rw [text, segments_join_eq_filter fun s => slash_not_mem] at h
      exact List.mem_of_mem_filter h
    exact isStretch_of_mem_stretches hmem
  · rw [segments_text, List.mem_cons] at h
    rcases h with rfl | h
    · have hcolon : ':' ∈ (u.scheme ++ ":").toList := by simp
      constructor <;> intro heq <;> rw [heq] at hcolon <;> exact absurd hcolon (by decide)
    · refine u.noDots name ?_
      rcases List.mem_cons.mp h with rfl | h
      · exact List.mem_cons_self
      · exact List.mem_cons_of_mem _ (List.mem_of_mem_filter h)

theorem parse_text (u : PublicUrl) :
    parse u.text = ⟨some u.scheme, some u.authority, "" :: u.path, none, none⟩ := by
  obtain ⟨name, rest, hpath⟩ := List.exists_cons_of_ne_nil u.path_ne_nil
  have hne : u.stretches ≠ [] := List.cons_ne_nil _ _
  have hscheme : cutScheme u.stretches = (some u.scheme, "" :: "" :: u.authority :: u.path) := by
    rw [stretches, ← String.append_empty (s := u.scheme ++ ":")]
    exact cutScheme_append u.scheme_ne_empty u.colon_not_mem_scheme
  rw [text, parse_join hne fun s => isStretch_of_mem_stretches, ofStretches, hscheme, hpath]
  rfl

/-! ## Documents that a relative path leads to -/

/-- The directories of two paths part at names : behind their common beginning there are no empty
stretches in the way of the first, and either none in that of the second, or this is a directory
above. What the second goes on with is not taken for a scheme if there is no step up before. -/
structure PartAtNames (path path' common up down : List String) (last : String) : Prop where
  path_eq : path = common ++ up ++ [last]
  path'_eq : path' = common ++ down
  apart : Apart up down
  up_named : "" ∉ up
  last_named : last ≠ ""
  down_named : (down ≠ [] ∧ "" ∉ down) ∨ (down = [""] ∧ up ≠ [])
  no_scheme : up = [] → ∀ name ∈ down.head?, ¬ HasScheme name

/-- The documents are on one host, and their paths part at names. -/
def Reaches (own foreign : PublicUrl) : Prop :=
  own.scheme = foreign.scheme ∧ own.authority = foreign.authority ∧
    ∃ common up down last, PartAtNames own.path foreign.path common up down last

/-- A text before joined texts is part of the first of them. -/
theorem append_join (s first : String) (rest : List String) :
    s ++ join "/" (first :: rest) = join "/" ((s ++ first) :: rest) := by
  cases rest <;> simp [join, String.append_assoc]

theorem text_of_authority {scheme authority : String} {path : List String} (h : path ≠ []) :
    UriReference.text ⟨some scheme, some authority, "" :: path, none, none⟩ =
      join "/" ((scheme ++ ":") :: "" :: authority :: path) := by
  obtain ⟨name, rest, rfl⟩ := List.exists_cons_of_ne_nil h
  rw [← String.toList_inj]
  simp [UriReference.text, join]

/-- Where steps lead that do not begin with a scheme. -/
theorem meaning_steps {n : Nat} (hdown : ∀ name ∈ down, IsSegment name ∧ IsStretch name)
    (hdots : NoDots down) (hsteps : List.replicate n ".." ++ down ≠ [])
    (hscheme : n = 0 → ∀ name ∈ down.head?, ¬ HasScheme name) :
    meaning own.text (join "/" (List.replicate n ".." ++ down)) =
      join "/" ((own.scheme ++ ":") :: "" :: own.authority ::
        (own.path.dropLast.take (own.path.dropLast.length - n) ++
          if down = [] then [""] else down)) := by
  obtain ⟨first, rest, hfirst⟩ := List.exists_cons_of_ne_nil hsteps
  have hmem : ∀ name ∈ List.replicate n ".." ++ down, IsSegment name ∧ IsStretch name := by
    intro name hname
    rcases List.mem_append.mp hname with hname | hname
    · rw [List.eq_of_mem_replicate hname]
      exact ⟨isSegment_up, by simp [IsStretch]⟩
    · exact hdown name hname
  have hnoscheme : ¬ HasScheme first := by
    cases n with
    | zero =>
      rw [List.replicate_zero, List.nil_append] at hfirst
      exact hscheme rfl first (by simp [hfirst])
    | succ n =>
      obtain rfl : first = ".." := (List.cons.inj hfirst).1.symm
      rintro ⟨scheme, after, -, -, heq⟩
      have hcolon : ':' ∈ "..".toList := by simp [heq]
      exact absurd hcolon (by decide)
  have hne : first ≠ "" := (hmem first (by simp [hfirst])).1.ne_empty
  have hparse : parse (join "/" (List.replicate n ".." ++ down)) =
      ⟨none, none, List.replicate n ".." ++ down, none, none⟩ := by
    rw [hfirst] at hmem ⊢
    exact parse_path hnoscheme hne fun name hname => (hmem name hname).2
  have hnodots : NoDots own.path.dropLast := fun name hname =>
    own.noDots name (List.mem_cons_of_mem _ (List.dropLast_subset _ hname))
  have hend : (if down = [] then [""] else down) ≠ [] := by
    split
    · exact List.cons_ne_nil _ _
    · assumption
  have hhead : (List.replicate n ".." ++ down).head? ≠ some "" := by
    simpa [hfirst] using hne
  rw [meaning, hparse, parse_text, resolve_path rfl rfl rfl own.path_ne_nil hhead hsteps,
    removeDots_climb hnodots hdots hsteps,
    text_of_authority (List.append_ne_nil_of_right_ne_nil _ hend)]

/-- What begins with a scheme means no published document. -/
theorem meaning_ne {name : String} {rest : List String} (hname : HasScheme name)
    (hstretch : ∀ s ∈ name :: rest, IsStretch s) (hrest : "" ∉ rest) (hdots : NoDots rest) :
    meaning own.text (join "/" (name :: rest)) ≠ foreign.text := by
  obtain ⟨scheme, after, hscheme, hcolon, rfl⟩ := hname
  obtain ⟨first, path, hpath, hfirst, hsubset⟩ := exists_removeDots_eq hdots after
  have hmeaning : meaning own.text (join "/" ((scheme ++ ":" ++ after) :: rest)) =
      join "/" ((scheme ++ ":" ++ first) :: path) := by
    rw [meaning, parse_scheme hscheme hcolon hrest hstretch, resolve_scheme, hpath]
    simp [UriReference.text, append_join]
  have hslash : ∀ s ∈ (scheme ++ ":" ++ first) :: path, '/' ∉ s.toList := by
    have hname := (hstretch _ List.mem_cons_self).slash_not_mem
    have hpath' : ∀ s ∈ rest, '/' ∉ s.toList := fun s hs =>
      (hstretch s (List.mem_cons_of_mem _ hs)).slash_not_mem
    simp only [String.toList_append, List.mem_append, not_or] at hname
    intro s hs
    rcases List.mem_cons.mp hs with rfl | hs
    · simp only [String.toList_append, List.mem_append, not_or]
      refine ⟨hname.1, ?_⟩
      rcases List.mem_cons.mp hfirst with rfl | hfirst
      · simp
      · rcases List.mem_cons.mp hfirst with rfl | hfirst
        · exact hname.2
        · exact hpath' first hfirst
    · exact hpath' s (hsubset hs)
  have hne : foreign.stretches ≠ [] := List.cons_ne_nil _ _
  rw [hmeaning, text, Ne, join_inj (List.cons_ne_nil _ _) hne hslash fun s => slash_not_mem]
  intro heq
  exact hrest (hsubset ((List.cons.inj heq).2 ▸ List.mem_cons_self))

/-- No steps mean the document itself. -/
theorem meaning_empty : meaning own.text "" = own.text := by
  rw [meaning, parse_text, text, stretches, ← text_of_authority own.path_ne_nil]
  rfl

/-- The text of a URL tells its parts. -/
theorem text_inj {path : List String} (hpath : ∀ name ∈ path, '/' ∉ name.toList) :
    join "/" ((own.scheme ++ ":") :: "" :: own.authority :: path) = foreign.text ↔
      own.scheme = foreign.scheme ∧ own.authority = foreign.authority ∧ path = foreign.path := by
  have hslash : ∀ s ∈ (own.scheme ++ ":") :: "" :: own.authority :: path, '/' ∉ s.toList := by
    intro s hs
    simp only [List.mem_cons] at hs
    rcases hs with rfl | rfl | rfl | hs
    · exact slash_not_mem List.mem_cons_self
    · simp
    · exact (own.isStretch _ List.mem_cons_self).slash_not_mem
    · exact hpath s hs
  have hforeign : foreign.stretches ≠ [] := List.cons_ne_nil _ _
  rw [text, join_inj (List.cons_ne_nil _ _) hforeign hslash fun s => slash_not_mem, stretches]
  simp

/-! ## Which documents are reached -/

/-- Names part from an empty stretch at once. -/
theorem apart_empty (h : "" ∉ up) : Apart up [""] := by
  intro name hname heq
  obtain rfl : "" = name := by simpa using heq
  exact h (List.mem_of_mem_head? hname)

/-- Where the names part and the second path is what the names of a relative path lead to, the
paths part at names. -/
theorem exists_partAtNames {path path' : List String} (hne : named path ≠ [])
    (hpath : (named path).dropLast = common ++ up) (hpath' : named path' = common ++ down)
    (hapart : Apart up down) (hsome : up = [] → down ≠ [])
    (hscheme : up = [] → ∀ name ∈ down.head?, ¬ HasScheme name)
    (heq : path.dropLast.take (path.dropLast.length - up.length) ++
      (if down = [] then [""] else down) = path') :
    ∃ common up down last, PartAtNames path path' common up down last := by
  have hnil : path ≠ [] := by
    rintro rfl
    exact hne rfl
  obtain ⟨before, last, rfl⟩ : ∃ before last, path = before ++ [last] :=
    ⟨_, _, (List.dropLast_append_getLast hnil).symm⟩
  rw [List.dropLast_concat] at heq
  -- The steps up leave the beginning `kept` of the directory, and go up through `left`.
  obtain ⟨kept, left, hbefore, hkept, hleft⟩ : ∃ kept left, before = kept ++ left ∧
      before.take (before.length - up.length) = kept ∧ left.length ≤ up.length :=
    ⟨_, _, (List.take_append_drop _ before).symm, rfl, by rw [List.length_drop]; omega⟩
  have hdown : "" ∉ down := fun h =>
    not_mem_named path' (hpath' ▸ List.mem_append_right common h)
  have hcommon : named kept = common := by
    rw [← heq, hkept, named_append] at hpath'
    split at hpath'
    · rename_i hend
      simpa [hend, named] using hpath'
    · rw [named_eq_self hdown] at hpath'
      exact List.append_cancel_right hpath'
  rw [named_append, hbefore, named_append, hcommon] at hpath hne
  have hlast : last ≠ "" := by
    rintro rfl
    have hnamed := length_named_le left
    have hlength := congrArg List.length hpath
    have hpos := List.length_pos_iff.mpr hne
    rw [show named [""] = [] from rfl, List.append_nil] at hlength hpos
    simp only [List.length_dropLast, List.length_append] at hlength hpos
    omega
  rw [show named [last] = [last] from named_eq_self (by simpa using hlast.symm),
    List.dropLast_concat, List.append_right_inj] at hpath
  have hsame : left = up := by
    have hall : (named left).length = left.length := by
      have hnamed := length_named_le left
      rw [hpath] at hnamed ⊢
      omega
    rw [← hpath, named]
    exact (List.filter_eq_self.mpr (List.length_filter_eq_length_iff.mp hall)).symm
  subst hsame
  have hup : "" ∉ left := hpath ▸ not_mem_named left
  refine ⟨kept, left, _, last, by rw [hbefore], by rw [← heq, hkept], ?_, hup, hlast, ?_, ?_⟩
  · split
    · exact apart_empty hup
    · exact hapart
  · split
    · exact .inr ⟨rfl, fun hup => hsome hup ‹_›⟩
    · exact .inl ⟨‹_›, hdown⟩
  · intro hnone
    rw [if_neg (hsome hnone)]
    exact hscheme hnone

/-- The names of paths that part at names part where the paths do, and the second path can be told
from its names. -/
theorem named_of_partAtNames {path path' : List String} {last : String}
    (h : PartAtNames path path' common up down last) :
    named path = named common ++ up ++ [last] ∧ named path' = named common ++ named down ∧
      Apart up (named down) ∧ (if named down = [] then [""] else named down) = down ∧
      (up = [] → named down ≠ [] ∧ ∀ name ∈ (named down).head?, ¬ HasScheme name) := by
  have hpath : named path = named common ++ up ++ [last] := by
    rw [h.path_eq, named_append, named_append, named_eq_self h.up_named,
      show named [last] = [last] from named_eq_self (by simpa using h.last_named.symm)]
  refine ⟨hpath, by rw [h.path'_eq, named_append], ?_⟩
  rcases h.down_named with ⟨hne, hdown⟩ | ⟨rfl, hup⟩
  · rw [named_eq_self hdown, if_neg hne]
    exact ⟨h.apart, rfl, fun hup => ⟨hne, h.no_scheme hup⟩⟩
  · exact ⟨by simp [named, Apart], rfl, fun hnone => absurd hnone hup⟩

/-- The names on the way to the directory of a URL. -/
theorem directory_text (hne : named own.path ≠ []) :
    directory own.text = (own.scheme ++ ":") :: own.authority :: (named own.path).dropLast := by
  rw [directory, segments_text, List.dropLast_cons_of_ne_nil (List.cons_ne_nil _ _),
    List.dropLast_cons_of_ne_nil hne]

theorem meaning_of_reaches (h : own.Reaches foreign) :
    meaning own.text (relativePath own.text foreign.text) = foreign.text := by
  obtain ⟨hscheme, hauthority, common, up, down, last, hpart⟩ := h
  obtain ⟨hown, hforeign, hapart, hdown, hlevel⟩ := named_of_partAtNames hpart
  have hsource : directory own.text =
      ((own.scheme ++ ":") :: own.authority :: named common) ++ up := by
    rw [directory_text (by simp [hown]), hown, List.dropLast_concat]
    rfl
  have htarget : segments foreign.text =
      ((own.scheme ++ ":") :: own.authority :: named common) ++ named down := by
    rw [segments_text, hforeign, hscheme, hauthority]
    rfl
  have hsteps : ∀ name ∈ named down, (IsSegment name ∧ IsStretch name) ∧ name ≠ "." ∧ name ≠ ".." :=
    fun name hname => step_of_mem_segments (htarget ▸ List.mem_append_right _ hname)
  have hsome : List.replicate up.length ".." ++ named down ≠ [] := by
    intro hnil
    obtain ⟨hup, hdown⟩ := List.append_eq_nil_iff.mp hnil
    exact (hlevel (List.length_eq_zero_iff.mp (by simpa using hup))).1 hdown
  have hbefore : own.path.dropLast.take (own.path.dropLast.length - up.length) = common := by
    rw [hpart.path_eq, List.dropLast_concat]
    simp
  have hslash : ∀ name ∈ common ++ down, '/' ∉ name.toList := fun name hname =>
    (foreign.isStretch name (List.mem_cons_of_mem _ (hpart.path'_eq ▸ hname))).slash_not_mem
  rw [relativePath_eq hsource htarget hapart,
    meaning_steps (fun name hname => (hsteps name hname).1)
      (fun name hname => (hsteps name hname).2) hsome
      (fun hup => (hlevel (List.length_eq_zero_iff.mp hup)).2), hdown, hbefore, text_inj hslash]
  exact ⟨hscheme, hauthority, hpart.path'_eq.symm⟩

/-- A relative path that leads to a document leads there by way of the host, if there is a name in
the way of its source at all. -/
theorem reaches_of_path_eq (hscheme : own.scheme = foreign.scheme)
    (hauthority : own.authority = foreign.authority)
    (hsource : directory own.text = common ++ up) (htarget : segments foreign.text = common ++ down)
    (hapart : Apart up down) (hsome : up = [] → down ≠ [])
    (hnoscheme : up = [] → ∀ name ∈ down.head?, ¬ HasScheme name)
    (hpath : own.path.dropLast.take (own.path.dropLast.length - up.length) ++
      (if down = [] then [""] else down) = foreign.path) : own.Reaches foreign := by
  rw [segments_text, ← hscheme, ← hauthority] at htarget
  by_cases hnone : named own.path = []
  · -- The authority would be taken for a name on the path.
    rw [directory, segments_text, hnone] at hsource
    obtain ⟨rfl, rfl⟩ : common = [own.scheme ++ ":"] ∧ up = [] := by
      rcases common with _ | ⟨name, common⟩
      · obtain rfl : [own.scheme ++ ":"] = up := hsource
        obtain rfl : _ = down := htarget
        exact absurd hapart not_apart_cons
      · obtain ⟨rfl, hnil⟩ := List.cons.inj hsource
        obtain ⟨rfl, rfl⟩ := List.append_eq_nil_iff.mp hnil.symm
        exact ⟨rfl, rfl⟩
    obtain rfl : own.authority :: named foreign.path = down := (List.cons.inj htarget).2
    have hnamed : "" ∉ own.authority :: named foreign.path := by
      simpa [not_mem_named] using own.authority_ne_empty.symm
    have hlength := congrArg (fun path => (named path).length) hpath
    simp only [if_neg (List.cons_ne_nil _ _), named_append, named_eq_self hnamed,
      List.length_append, List.length_cons] at hlength
    omega
  · rw [directory_text hnone] at hsource
    obtain ⟨common, rfl⟩ : ∃ c, common = (own.scheme ++ ":") :: own.authority :: c := by
      rcases common with _ | ⟨name, _ | ⟨name', common⟩⟩
      · obtain rfl : _ = up := hsource
        obtain rfl : _ = down := htarget
        exact absurd hapart not_apart_cons
      · obtain rfl : _ = up := (List.cons.inj hsource).2
        obtain rfl : _ = down := (List.cons.inj htarget).2
        exact absurd hapart not_apart_cons
      · obtain ⟨rfl, hrest⟩ := List.cons.inj hsource
        obtain ⟨rfl, -⟩ := List.cons.inj hrest
        exact ⟨common, rfl⟩
    obtain ⟨-, hsource⟩ := List.cons.inj hsource
    obtain ⟨-, hsource⟩ := List.cons.inj hsource
    obtain ⟨-, htarget⟩ := List.cons.inj htarget
    obtain ⟨-, htarget⟩ := List.cons.inj htarget
    exact ⟨hscheme, hauthority,
      exists_partAtNames hnone hsource htarget hapart hsome hnoscheme hpath⟩

theorem reaches_of_meaning
    (h : meaning own.text (relativePath own.text foreign.text) = foreign.text) :
    own.Reaches foreign := by
  obtain ⟨common, up, down, hsource, htarget, hapart⟩ :=
    exists_parting (directory own.text) (segments foreign.text)
  have hsteps : ∀ name ∈ down, (IsSegment name ∧ IsStretch name) ∧ name ≠ "." ∧ name ≠ ".." :=
    fun name hname => step_of_mem_segments (htarget ▸ List.mem_append_right _ hname)
  rw [relativePath_eq hsource htarget hapart] at h
  have hsome : up = [] → down ≠ [] := by
    rintro rfl rfl
    rw [show join "/" (List.replicate ([] : List String).length ".." ++ []) = "" from rfl,
      meaning_empty] at h
    have hlength := congrArg List.length (hsource.trans htarget.symm)
    rw [← h, directory, List.length_dropLast, segments_text] at hlength
    simp at hlength
  have hnoscheme : up = [] → ∀ name ∈ down.head?, ¬ HasScheme name := by
    rintro rfl name hname hscheme
    obtain ⟨rest, rfl⟩ := List.head?_eq_some_iff.mp hname
    refine meaning_ne hscheme (fun s hs => (hsteps s hs).1.2) (fun hempty => ?_)
      (fun s hs => (hsteps s (List.mem_cons_of_mem _ hs)).2) h
    exact (hsteps "" (List.mem_cons_of_mem _ hempty)).1.1.ne_empty rfl
  have hne : List.replicate up.length ".." ++ down ≠ [] := fun hnil => by
    obtain ⟨hup, hdown⟩ := List.append_eq_nil_iff.mp hnil
    exact hsome (by simpa using hup) hdown
  have hslash : ∀ name ∈ own.path.dropLast.take (own.path.dropLast.length - up.length) ++
      (if down = [] then [""] else down), '/' ∉ name.toList := by
    intro name hname
    rcases List.mem_append.mp hname with hname | hname
    · have hown := List.dropLast_subset _ (List.mem_of_mem_take hname)
      exact (own.isStretch name (List.mem_cons_of_mem _ hown)).slash_not_mem
    · split at hname
      · simp [List.mem_singleton.mp hname]
      · exact (hsteps name hname).1.1.slash_not_mem
  rw [meaning_steps (fun name hname => (hsteps name hname).1)
      (fun name hname => (hsteps name hname).2) hne
      (fun hup => hnoscheme (List.length_eq_zero_iff.mp hup)), text_inj hslash] at h
  obtain ⟨hscheme, hauthority, hpath⟩ := h
  exact reaches_of_path_eq hscheme hauthority hsource htarget hapart hsome hnoscheme hpath

/-- The relative path from one document to another means the other in the first if and only if they
are on one host and their paths part at names. -/
theorem meaning_relativePath_iff (own foreign : PublicUrl) :
    meaning own.text (relativePath own.text foreign.text) = foreign.text ↔ own.Reaches foreign :=
  ⟨reaches_of_meaning, meaning_of_reaches⟩

end PublicUrl

end DataSpec
