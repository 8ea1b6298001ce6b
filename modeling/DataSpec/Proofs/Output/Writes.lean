import DataSpec.Output.Directory
import DataSpec.Proofs.SortedMap
import DataSpec.Proofs.Text.Segments
import Mathlib.Data.List.TakeWhile

/-!
# Writes to outputs

What outputs do with writes one after another. A `MemoryOutput` refuses a path that has a
document. A directory takes every path that the file system takes, and a later document stands
in place of an earlier one (`DirectoryOutput.writeAll_eq`). So the two do the same as long as no
path comes twice, and only then (`Output.writeAll_agree_iff`).
-/

set_option autoImplicit false

namespace DataSpec

namespace FileTree

variable {root names names' : List String} {path path' : String}

/-! ## Spellings -/

/-- A path that ends in a name, and is spelled with no more than its names and the slashes
between them. -/
def IsSpelled (path : String) : Prop :=
  ∀ name ∈ Text.fields (· = '/') path.toList, name ≠ [] ∧ name ≠ ['.']

instance : DecidablePred IsSpelled := fun path =>
  inferInstanceAs
    (Decidable (∀ name ∈ Text.fields (· = '/') path.toList, name ≠ [] ∧ name ≠ ['.']))

/-- Names that lead somewhere else. -/
structure IsPlace (names : List String) : Prop where
  ne_nil : names ≠ []
  isSegment : ∀ name ∈ names, Text.IsSegment name

/-- A path that is spelled as paths are is split at its slashes. -/
theorem IsSpelled.names_eq (h : IsSpelled path) :
    FileTree.names path = (Text.fields (· = '/') path.toList).map String.ofList := by
  have hsegments : Text.segments path =
      (Text.fields (· = '/') path.toList).map String.ofList := by
    rw [Text.segments, List.filter_eq_self.mpr fun f hf => by simpa using (h f hf).1]
  rw [FileTree.names, hsegments, List.filter_eq_self.mpr]
  intro name hname
  obtain ⟨f, hf, rfl⟩ := List.mem_map.mp hname
  simpa [String.ext_iff] using (h f hf).2

/-- The names on such a path make up the path. -/
theorem IsSpelled.key_names (h : IsSpelled path) : key (FileTree.names path) = path := by
  rw [h.names_eq, key, Text.join_fields]

theorem IsSpelled.isPlace (h : IsSpelled path) : IsPlace (FileTree.names path) where
  ne_nil := by simp [h.names_eq, Text.fields_ne_nil]
  isSegment name hname := Text.isSegment_of_mem_segments (List.mem_filter.mp hname).1

theorem IsSpelled.endsAsDirectory_eq (h : IsSpelled path) : endsAsDirectory path = false := by
  have hne := Text.fields_ne_nil (· = '/') path.toList
  obtain ⟨hempty, hdot⟩ := h _ (List.getLast_mem hne)
  rw [endsAsDirectory, List.getLastD_eq_getLast?, List.getLast?_eq_some_getLast hne]
  simp [hempty, hdot]

/-- Places are told by their paths. -/
theorem key_inj (h : IsPlace names) (h' : IsPlace names') :
    key names = key names' ↔ names = names' :=
  Text.join_inj h.ne_nil h'.ne_nil (fun name hname => (h.isSegment name hname).slash_not_mem)
    fun name hname => (h'.isSegment name hname).slash_not_mem

/-- A place below the root is a place. -/
theorem IsPlace.append (hroot : ∀ name ∈ root, Text.IsSegment name) (h : IsPlace names) :
    IsPlace (root ++ names) where
  ne_nil := List.append_ne_nil_of_right_ne_nil root h.ne_nil
  isSegment name hname := (List.mem_append.mp hname).elim (hroot name) (h.isSegment name)

theorem IsPlace.not_prefix_dropLast (h : IsPlace names) : ¬ names <+: names.dropLast := by
  intro hpre
  have hlength := hpre.length_le
  have hpos := List.length_pos_iff.mpr h.ne_nil
  rw [List.length_dropLast] at hlength
  omega

theorem IsPlace.of_prefix (h : IsPlace names) (hne : names' ≠ []) (hpre : names' <+: names) :
    IsPlace names' :=
  ⟨hne, fun name hname => h.isSegment name (hpre.subset hname)⟩

/-- What the file system asks of a path below a directory. -/
structure Takes (root : List String) (path : String) : Prop where
  isName : (root ++ FileTree.names path).all isName = true
  isShort : (root ++ FileTree.names path).all isShort = true
  isReachable : isReachable (root ++ FileTree.names path) = true

instance (root : List String) (path : String) : Decidable (Takes root path) :=
  decidable_of_iff
    ((root ++ FileTree.names path).all FileTree.isName = true ∧
      (root ++ FileTree.names path).all FileTree.isShort = true ∧
      FileTree.isReachable (root ++ FileTree.names path) = true)
    ⟨fun ⟨hname, hshort, hreach⟩ => ⟨hname, hshort, hreach⟩,
      fun h => ⟨h.isName, h.isShort, h.isReachable⟩⟩

theorem isReachable_dropLast (h : isReachable names = true) :
    isReachable names.dropLast = true := by
  obtain rfl | hne := eq_or_ne names []
  · exact h
  obtain hne' | hne' := eq_or_ne names.dropLast []
  · simp [hne', isReachable, key, Text.join]
  · rw [← List.dropLast_append_getLast hne] at h
    have hsize := of_decide_eq_true h
    rw [key, Text.join_concat hne', String.utf8ByteSize_append, String.utf8ByteSize_append] at hsize
    exact decide_eq_true (show (Text.join "/" names.dropLast).utf8ByteSize + 1 < 4096 by omega)

/-- The ancestors of a place are the places that it starts with. -/
theorem mem_ancestors {names : List String} :
    names' ∈ ancestors names ↔ names' ≠ [] ∧ names' <+: names := by
  simp only [ancestors, List.mem_map, List.mem_range]
  constructor
  · rintro ⟨n, hn, rfl⟩
    refine ⟨fun hnil => ?_, List.take_prefix _ _⟩
    obtain hzero | rfl := List.take_eq_nil_iff.mp hnil
    · simp at hzero
    · simp at hn
  · rintro ⟨hne, hpre⟩
    have hpos := List.length_pos_iff.mpr hne
    refine ⟨names'.length - 1, by have := hpre.length_le; omega, ?_⟩
    rw [show names'.length - 1 + 1 = names'.length by omega]
    exact (List.prefix_iff_eq_take.mp hpre).symm

/-- A directory is made with those on the way to it, and nothing else. -/
theorem exists_makeDirectory? {t : FileTree} (hnames : ∀ name ∈ names, Text.IsSegment name)
    (hfree : ∀ before, before ≠ [] → before <+: names → t.file? before = none) :
    ∃ t', t.makeDirectory? names = some t' ∧ t'.files = t.files ∧ ∀ place, IsPlace place →
      (t'.isDirectory place = true ↔ place <+: names ∨ t.isDirectory place = true) := by
  have hany : ((ancestors names).any fun p => (t.file? p).isSome) = false := by
    refine List.any_eq_false.mpr fun before hbefore => ?_
    obtain ⟨hne, hpre⟩ := mem_ancestors.mp hbefore
    simp [hfree before hne hpre]
  refine ⟨⟨t.files, (ancestors names).foldl (fun ds p => ds.add (key p)) t.directories⟩,
    by simp [makeDirectory?, hany], rfl, fun place hplace => ?_⟩
  have hkey : key place ∈ (ancestors names).map key ↔ place <+: names := by
    simp only [List.mem_map, mem_ancestors]
    constructor
    · rintro ⟨before, ⟨hne, hpre⟩, heq⟩
      have hbefore : IsPlace before := ⟨hne, fun name hname => hnames name (hpre.subset hname)⟩
      exact (key_inj hbefore hplace).mp heq ▸ hpre
    · exact fun hpre => ⟨place, ⟨hplace.ne_nil, hpre⟩, rfl⟩
  rw [← hkey, isDirectory, isDirectory, List.isEmpty_eq_false_iff.mpr hplace.ne_nil,
    Bool.false_or, Bool.false_or, ← SortedSet.contains_foldl_add, List.foldl_map]

/-- A file is written where no directory is, once those on the way to it are made. -/
theorem write_eq {t t' : FileTree} (hspelled : IsSpelled path) (htakes : Takes root path)
    (hmake : t.makeDirectory? (root ++ (FileTree.names path).dropLast) = some t')
    (hfree : t'.isDirectory (root ++ FileTree.names path) = false) (content : String) :
    t.write root path content = (.ok (),
      { t' with files := t'.files.insert (key (root ++ FileTree.names path)) content }) := by
  have hne := hspelled.isPlace.ne_nil
  have hsub : root ++ (FileTree.names path).dropLast ⊆ root ++ FileTree.names path :=
    ((List.prefix_append_right_inj root).mpr (List.dropLast_prefix _)).subset
  have hparents : isReachable (root ++ (FileTree.names path).dropLast) = true := by
    rw [← List.dropLast_append_of_ne_nil hne]
    exact isReachable_dropLast htakes.isReachable
  have hspelling : isReachable (root ++ [path]) = true := by
    rw [isReachable, key, ← hspelled.key_names, key, Text.join_append_join hne]
    exact htakes.isReachable
  have hname : (root ++ (FileTree.names path).dropLast).all isName = true :=
    List.all_eq_true.mpr fun name h => List.all_eq_true.mp htakes.isName name (hsub h)
  have hshort : (root ++ (FileTree.names path).dropLast).takeWhile isShort =
      root ++ (FileTree.names path).dropLast :=
    List.takeWhile_eq_self_iff.mpr fun name h =>
      List.all_eq_true.mp htakes.isShort name (hsub h)
  simp only [write, List.dropLast_append_of_ne_nil hne, hname, hparents, hshort, hmake,
    hspelled.endsAsDirectory_eq, hfree, htakes.isName, htakes.isShort, hspelling,
    Bool.not_true, Bool.or_false, Bool.false_eq_true, if_false]

end FileTree

/-! ## One write -/

namespace DirectoryOutput

/-- Below its directory an output has these documents as files, and no directories but those
that lead to them. -/
structure Keeps (o : DirectoryOutput) (documents : SortedMap String String) : Prop where
  isSegment : ∀ name ∈ o.root, Text.IsSegment name
  file?_root : ∀ names, names ≠ [] → names <+: o.root → o.tree.file? names = none
  file?_append : ∀ names, FileTree.IsPlace names →
    o.tree.file? (o.root ++ names) = documents.get? (FileTree.key names)
  isDirectory : ∀ names, FileTree.IsPlace names → o.tree.isDirectory (o.root ++ names) = true →
    ∃ path, documents.contains path = true ∧ names <+: (FileTree.names path).dropLast

/-- The document that was written at a path. -/
def document? (o : DirectoryOutput) (path : String) : Option String :=
  o.tree.file? (o.root ++ FileTree.names path)

/-- Paths that can all be written below a directory : each is spelled as its names, none leads
to a directory on the way to another, and the file system takes them. -/
structure CanHold (root : List String) (paths : List String) : Prop where
  isSpelled : ∀ path ∈ paths, FileTree.IsSpelled path
  eq_of_prefix : ∀ path ∈ paths, ∀ path' ∈ paths,
    FileTree.names path <+: FileTree.names path' → path = path'
  takes : ∀ path ∈ paths, FileTree.Takes root path

variable {o : DirectoryOutput} {documents : SortedMap String String} {paths : List String}
  {path : String}

/-- A directory that keeps documents has them at their paths. -/
theorem Keeps.document?_eq (h : o.Keeps documents) (hpath : FileTree.IsSpelled path) :
    o.document? path = documents.get? path := by
  rw [document?, h.file?_append _ hpath.isPlace, hpath.key_names]

/-- An empty directory keeps no document. -/
theorem keeps_empty {root : List String} (h : ∀ name ∈ root, Text.IsSegment name) :
    Keeps ⟨.empty, root⟩ .empty where
  isSegment := h
  file?_root _ _ _ := rfl
  file?_append _ _ := rfl
  isDirectory names hnames hdir := by
    have hne := (hnames.append h).ne_nil
    simp [FileTree.isDirectory, FileTree.empty, List.isEmpty_eq_false_iff.mpr hne] at hdir

/-- A place on the way to a document has none. -/
theorem get?_key_eq_none (hpaths : CanHold o.root paths)
    (hsub : ∀ path, documents.contains path = true → path ∈ paths) (hpath : path ∈ paths)
    {names : List String} (hne : names ≠ []) (hpre : names <+: (FileTree.names path).dropLast) :
    documents.get? (FileTree.key names) = none := by
  have hspelled := hpaths.isSpelled path hpath
  have hpre' : names <+: FileTree.names path := hpre.trans (List.dropLast_prefix _)
  have hplace := hspelled.isPlace.of_prefix hne hpre'
  refine SortedMap.contains_eq_false_iff.mp (Bool.eq_false_iff.mpr fun hcontains => ?_)
  have hmem := hsub _ hcontains
  have hnames : FileTree.names (FileTree.key names) = names :=
    (FileTree.key_inj (hpaths.isSpelled _ hmem).isPlace hplace).mp
      (hpaths.isSpelled _ hmem).key_names
  have heq := hpaths.eq_of_prefix _ hmem path hpath (by rwa [hnames])
  rw [← hnames, heq] at hpre
  exact hspelled.isPlace.not_prefix_dropLast hpre

/-- The directories on the way to a document can be made. -/
theorem Keeps.exists_makeDirectory? (h : o.Keeps documents) (hpaths : CanHold o.root paths)
    (hsub : ∀ path, documents.contains path = true → path ∈ paths) (hpath : path ∈ paths) :
    ∃ t, o.tree.makeDirectory? (o.root ++ (FileTree.names path).dropLast) = some t ∧
      t.files = o.tree.files ∧ ∀ names, FileTree.IsPlace names →
        (t.isDirectory (o.root ++ names) = true ↔
          names <+: (FileTree.names path).dropLast ∨
            o.tree.isDirectory (o.root ++ names) = true) := by
  have hplace := (hpaths.isSpelled path hpath).isPlace
  have hparents : ∀ name ∈ o.root ++ (FileTree.names path).dropLast, Text.IsSegment name :=
    fun name hname => (List.mem_append.mp hname).elim (h.isSegment name)
      fun hname => hplace.isSegment name ((List.dropLast_prefix _).subset hname)
  have hfree : ∀ before, before ≠ [] → before <+: o.root ++ (FileTree.names path).dropLast →
      o.tree.file? before = none := by
    intro before hne hpre
    obtain hroot | ⟨below, rfl⟩ := List.prefix_or_prefix_of_prefix hpre (List.prefix_append _ _)
    · exact h.file?_root before hne hroot
    obtain rfl | hbelow := eq_or_ne below []
    · exact h.file?_root _ hne (by simp)
    have hpre := (List.prefix_append_right_inj o.root).mp hpre
    rw [h.file?_append below (hplace.of_prefix hbelow (hpre.trans (List.dropLast_prefix _)))]
    exact get?_key_eq_none hpaths hsub hpath hbelow hpre
  obtain ⟨t, hmake, hfiles, hdirectory⟩ := FileTree.exists_makeDirectory? hparents hfree
  refine ⟨t, hmake, hfiles, fun names hnames => ?_⟩
  rw [hdirectory _ (hnames.append h.isSegment), List.prefix_append_right_inj]

/-- What a directory keeps if a file is put at the path of a document, with the directories on
the way to it. -/
theorem Keeps.insert (h : o.Keeps documents) (hspelled : FileTree.IsSpelled path) {t : FileTree}
    (hfiles : t.files = o.tree.files)
    (hdirectory : ∀ names, FileTree.IsPlace names → t.isDirectory (o.root ++ names) = true →
      names <+: (FileTree.names path).dropLast ∨ o.tree.isDirectory (o.root ++ names) = true)
    (content : String) :
    Keeps ⟨{ t with
        files := t.files.insert (FileTree.key (o.root ++ FileTree.names path)) content }, o.root⟩
      (documents.insert path content) := by
  have hplace := hspelled.isPlace
  have htarget := hplace.append h.isSegment
  refine ⟨h.isSegment, fun names hne (hpre : names <+: o.root) => ?_, fun names hnames => ?_,
    fun names hnames hdir => ?_⟩
  · have hnames : FileTree.IsPlace names :=
      ⟨hne, fun name hname => h.isSegment name (hpre.subset hname)⟩
    have hother : names ≠ o.root ++ FileTree.names path := by
      rintro rfl
      exact hplace.ne_nil (List.append_right_eq_self.mp (hpre.eq_of_length_le (by simp)))
    rw [FileTree.file?, SortedMap.get?_insert,
      if_neg fun heq => hother ((FileTree.key_inj hnames htarget).mp heq), hfiles]
    exact h.file?_root names hne hpre
  · have hkey : FileTree.key (o.root ++ names) = FileTree.key (o.root ++ FileTree.names path) ↔
        FileTree.key names = path := by
      rw [FileTree.key_inj (hnames.append h.isSegment) htarget, List.append_cancel_left_eq,
        ← FileTree.key_inj hnames hplace, hspelled.key_names]
    rw [FileTree.file?, SortedMap.get?_insert, SortedMap.get?_insert, hfiles]
    exact if_congr hkey rfl (h.file?_append names hnames)
  · obtain hpre | hdir := hdirectory names hnames hdir
    · exact ⟨path, by simp, hpre⟩
    · obtain ⟨path', hcontains, hpre⟩ := h.isDirectory names hnames hdir
      exact ⟨path', by simp [hcontains], hpre⟩

/-- A write puts the document at its path, in place of one that is there. -/
theorem Keeps.write_eq (h : o.Keeps documents) (hpaths : CanHold o.root paths)
    (hsub : ∀ path, documents.contains path = true → path ∈ paths) (hpath : path ∈ paths)
    (houtput : isOutputPath path = true) (content : String) :
    (o.write path content).1 = .ok () ∧ (o.write path content).2.root = o.root ∧
      (o.write path content).2.Keeps (documents.insert path content) := by
  have hspelled := hpaths.isSpelled path hpath
  have hplace := hspelled.isPlace
  obtain ⟨t, hmake, hfiles, hdirectory⟩ := h.exists_makeDirectory? hpaths hsub hpath
  have hfree : t.isDirectory (o.root ++ FileTree.names path) = false := by
    refine Bool.eq_false_iff.mpr fun hdir => ?_
    obtain hpre | hdir := (hdirectory _ hplace).mp hdir
    · exact hplace.not_prefix_dropLast hpre
    · obtain ⟨path', hcontains, hpre⟩ := h.isDirectory _ hplace hdir
      obtain rfl := hpaths.eq_of_prefix path hpath path' (hsub path' hcontains)
        (hpre.trans (List.dropLast_prefix _))
      exact hplace.not_prefix_dropLast hpre
  rw [write, houtput, FileTree.write_eq hspelled (hpaths.takes path hpath) hmake hfree]
  exact ⟨rfl, rfl, h.insert hspelled hfiles (fun names hnames => (hdirectory names hnames).mp)
    content⟩

end DirectoryOutput

/-! ## Writes in turn -/

namespace Output

/-- The answers to writes one after another, and the output behind the last. -/
def writeAll {σ : Type} [Output σ] (o : σ) :
    List (String × String) → List (Except ModelError Unit) × σ
  | [] => ([], o)
  | (path, content) :: rest =>
    let written := Output.write o path content
    let after := writeAll written.2 rest
    (written.1 :: after.1, after.2)

/-- The writes that do not lead out of the output. -/
def accepted (writes : List (String × String)) : List (String × String) :=
  writes.filter fun w => isOutputPath w.1

/-- The answer of an output that only looks at the path. -/
def pathAnswer (path : String) : Except ModelError Unit :=
  if isOutputPath path then .ok () else .error (.invalidOutputPath path)

variable {path : String} {writes : List (String × String)}

/-- A write is accepted if its path is one for output. -/
theorem accepted_cons_of_pos (h : isOutputPath path = true) (content : String) :
    accepted ((path, content) :: writes) = (path, content) :: accepted writes :=
  List.filter_cons_of_pos h

theorem accepted_cons_of_neg (h : isOutputPath path = false) (content : String) :
    accepted ((path, content) :: writes) = accepted writes :=
  List.filter_cons_of_neg (Bool.eq_false_iff.mp h)

theorem pathAnswer_of_pos (h : isOutputPath path = true) : pathAnswer path = .ok () := if_pos h

theorem pathAnswer_of_neg (h : isOutputPath path = false) :
    pathAnswer path = .error (.invalidOutputPath path) :=
  if_neg (Bool.eq_false_iff.mp h)

end Output

open Output

/-- A directory never refuses a path for what was written before, and keeps what was written
last. -/
theorem DirectoryOutput.writeAll_eq {paths : List String} :
    ∀ {writes : List (String × String)} {o : DirectoryOutput}
      {documents : SortedMap String String},
      o.Keeps documents → CanHold o.root paths →
      (∀ path, documents.contains path = true → path ∈ paths) →
      (accepted writes).map Prod.fst ⊆ paths →
        (writeAll o writes).1 = writes.map (fun w => pathAnswer w.1) ∧
        (writeAll o writes).2.Keeps (documents.insertMany (accepted writes))
  | [], _, _, h, _, _, _ => ⟨rfl, h⟩
  -- `paths` has the paths of the documents that are there and of those that are still to come.
  | (path, content) :: writes, o, documents, h, hpaths, hsub, hwrites => by
    cases houtput : isOutputPath path with
    | true =>
      rw [accepted_cons_of_pos houtput, List.map_cons, List.cons_subset] at hwrites
      obtain ⟨hok, hroot, hkeeps⟩ := h.write_eq hpaths hsub hwrites.1 houtput content
      obtain ⟨hanswers, hlast⟩ := writeAll_eq hkeeps (hroot ▸ hpaths)
        (fun path' hpath' => by
          rw [SortedMap.contains_insert, Bool.or_eq_true, decide_eq_true_eq] at hpath'
          exact hpath'.elim (· ▸ hwrites.1) (hsub path')) hwrites.2
      rw [accepted_cons_of_pos houtput, List.map_cons, pathAnswer_of_pos houtput]
      exact ⟨congrArg₂ List.cons hok hanswers, hlast⟩
    | false =>
      have hrefused : o.write path content = (.error (.invalidOutputPath path), o) := by
        simp [DirectoryOutput.write, houtput]
      rw [accepted_cons_of_neg houtput] at hwrites ⊢
      obtain ⟨hanswers, hlast⟩ := writeAll_eq h hpaths hsub hwrites
      rw [List.map_cons, pathAnswer_of_neg houtput, ← hanswers, Output.writeAll]
      simp only [Output.write, hrefused]
      exact ⟨trivial, hlast⟩

/-- Outputs in memory refuse the paths that have a document. So they answer by the paths alone
exactly if no path comes twice, and then they keep all documents. -/
theorem MemoryOutput.writeAll_eq_iff : ∀ (writes : List (String × String)) (o : MemoryOutput),
    ((writeAll o writes).1 = writes.map (fun w => pathAnswer w.1) ↔
      ((accepted writes).map Prod.fst).Nodup ∧
        ∀ path ∈ (accepted writes).map Prod.fst, o.documents.contains path = false) ∧
    ((writeAll o writes).1 = writes.map (fun w => pathAnswer w.1) →
      (writeAll o writes).2.documents = o.documents.insertMany (accepted writes))
  | [], o => by simp [Output.writeAll, accepted, SortedMap.insertMany]
  | (path, content) :: writes, o => by
    cases houtput : isOutputPath path with
    | true =>
      rw [accepted_cons_of_pos houtput, List.map_cons, pathAnswer_of_pos houtput]
      cases hcontains : o.documents.contains path with
      | true =>
        have hrefused : o.write path content = (.error (.duplicateOutput path), o) := by
          simp [MemoryOutput.write, houtput, hcontains]
        simp [Output.writeAll, Output.write, hrefused, hcontains]
      | false =>
        have hwrite : o.write path content = (.ok (), ⟨o.documents.insert path content⟩) := by
          simp [MemoryOutput.write, houtput, hcontains]
        obtain ⟨hiff, hdocuments⟩ := writeAll_eq_iff writes ⟨o.documents.insert path content⟩
        simp only [Output.writeAll, Output.write, hwrite, List.cons.injEq, true_and]
        refine ⟨hiff.trans ?_, hdocuments⟩
        simp only [SortedMap.contains_insert, Bool.or_eq_false_iff, decide_eq_false_iff_not,
          List.map_cons, List.nodup_cons, List.forall_mem_cons, hcontains, true_and]
        constructor
        · rintro ⟨hnodup, h⟩
          exact ⟨⟨fun hmem => (h path hmem).1 rfl, hnodup⟩, fun p hp => (h p hp).2⟩
        · rintro ⟨⟨hnew, hnodup⟩, h⟩
          exact ⟨hnodup, fun p hp => ⟨ne_of_mem_of_not_mem hp hnew, h p hp⟩⟩
    | false =>
      have hrefused : o.write path content = (.error (.invalidOutputPath path), o) := by
        simp [MemoryOutput.write, houtput]
      obtain ⟨hiff, hdocuments⟩ := writeAll_eq_iff writes o
      rw [accepted_cons_of_neg houtput, List.map_cons, pathAnswer_of_neg houtput]
      simp only [Output.writeAll, Output.write, hrefused, List.cons.injEq, true_and]
      exact ⟨hiff, hdocuments⟩

/-- A directory answers by the path alone, and keeps what was written last. So it does what an
output in memory does exactly if no path comes twice. -/
theorem Output.writeAll_agree_iff {o : DirectoryOutput} {writes : List (String × String)}
    (hempty : o.Keeps .empty)
    (hpaths : DirectoryOutput.CanHold o.root ((accepted writes).map Prod.fst)) :
    (writeAll o writes).1 = writes.map (fun w => pathAnswer w.1) ∧
    (∀ path, FileTree.IsSpelled path → (writeAll o writes).2.document? path =
      (SortedMap.ofList (accepted writes)).get? path) ∧
    (((writeAll o writes).1 = (writeAll MemoryOutput.empty writes).1 ∧
      ∀ path, FileTree.IsSpelled path → (writeAll o writes).2.document? path =
        (writeAll MemoryOutput.empty writes).2.documents.get? path) ↔
      ((accepted writes).map Prod.fst).Nodup) := by
  obtain ⟨hanswers, hkeeps⟩ :=
    DirectoryOutput.writeAll_eq hempty hpaths (fun path h => by simp at h) (List.Subset.refl _)
  obtain ⟨hiff, hdocuments⟩ := MemoryOutput.writeAll_eq_iff writes .empty
  refine ⟨hanswers, fun path hpath => hkeeps.document?_eq hpath, fun h => ?_, fun hnodup => ?_⟩
  · exact (hiff.mp (h.1.symm.trans hanswers)).1
  · have hmemory := hiff.mpr ⟨hnodup, fun _ _ => rfl⟩
    refine ⟨hanswers.trans hmemory.symm, fun path hpath => ?_⟩
    rw [hkeeps.document?_eq hpath, hdocuments hmemory]
    rfl

/-- Documents in two directories, and a path that leads out of the output between them. -/
theorem Output.writeAll_agree_distinct :
    let o : DirectoryOutput := ⟨.empty, ["out"]⟩
    let writes := [("a/schema.json", "[1]"), ("../a.json", "[2]"), ("a/b/schema.json", "[3]")]
    (writeAll o writes).1 = (writeAll MemoryOutput.empty writes).1 ∧
      (writeAll o writes).2.document? "a/b/schema.json" = some "[3]" := by
  intro o writes
  have hpaths : (accepted writes).map Prod.fst = ["a/schema.json", "a/b/schema.json"] := by decide
  obtain ⟨-, hlast, hagree⟩ := @writeAll_agree_iff o writes
    (DirectoryOutput.keeps_empty (List.forall_mem_singleton.mpr ⟨by decide, by decide⟩))
    (by rw [hpaths]; exact ⟨by decide, by decide, by decide⟩)
  refine ⟨(hagree.mpr (by rw [hpaths]; decide)).1, ?_⟩
  rw [hlast _ (by decide)]
  decide

/-- A directory and an output in memory part at the second document of a path : the directory
replaces the first. -/
theorem Output.writeAll_differ :
    ¬ ∀ (o : DirectoryOutput) (writes : List (String × String)), o.Keeps .empty →
      DirectoryOutput.CanHold o.root ((accepted writes).map Prod.fst) →
      (writeAll o writes).1 = (writeAll MemoryOutput.empty writes).1 ∧
        ∀ path, FileTree.IsSpelled path → (writeAll o writes).2.document? path =
          (writeAll MemoryOutput.empty writes).2.documents.get? path := by
  intro h
  have hdiffer := (h ⟨.empty, ["out"]⟩ [("a/schema.json", "[1]"), ("a/schema.json", "[2]")]
    (DirectoryOutput.keeps_empty (List.forall_mem_singleton.mpr ⟨by decide, by decide⟩))
    ⟨by decide, by decide, by decide⟩).2 "a/schema.json" (by decide)
  exact absurd hdiffer (by decide)

end DataSpec
