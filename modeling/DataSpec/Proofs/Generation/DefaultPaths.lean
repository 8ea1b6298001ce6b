import DataSpec.Proofs.Generation.Run
import DataSpec.Proofs.Store.Minting
import Mathlib.Data.List.Nodup

/-!
# The paths of the usual artefacts

The documents of a structural schema go to a directory that is named after the end of its
identifier. A path tells the directory and the file (`outputPath_schemaArtefact_inj`), so the
usual artefacts of a specification have different paths if and only if the directories of its
schemas differ (`nodup_outputPath_iff`), and only then can all of them be written
(`paths_of_defaultArtefacts`).

The directories of schemas that one store has minted differ, because they are the numbers of
the schemas (`schemaDirectory_identifier`). Those of other schemas need not, since the end of an
identifier does not say where it begins (`paths_of_defaultArtefacts_collide`).
-/

set_option autoImplicit false

namespace DataSpec

/-! ## Names of directories -/

namespace Text

theorem toNat_of_isDigit {c : Char} (h : c.isDigit = true) : 48 ≤ c.toNat ∧ c.toNat ≤ 57 := by
  simpa [Char.isDigit, UInt32.le_iff_toNat_le] using h

theorem isNumber_of_isDigit {c : Char} (h : c.isDigit = true) : isNumber c = true := by
  obtain ⟨hlow, hhigh⟩ := toNat_of_isDigit h
  exact List.any_eq_true.mpr ⟨(48, 57), List.mem_cons_self, by simp [hlow, hhigh]⟩

theorem toLower_of_isDigit {c : Char} (h : c.isDigit = true) : c.toLower = c := by
  obtain ⟨-, hhigh⟩ := toNat_of_isDigit h
  refine dif_neg fun hupper => ?_
  have hlow : 65 ≤ c.toNat := UInt32.le_iff_toNat_le.mp hupper.1
  omega

theorem eq_slash_of_toLower {c : Char} (h : c.toLower = '/') : c = '/' := by
  unfold Char.toLower at h
  split at h
  · rename_i hupper
    have hval := congrArg (fun c => c.val.toNat) h
    simp [UInt32.le_iff_toNat_le] at hupper hval
    omega
  · exact h

end Text

/-- An identifier ends in its number. -/
theorem lastSegment_identifier (base : String) (kind : Kind) (n : UInt64) :
    Text.lastSegment (identifier base kind n) = toString n.toNat := by
  have hdigits : (toString n.toNat).toList = Nat.toDigits 10 n.toNat := by
    rw [Nat.toString_eq_ofList_toDigits, String.toList_ofList]
  refine Text.lastSegment_append ?_ fun c hc => ?_
  · rw [← String.toList_inj.ne, hdigits]
    exact Nat.toDigits_ne_nil
  · rw [hdigits] at hc
    have hdigit := Decimal.isDigit_of_mem_toDigits hc
    constructor <;> rintro rfl <;> simp at hdigit

namespace DataSpecification

variable {s : DataSpecification} {baseUrl : String} {psm psm' : Iri}
  {file file' : Format × String}

/-- The name of the directory of a structural schema. -/
def schemaDirectory (psm : Iri) : String := slug (Text.lastSegment psm)

theorem slash_not_mem_schemaDirectory (psm : Iri) : '/' ∉ (schemaDirectory psm).toList := by
  intro h
  rw [schemaDirectory, slug, String.toList_ofList] at h
  obtain ⟨c, -, hc⟩ := List.mem_map.mp h
  split at hc
  · rename_i hkept
    obtain rfl := Text.eq_slash_of_toLower hc
    exact absurd hkept (by decide +kernel)
  · exact absurd hc (by decide)

theorem slug_toString (n : Nat) : slug (toString n) = toString n := by
  rw [slug, Nat.toString_eq_ofList_toDigits, String.toList_ofList]
  congr 1
  rw [List.map_congr_left (g := id) fun c hc => ?_, List.map_id]
  have hdigit := Decimal.isDigit_of_mem_toDigits hc
  rw [Text.isNumber_of_isDigit hdigit, Bool.or_true, if_pos rfl, Text.toLower_of_isDigit hdigit,
    id]

/-- The directory of a schema that a store has minted is named by its number. -/
theorem schemaDirectory_identifier (base : String) (kind : Kind) (n : UInt64) :
    schemaDirectory (identifier base kind n) = toString n.toNat := by
  rw [schemaDirectory, lastSegment_identifier, slug_toString]

/-- Schemas that one store has minted have directories of their own. -/
theorem nodup_schemaDirectory_of_minted {base : String} {psms : List Iri} (hpsms : psms.Nodup)
    (hminted : ∀ psm ∈ psms, ∃ n, psm = identifier base .structuralSchema n) :
    (psms.map schemaDirectory).Nodup := by
  refine hpsms.map_on fun psm hpsm psm' hpsm' heq => ?_
  obtain ⟨n, rfl⟩ := hminted psm hpsm
  obtain ⟨n', rfl⟩ := hminted psm' hpsm'
  rw [schemaDirectory_identifier, schemaDirectory_identifier] at heq
  rw [UInt64.toNat_inj.mp (Decimal.toString_inj.mp heq)]

/-! ## Paths and identifiers of artefacts -/

/-- A path tells the directory of a schema and the file in it. -/
theorem outputPath_schemaArtefact_inj (hfile : file ∈ schemaFiles) (hfile' : file' ∈ schemaFiles) :
    (s.schemaArtefact baseUrl psm file).outputPath =
        (s.schemaArtefact baseUrl psm' file').outputPath ↔
      schemaDirectory psm = schemaDirectory psm' ∧ file = file' := by
  have hname : ∀ file ∈ schemaFiles, ∀ file' ∈ schemaFiles, file.2 = file'.2 ↔ file = file' := by
    decide
  have hpath : ∀ psm file, (s.schemaArtefact baseUrl psm file).outputPath.toList =
      (s.directory ++ "/").toList ++
        ((schemaDirectory psm).toList ++ '/' :: file.2.toList) := by
    intro psm file
    simp [schemaArtefact, schemaDirectory]
  rw [← String.toList_inj, hpath, hpath, List.append_right_inj,
    Text.append_cons_inj (slash_not_mem_schemaDirectory _) (slash_not_mem_schemaDirectory _),
    String.toList_inj, String.toList_inj, hname file hfile file' hfile']

/-- An identifier tells the schema or the specification, and the format. -/
theorem iri_append_name_inj {f f' : Format} :
    psm ++ "#" ++ f.name = psm' ++ "#" ++ f'.name ↔ psm = psm' ∧ f = f' := by
  have hsign : ∀ f : Format, '#' ∉ f.name.toList.reverse := by
    intro f
    cases f <;> decide
  have hname : f.name = f'.name ↔ f = f' := by
    refine ⟨fun h => Option.some.inj ?_, congrArg _⟩
    rw [← Format.ofName?_name f, h, Format.ofName?_name]
  have hreverse : ∀ (psm : Iri) (f : Format), (psm ++ "#" ++ f.name).toList.reverse =
      f.name.toList.reverse ++ '#' :: psm.toList.reverse := by
    intro psm f
    simp
  rw [← String.toList_inj, ← List.reverse_inj, hreverse, hreverse,
    Text.append_cons_inj (hsign f) (hsign f'), List.reverse_inj, List.reverse_inj,
    String.toList_inj, String.toList_inj, hname, and_comm]

theorem iri_schemaArtefact_inj (hfile : file ∈ schemaFiles) (hfile' : file' ∈ schemaFiles) :
    (s.schemaArtefact baseUrl psm file).iri = (s.schemaArtefact baseUrl psm' file').iri ↔
      psm = psm' ∧ file = file' := by
  have hformat : ∀ file ∈ schemaFiles, ∀ file' ∈ schemaFiles, file.1 = file'.1 ↔ file = file' := by
    decide
  rw [← hformat file hfile file' hfile']
  exact iri_append_name_inj

/-- What tells the artefacts of a schema apart, and those of different schemas by what `k` is of
the schemas, is different for all artefacts if `k` is for all schemas. -/
theorem nodup_schemaArtefacts_iff {α β : Type} {f : Artefact → α} {k : Iri → β}
    (htells : ∀ {psm psm' file file'}, file ∈ schemaFiles → file' ∈ schemaFiles →
      (f (s.schemaArtefact baseUrl psm file) = f (s.schemaArtefact baseUrl psm' file') ↔
        k psm = k psm' ∧ file = file')) :
    ((s.schemaArtefacts baseUrl).map f).Nodup ↔ (s.structuralSchemas.map k).Nodup := by
  have hmem : ∀ {psm x}, x ∈ (schemaFiles.map (s.schemaArtefact baseUrl psm)).map f ↔
      ∃ file ∈ schemaFiles, f (s.schemaArtefact baseUrl psm file) = x := by simp
  have hkeys : (s.structuralSchemas.map k).Nodup ↔
      s.structuralSchemas.Pairwise fun psm psm' => k psm ≠ k psm' := List.pairwise_map
  rw [schemaArtefacts, List.map_flatMap, List.nodup_flatMap, hkeys]
  constructor
  · rintro ⟨-, hdisjoint⟩
    refine hdisjoint.imp fun {psm psm'} hdisjoint heq => ?_
    have hfile : (Format.jsonSchema, "schema.json") ∈ schemaFiles := List.mem_cons_self
    exact hdisjoint (hmem.mpr ⟨_, hfile, (htells hfile hfile).mpr ⟨heq, rfl⟩⟩)
      (hmem.mpr ⟨_, hfile, rfl⟩)
  · intro hne
    refine ⟨fun psm _ => ?_, hne.imp fun {psm psm'} hne x hx hx' => ?_⟩
    · rw [List.map_map]
      exact (show schemaFiles.Nodup by decide).map_on fun file hfile file' hfile' heq =>
        ((htells hfile hfile').mp heq).2
    · obtain ⟨file, hfile, rfl⟩ := hmem.mp hx
      obtain ⟨file', hfile', heq⟩ := hmem.mp hx'
      exact hne ((htells hfile hfile').mp heq.symm).1

/-- The documentation is the last of the usual artefacts. -/
theorem exists_defaultArtefacts_eq (s : DataSpecification) (baseUrl : String) :
    ∃ a : Artefact, s.defaultArtefacts baseUrl = s.schemaArtefacts baseUrl ++ [a] ∧
      a.iri = s.iri ++ "#" ++ Format.documentation.name ∧
      a.outputPath = s.directory ++ "/index.md" :=
  ⟨_, rfl, rfl, rfl⟩

theorem exists_of_mem_schemaArtefacts {a : Artefact} (ha : a ∈ s.schemaArtefacts baseUrl) :
    ∃ psm, ∃ file ∈ schemaFiles, a = s.schemaArtefact baseUrl psm file := by
  obtain ⟨psm, -, ha⟩ := List.mem_flatMap.mp ha
  obtain ⟨file, hfile, rfl⟩ := List.mem_map.mp ha
  exact ⟨psm, file, hfile, rfl⟩

/-- What is different for the documentation is different for all artefacts if it is for the
others. -/
theorem nodup_append_singleton_iff {α : Type} {f : Artefact → α} {as : List Artefact}
    {a : Artefact} (h : ∀ b ∈ as, f b ≠ f a) :
    ((as ++ [a]).map f).Nodup ↔ (as.map f).Nodup := by
  rw [List.map_append, List.nodup_append]
  exact ⟨And.left, fun has => ⟨has, List.nodup_singleton _, by simpa using h⟩⟩

/-- The usual artefacts have paths of their own if and only if the schemas have directories of
their own. -/
theorem nodup_outputPath_iff (s : DataSpecification) (baseUrl : String) :
    ((s.defaultArtefacts baseUrl).map Artefact.outputPath).Nodup ↔
      (s.structuralSchemas.map schemaDirectory).Nodup := by
  obtain ⟨a, heq, -, hpath⟩ := exists_defaultArtefacts_eq s baseUrl
  rw [heq, nodup_append_singleton_iff fun b hb => ?_]
  · exact nodup_schemaArtefacts_iff outputPath_schemaArtefact_inj
  · obtain ⟨psm, file, -, rfl⟩ := exists_of_mem_schemaArtefacts hb
    rw [hpath]
    intro hsame
    -- Only the path of a schema has a slash behind the directory of the specification.
    have hrest : (schemaDirectory psm).toList ++ '/' :: file.2.toList = "index.md".toList := by
      simpa [schemaArtefact, schemaDirectory] using congrArg String.toList hsame
    have hslash : '/' ∈ "index.md".toList := hrest ▸ by simp
    exact absurd hslash (by decide)

/-- The usual artefacts have identifiers of their own if the schemas have. -/
theorem distinct_defaultArtefacts (hs : s.structuralSchemas.Nodup) (baseUrl : String) :
    Distinct { s with artefacts := s.defaultArtefacts baseUrl } := by
  obtain ⟨a, heq, hiri, -⟩ := exists_defaultArtefacts_eq s baseUrl
  rw [Distinct, heq, nodup_append_singleton_iff fun b hb => ?_]
  · exact (nodup_schemaArtefacts_iff (k := id) iri_schemaArtefact_inj).mpr (by simpa using hs)
  · obtain ⟨psm, file, hfile, rfl⟩ := exists_of_mem_schemaArtefacts hb
    rw [hiri]
    intro hsame
    have hformat : ∀ file ∈ schemaFiles, file.1 ≠ Format.documentation := by decide
    exact hformat file hfile (iri_append_name_inj.mp hsame).2

/-! ## Runs -/

/-- The usual artefacts of a specification have different paths if and only if its schemas have
different directories, as those have that one store has minted. Whenever a run is planned, it
comes to each path once if and only if this is so, and a run that succeeds shows that it is. -/
theorem paths_of_defaultArtefacts (hs : s.structuralSchemas.Nodup) (baseUrl : String) :
    (((s.defaultArtefacts baseUrl).map Artefact.outputPath).Nodup ↔
      (s.structuralSchemas.map schemaDirectory).Nodup) ∧
    (∀ base, (∀ psm ∈ s.structuralSchemas, ∃ n, psm = identifier base .structuralSchema n) →
      ((s.defaultArtefacts baseUrl).map Artefact.outputPath).Nodup) ∧
    ∀ (g : Generator MemoryOutput) (o : MemoryOutput) (iri : Iri),
      g.specifications.get? iri = some { s with artefacts := s.defaultArtefacts baseUrl } →
      (∀ s' l w, g.plan o iri = .ok (s', l, w) →
        ((l.map Artefact.outputPath).Nodup ↔ (s.structuralSchemas.map schemaDirectory).Nodup)) ∧
      ∀ iris o', g.runSpecification o iri = (.ok iris, o') →
        (s.structuralSchemas.map schemaDirectory).Nodup := by
  refine ⟨nodup_outputPath_iff s baseUrl, fun base hminted =>
    (nodup_outputPath_iff s baseUrl).mpr (nodup_schemaDirectory_of_minted hs hminted), ?_⟩
  intro g o iri hget
  have hplanned : ∀ s' l w, g.plan o iri = .ok (s', l, w) →
      ((l.map Artefact.outputPath).Nodup ↔ (s.structuralSchemas.map schemaDirectory).Nodup) := by
    intro s' l w hplan
    obtain ⟨hget', horder, -⟩ := Generator.plan_eq_ok.mp hplan
    obtain rfl := Option.some.inj (hget.symm.trans hget')
    have hperm := (isOrder_of_order (distinct_defaultArtefacts hs baseUrl) horder).perm
    rw [← nodup_outputPath_iff s baseUrl]
    exact (hperm.map Artefact.outputPath).nodup_iff
  refine ⟨hplanned, fun iris o' hrun => ?_⟩
  obtain ⟨s', l, w, hplan, -, hwrites⟩ := Generator.runSpecification_eq_ok hrun
  exact (hplanned s' l w hplan).mp (Generator.added_of_writes hwrites).nodup

/-- A specification with structural schemas and nothing else. -/
def schemasOf (psms : List Iri) : DataSpecification :=
  ⟨"https://e.com/specification/trade", .empty, none, psms, [], []⟩

/-- The first two schemas of a store have paths of their own. -/
theorem paths_of_defaultArtefacts_minted :
    (schemasOf [identifier "https://e.com" .structuralSchema 1,
        identifier "https://e.com" .structuralSchema 2]).structuralSchemas.Nodup ∧
      (((schemasOf [identifier "https://e.com" .structuralSchema 1,
        identifier "https://e.com" .structuralSchema 2]).defaultArtefacts
          "https://e.com").map Artefact.outputPath).Nodup := by
  have hs : (schemasOf [identifier "https://e.com" .structuralSchema 1,
      identifier "https://e.com" .structuralSchema 2]).structuralSchemas.Nodup := by decide +kernel
  refine ⟨hs, (paths_of_defaultArtefacts hs _).2.1 "https://e.com" fun psm hpsm => ?_⟩
  rcases List.mem_pair.mp hpsm with rfl | rfl
  · exact ⟨1, rfl⟩
  · exact ⟨2, rfl⟩

/-- The first schemas of two stores have the same paths. -/
theorem paths_of_defaultArtefacts_collide :
    ¬ ∀ (s : DataSpecification) (baseUrl : String), s.structuralSchemas.Nodup →
      ((s.defaultArtefacts baseUrl).map Artefact.outputPath).Nodup := by
  intro h
  have hpaths := h (schemasOf [identifier "https://e.com" .structuralSchema 1,
    identifier "https://e.org" .structuralSchema 1]) "https://e.com" (by decide +kernel)
  rw [nodup_outputPath_iff] at hpaths
  simp [schemasOf, schemaDirectory_identifier] at hpaths

end DataSpecification

end DataSpec
