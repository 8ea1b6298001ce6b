import DataSpec.Proofs.Text.Segments
import Mathlib.Data.List.Infix

/-!
# Ways from one path to another

The places of a tree of directories are the lists of the names that lead to them. Two places
part where their names begin to differ (`exists_parting`), and the relative path from one to the
other climbs to that place and goes down from there (`relativePath_eq`).

`walk?` follows steps from a place, where `..` leads up. The steps of a relative path lead to the
target and never above the top, and no steps that lead there climb less
(`walk?_relativePath`).
-/

set_option autoImplicit false

namespace DataSpec.Text

variable {place goal common up down steps : List String} {source target : String}

/-! ## Where two places part -/

/-- The lists differ in their first names, or one of them has none. -/
def Apart (up down : List String) : Prop := ∀ name ∈ up.head?, name ∉ down.head?

theorem not_apart_cons {name : String} : ¬ Apart (name :: up) (name :: down) :=
  fun h => h name rfl rfl

theorem commonLength_append (common up down : List String) :
    commonLength (common ++ up) (common ++ down) = common.length + commonLength up down := by
  induction common with
  | nil => simp
  | cons name common ih =>
    rw [List.cons_append, List.cons_append, commonLength, if_pos rfl, ih, List.length_cons,
      Nat.add_right_comm]

theorem Apart.commonLength_eq_zero (h : Apart up down) : commonLength up down = 0 := by
  match up, down, h with
  | [], _, _ => simp [commonLength]
  | _ :: _, [], _ => rfl
  | name :: _, name' :: _, h => exact if_neg fun heq => h name rfl (by simp [heq])

/-- Every two places have a common beginning and are apart behind it. -/
theorem exists_parting : ∀ place goal : List String, ∃ common up down,
    place = common ++ up ∧ goal = common ++ down ∧ Apart up down
  | [], goal => ⟨[], [], goal, rfl, rfl, by simp [Apart]⟩
  | name :: place, [] => ⟨[], name :: place, [], rfl, rfl, by simp [Apart]⟩
  | name :: place, name' :: goal => by
    by_cases hname : name = name'
    · obtain ⟨common, up, down, rfl, rfl, hapart⟩ := exists_parting place goal
      exact ⟨name :: common, up, down, rfl, by rw [hname]; rfl, hapart⟩
    · exact ⟨[], name :: place, name' :: goal, rfl, rfl, by simpa [Apart] using Ne.symm hname⟩

/-- What two places have in common at their start does not go beyond where they part. -/
theorem Apart.length_le {p : List String} (h : Apart up down) (hup : p <+: common ++ up)
    (hdown : p <+: common ++ down) : p.length ≤ common.length := by
  by_contra hlong
  obtain ⟨rest, rfl⟩ := List.prefix_of_prefix_length_le (List.prefix_append common up) hup
    (by omega)
  obtain ⟨name, rest, rfl⟩ := List.exists_cons_of_ne_nil (l := rest) (by
    rintro rfl
    simp at hlong)
  rw [List.prefix_append_right_inj] at hup hdown
  obtain ⟨up', rfl⟩ := hup
  obtain ⟨down', rfl⟩ := hdown
  exact h name rfl rfl

/-! ## Relative paths -/

/-- The directory that holds what a path leads to. -/
def directory (path : String) : List String := (segments path).dropLast

/-- A relative path climbs to where the ways to its two ends part, and goes down from there. -/
theorem relativePath_eq (hsource : directory source = common ++ up)
    (htarget : segments target = common ++ down) (h : Apart up down) :
    relativePath source target = join "/" (List.replicate up.length ".." ++ down) := by
  have hcommon : commonLength (segments source).dropLast (segments target) = common.length := by
    rw [← directory, hsource, htarget, commonLength_append, h.commonLength_eq_zero, Nat.add_zero]
  simp only [relativePath, hcommon]
  rw [← directory, hsource, htarget]
  simp

theorem isSegment_up : IsSegment ".." := ⟨by decide, by decide⟩

theorem segments_relativePath (hsource : directory source = common ++ up)
    (htarget : segments target = common ++ down) (h : Apart up down) :
    segments (relativePath source target) = List.replicate up.length ".." ++ down := by
  rw [relativePath_eq hsource htarget h]
  refine segments_join fun name hname => ?_
  rcases List.mem_append.mp hname with hname | hname
  · rw [List.eq_of_mem_replicate hname]
    exact isSegment_up
  · exact isSegment_of_mem_segments (htarget ▸ List.mem_append_right _ hname)

/-! ## Steps -/

/-- The place that steps lead to from a place : `..` leads up, and any other name down. There is
no way up from the top. -/
def walk? : List String → List String → Option (List String)
  | place, [] => some place
  | place, name :: rest =>
    if name = ".." then if place = [] then none else walk? place.dropLast rest
    else walk? (place ++ [name]) rest

theorem walk?_climb (common rest : List String) : ∀ up : List String,
    walk? (common ++ up) (List.replicate up.length ".." ++ rest) = walk? common rest := by
  intro up
  induction up using List.reverseRecOn with
  | nil => simp
  | append_singleton up name ih =>
    rw [List.length_append, List.length_singleton, List.replicate_succ, List.cons_append, walk?,
      if_pos rfl, if_neg (by simp), ← List.append_assoc, List.dropLast_concat, ih]

theorem walk?_descend (h : ".." ∉ down) : walk? place down = some (place ++ down) := by
  induction down generalizing place with
  | nil => simp [walk?]
  | cons name down ih =>
    rw [List.mem_cons, not_or] at h
    rw [walk?, if_neg (Ne.symm h.1), ih h.2, List.append_assoc, List.singleton_append]

/-- Steps climb at least to where the ways to their two ends part : the names that are not left by
a step up are still there in the end. -/
theorem exists_common_of_walk? (h : walk? place steps = some goal) :
    ∃ p, p <+: place ∧ p <+: goal ∧ place.length ≤ steps.count ".." + p.length := by
  induction steps generalizing place with
  | nil =>
    obtain rfl := Option.some.inj h
    exact ⟨place, List.prefix_rfl, List.prefix_rfl, by simp⟩
  | cons name steps ih =>
    rw [walk?] at h
    split at h
    · rename_i hname
      split at h
      · simp at h
      · obtain ⟨p, hplace, hgoal, hle⟩ := ih h
        refine ⟨p, hplace.trans (List.dropLast_prefix place), hgoal, ?_⟩
        rw [List.length_dropLast] at hle
        rw [hname, List.count_cons_self]
        omega
    · rename_i hname
      obtain ⟨p, hplace, hgoal, hle⟩ := ih h
      rw [List.count_cons_of_ne hname]
      rw [List.length_append] at hle
      rcases List.prefix_concat_iff.mp hplace with rfl | hplace
      · exact ⟨place, List.prefix_rfl, (List.prefix_append place _).trans hgoal, by simp⟩
      · exact ⟨p, hplace, hgoal, by omega⟩

/-- The steps of a relative path lead from the directory of its source to its target, if the
target is not spelled with steps up, and they never lead above the top. They climb exactly to the
longest common beginning of the two, and no steps between these places climb less. -/
theorem walk?_relativePath (h : ".." ∉ segments target) :
    relativePath source target = join "/" (segments (relativePath source target)) ∧
    walk? (directory source) (segments (relativePath source target)) = some (segments target) ∧
    ∃ common, common <+: directory source ∧ common <+: segments target ∧
      (∀ p, p <+: directory source → p <+: segments target → p.length ≤ common.length) ∧
      (segments (relativePath source target)).count ".." =
        (directory source).length - common.length ∧
      ∀ steps, walk? (directory source) steps = some (segments target) →
        (segments (relativePath source target)).count ".." ≤ steps.count ".." := by
  obtain ⟨common, up, down, hsource, htarget, hapart⟩ :=
    exists_parting (directory source) (segments target)
  have hdown : ".." ∉ down := fun hmem => h (htarget ▸ List.mem_append_right _ hmem)
  have hsteps := segments_relativePath hsource htarget hapart
  have hcount : (segments (relativePath source target)).count ".." = up.length := by
    rw [hsteps, List.count_append, List.count_replicate_self, List.count_eq_zero_of_not_mem hdown,
      Nat.add_zero]
  refine ⟨by rw [hsteps, relativePath_eq hsource htarget hapart], ?_, common,
    hsource ▸ List.prefix_append common up, htarget ▸ List.prefix_append common down,
    fun p hp hp' => ?_, ?_, fun steps hwalk => ?_⟩
  · rw [hsteps, hsource, htarget, walk?_climb, walk?_descend hdown]
  · exact hapart.length_le (hsource ▸ hp) (htarget ▸ hp')
  · rw [hcount, hsource]
    simp
  · obtain ⟨p, hp, hp', hle⟩ := exists_common_of_walk? hwalk
    have hlong := hapart.length_le (hsource ▸ hp) (htarget ▸ hp')
    rw [hsource, List.length_append] at hle
    omega

/-- From a nested directory to a place beside one of the directories above, spelled with more
slashes than it needs. -/
theorem walk?_relativePath_nested :
    ".." ∉ segments "//a/x//c/a/" ∧
      walk? ["a", "x", "b"] (segments (relativePath "/a/x/b//schema.xsd" "//a/x//c/a/")) =
        some ["a", "x", "c", "a"] := by
  have hgoal : ".." ∉ segments "//a/x//c/a/" := by decide
  exact ⟨hgoal, (@walk?_relativePath "/a/x/b//schema.xsd" _ hgoal).2.1⟩

end DataSpec.Text
