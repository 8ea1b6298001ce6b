import DataSpec.Graph.Basic
import Mathlib.Data.List.Nodup

/-!
# What a depth-first search visits

A walk enters the free nodes that it is told to enter, and leaves what it entered and what
its stack told it to leave (`mem_left_iff`, `mem_entered_of_mem`), each node once
(`nodup_left`). If every edge leads to a node of smaller rank, a walk leaves a node after
all that its edges lead to (`finished_left_walk`) : the nodes above a node on the stack are
of smaller rank, so that none of them waits for the others (`Layered`).
-/

set_option autoImplicit false
set_option linter.unusedSectionVars false

namespace DataSpec.Digraph

variable {α : Type} [DecidableEq α] {next : α → List α} {n a b : α}

/-- The node of a visit. -/
def Visit.node : Visit α → α
  | enter n => n
  | leave n => n

@[simp]
theorem entered_nil : entered ([] : List (Visit α)) = [] := rfl

@[simp]
theorem entered_enter (n : α) (vs : List (Visit α)) :
    entered (.enter n :: vs) = n :: entered vs := rfl

@[simp]
theorem entered_leave (n : α) (vs : List (Visit α)) : entered (.leave n :: vs) = entered vs := rfl

@[simp]
theorem left_nil : left ([] : List (Visit α)) = [] := rfl

@[simp]
theorem left_enter (n : α) (vs : List (Visit α)) : left (.enter n :: vs) = left vs := rfl

@[simp]
theorem left_leave (n : α) (vs : List (Visit α)) : left (.leave n :: vs) = n :: left vs := rfl

theorem left_map_enter (ns : List α) : left (ns.map .enter) = [] := by
  induction ns with
  | nil => rfl
  | cons n ns ih => exact ih

theorem left_append (vs ws : List (Visit α)) : left (vs ++ ws) = left vs ++ left ws :=
  List.filterMap_append

/-- A node is left where the walk says so. -/
theorem mem_left_iff_mem {vs : List (Visit α)} : n ∈ left vs ↔ .leave n ∈ vs := by
  induction vs with
  | nil => simp
  | cons v vs ih => cases v <;> simp [ih]

/-! ## The steps of a walk -/

@[simp]
theorem walk_nil (next : α → List α) (free : List α) : walk next [] free = [] := by
  rw [walk]

@[simp]
theorem walk_leave (next : α → List α) (n : α) (stack : List (Visit α)) (free : List α) :
    walk next (.leave n :: stack) free = .leave n :: walk next stack free := by
  rw [walk]

/-- A free node is entered, then its neighbours are, and then it is left. -/
theorem walk_enter_of_mem (next : α → List α) {free : List α} (h : n ∈ free)
    (stack : List (Visit α)) :
    walk next (.enter n :: stack) free =
      .enter n :: walk next ((next n).map .enter ++ .leave n :: stack) (free.erase n) := by
  rw [walk, if_pos h]

/-- A node that was entered before is passed over. -/
theorem walk_enter_of_not_mem (next : α → List α) {free : List α} (h : n ∉ free)
    (stack : List (Visit α)) :
    walk next (.enter n :: stack) free = walk next stack free := by
  rw [walk, if_neg h]

/-! ## Which nodes are visited -/

/-- Only free nodes are entered. -/
theorem mem_free_of_mem_entered (stack : List (Visit α)) (free : List α)
    (h : n ∈ entered (walk next stack free)) : n ∈ free := by
  induction stack, free using walk.induct next with
  | case1 free => simp at h
  | case2 m stack free ih =>
    rw [walk_leave] at h
    exact ih h
  | case3 m stack free hm ih =>
    rw [walk_enter_of_mem next hm, entered_enter, List.mem_cons] at h
    rcases h with rfl | h
    · exact hm
    · exact List.mem_of_mem_erase (ih h)
  | case4 m stack free hm ih =>
    rw [walk_enter_of_not_mem next hm] at h
    exact ih h

/-- A free node is entered if the stack says so. -/
theorem mem_entered_of_mem (stack : List (Visit α)) (free : List α) (hs : .enter n ∈ stack)
    (hf : n ∈ free) : n ∈ entered (walk next stack free) := by
  induction stack, free using walk.induct next with
  | case1 free => simp at hs
  | case2 m stack free ih =>
    rw [walk_leave]
    exact ih (by simpa using hs) hf
  | case3 m stack free hm ih =>
    rw [walk_enter_of_mem next hm, entered_enter, List.mem_cons]
    by_cases hnm : n = m
    · exact Or.inl hnm
    · have hs : .enter n ∈ stack := by simpa [hnm] using hs
      exact Or.inr (ih (by simp [hs]) ((List.mem_erase_of_ne hnm).mpr hf))
  | case4 m stack free hm ih =>
    rw [walk_enter_of_not_mem next hm]
    have hnm : n ≠ m := fun h => hm (h ▸ hf)
    exact ih (by simpa [hnm] using hs) hf

/-- The nodes that are left are those that the stack says to leave, and those entered. -/
theorem mem_left_iff (stack : List (Visit α)) (free : List α) :
    n ∈ left (walk next stack free) ↔
      .leave n ∈ stack ∨ n ∈ entered (walk next stack free) := by
  induction stack, free using walk.induct next with
  | case1 free => simp
  | case2 m stack free ih =>
    rw [walk_leave, left_leave, entered_leave, List.mem_cons, ih, List.mem_cons,
      Visit.leave.injEq, or_assoc]
  | case3 m stack free hm ih =>
    rw [walk_enter_of_mem next hm, left_enter, entered_enter, ih]
    simp only [List.mem_append, List.mem_map, reduceCtorEq, and_false, exists_false, false_or,
      List.mem_cons, Visit.leave.injEq]
    tauto
  | case4 m stack free hm ih =>
    rw [walk_enter_of_not_mem next hm, ih]
    simp

/-- Every node is left once. -/
theorem nodup_left (stack : List (Visit α)) (free : List α) (hs : (left stack).Nodup)
    (hf : free.Nodup) (hd : ∀ n ∈ left stack, n ∉ free) :
    (left (walk next stack free)).Nodup := by
  induction stack, free using walk.induct next with
  | case1 free => simp
  | case2 m stack free ih =>
    rw [left_leave, List.nodup_cons] at hs
    rw [walk_leave, left_leave, List.nodup_cons]
    refine ⟨fun hm => ?_, ih hs.2 hf fun n hn => hd n (List.mem_cons_of_mem _ hn)⟩
    rcases (mem_left_iff stack free).mp hm with hm | hm
    · exact hs.1 (mem_left_iff_mem.mpr hm)
    · exact hd m List.mem_cons_self (mem_free_of_mem_entered stack free hm)
  | case3 m stack free hm ih =>
    rw [walk_enter_of_mem next hm, left_enter]
    have hleft : left ((next m).map .enter ++ .leave m :: stack) = m :: left stack := by
      rw [left_append, left_map_enter, List.nil_append, left_leave]
    rw [hleft] at ih
    refine ih (List.nodup_cons.mpr ⟨fun h => hd m h hm, hs⟩) (hf.erase m) fun n hn => ?_
    rcases List.mem_cons.mp hn with rfl | hn
    · exact hf.not_mem_erase
    · exact fun h => hd n hn (List.mem_of_mem_erase h)
  | case4 m stack free hm ih =>
    rw [walk_enter_of_not_mem next hm]
    exact ih hs hf hd

/-! ## In which order nodes are left -/

/-- A list in which every node comes after all that its edges lead to, given that some
nodes came before. -/
def Finished (next : α → List α) : List α → List α → Prop
  | _, [] => True
  | done, n :: rest => (∀ b ∈ next n, b ∈ done) ∧ Finished next (n :: done) rest

/-- A stack on which everything above a node that is to be left has a smaller rank than it,
and all that its edges lead to is done or above it. -/
def Layered (next : α → List α) (rank : α → Nat) (done : List α) :
    List α → List (Visit α) → Prop
  | _, [] => True
  | above, .enter n :: stack => Layered next rank done (n :: above) stack
  | above, .leave n :: stack =>
    (∀ x ∈ above, rank x < rank n) ∧ (∀ b ∈ next n, b ∈ done ∨ b ∈ above) ∧
      Layered next rank done (n :: above) stack

variable {rank : α → Nat}

/-- What is above may be replaced by nodes of at most the same rank, if all of it that is
lost is done. -/
theorem Layered.replace {done done' : List α} :
    ∀ {stack : List (Visit α)} {above above' : List α}, Layered next rank done above stack →
      (∀ b ∈ done, b ∈ done') → (∀ b ∈ above, b ∈ done' ∨ b ∈ above') →
      (∀ x ∈ above', ∃ y ∈ above, rank x ≤ rank y) → Layered next rank done' above' stack
  | [], _, _, _, _, _, _ => trivial
  | .enter n :: stack, above, above', h, hd, ha, hr => by
    have h : Layered next rank done (n :: above) stack := h
    refine h.replace hd (fun b hb => ?_) fun x hx => ?_
    · rcases List.mem_cons.mp hb with rfl | hb
      · exact Or.inr List.mem_cons_self
      · exact (ha b hb).imp_right (List.mem_cons_of_mem _)
    · rcases List.mem_cons.mp hx with rfl | hx
      · exact ⟨x, List.mem_cons_self, Nat.le_refl _⟩
      · obtain ⟨y, hy, hxy⟩ := hr x hx
        exact ⟨y, List.mem_cons_of_mem _ hy, hxy⟩
  | .leave n :: stack, above, above', ⟨h₁, h₂, h⟩, hd, ha, hr => by
    refine ⟨fun x hx => ?_, fun b hb => ?_, h.replace hd (fun b hb => ?_)
      fun x hx => ?_⟩
    · obtain ⟨y, hy, hxy⟩ := hr x hx
      exact Nat.lt_of_le_of_lt hxy (h₁ y hy)
    · rcases h₂ b hb with hb | hb
      · exact Or.inl (hd b hb)
      · exact ha b hb
    · rcases List.mem_cons.mp hb with rfl | hb
      · exact Or.inr List.mem_cons_self
      · exact (ha b hb).imp_right (List.mem_cons_of_mem _)
    · rcases List.mem_cons.mp hx with rfl | hx
      · exact ⟨x, List.mem_cons_self, Nat.le_refl _⟩
      · obtain ⟨y, hy, hxy⟩ := hr x hx
        exact ⟨y, List.mem_cons_of_mem _ hy, hxy⟩

/-- A node above has a smaller rank than any that is to be left. -/
theorem Layered.rank_lt {done : List α} :
    ∀ {stack : List (Visit α)} {above : List α}, Layered next rank done above stack →
      ∀ {x}, x ∈ above → .leave n ∈ stack → rank x < rank n
  | .enter m :: stack, above, h, x, hx, hn => by
    have hn : .leave n ∈ stack := by simpa using hn
    have h : Layered next rank done (m :: above) stack := h
    exact h.rank_lt (List.mem_cons_of_mem _ hx) hn
  | .leave m :: stack, above, ⟨h₁, _, h⟩, x, hx, hn => by
    rcases List.mem_cons.mp hn with heq | hn
    · obtain rfl := Visit.leave.inj heq
      exact h₁ x hx
    · exact h.rank_lt (List.mem_cons_of_mem _ hx) hn

/-- The children of a node on top of a stack, pushed onto it, give a layered stack. -/
theorem Layered.push {done children : List α} :
    ∀ {above : List α} {stack : List (Visit α)},
      Layered next rank done (children.reverse ++ above) stack →
      Layered next rank done above (children.map .enter ++ stack) := by
  induction children with
  | nil => exact fun h => h
  | cons c children ih =>
    intro above stack h
    have h : Layered next rank done (children.reverse ++ c :: above) stack := by simpa using h
    exact ih h

/-- If every edge leads to a smaller rank, every node is left after all that its edges lead
to. `D` are the nodes of the graph, all of which are free, done or about to be left. -/
theorem finished_left_walk (D : α → Prop) (rank : α → Nat)
    (hD : ∀ {a}, D a → ∀ b ∈ next a, D b ∧ rank b < rank a) (stack : List (Visit α))
    (free done : List α) (hs : ∀ v ∈ stack, D v.node)
    (hc : ∀ n, D n → n ∈ free ∨ n ∈ done ∨ .leave n ∈ stack)
    (hl : Layered next rank done [] stack) : Finished next done (left (walk next stack free)) := by
  induction stack, free using walk.induct next generalizing done with
  | case1 free =>
    rw [walk_nil]
    trivial
  | case2 m stack free ih =>
    obtain ⟨-, hnext, hl⟩ := hl
    rw [walk_leave, left_leave]
    refine ⟨fun b hb => (hnext b hb).resolve_right List.not_mem_nil, ih _ ?_ ?_ ?_⟩
    · exact fun v hv => hs v (List.mem_cons_of_mem _ hv)
    · intro n hn
      have := hc n hn
      simp only [List.mem_cons, Visit.leave.injEq] at this ⊢
      tauto
    · exact hl.replace (fun b hb => List.mem_cons_of_mem _ hb) (fun b hb => Or.inl (by
        obtain rfl := List.mem_singleton.mp hb
        exact List.mem_cons_self)) nofun
  | case3 m stack free hm ih =>
    have hDm : D m := hs _ List.mem_cons_self
    rw [walk_enter_of_mem next hm, left_enter]
    refine ih _ ?_ ?_ ?_
    · intro v hv
      rcases List.mem_append.mp hv with hv | hv
      · obtain ⟨b, hb, rfl⟩ := List.mem_map.mp hv
        exact (hD hDm b hb).1
      · rcases List.mem_cons.mp hv with rfl | hv
        · exact hDm
        · exact hs v (List.mem_cons_of_mem _ hv)
    · intro n hn
      by_cases hnm : n = m
      · exact Or.inr (Or.inr (by simp [hnm]))
      · rcases hc n hn with h | h | h
        · exact Or.inl ((List.mem_erase_of_ne hnm).mpr h)
        · exact Or.inr (Or.inl h)
        · exact Or.inr (Or.inr (by simpa [hnm] using h))
    · refine Layered.push ⟨fun x hx => ?_, fun b hb => ?_, ?_⟩
      · exact (hD hDm x (by simpa using hx)).2
      · exact Or.inr (by simpa using hb)
      · have hl : Layered next rank done [m] stack := hl
        refine hl.replace (fun b hb => hb) (fun b hb => Or.inr ?_) fun x hx => ⟨m, by simp, ?_⟩
        · obtain rfl := List.mem_singleton.mp hb
          exact List.mem_cons_self
        · rcases List.mem_cons.mp hx with rfl | hx
          · exact Nat.le_refl _
          · exact Nat.le_of_lt (hD hDm x (by simpa using hx)).2
  | case4 m stack free hm ih =>
    have hl : Layered next rank done [m] stack := hl
    rw [walk_enter_of_not_mem next hm]
    have hdone : m ∈ done := by
      rcases hc m (hs _ List.mem_cons_self) with h | h | h
      · exact absurd h hm
      · exact h
      · have h : .leave m ∈ stack := by simpa using h
        exact absurd (hl.rank_lt List.mem_cons_self h) (Nat.lt_irrefl _)
    refine ih _ (fun v hv => hs v (List.mem_cons_of_mem _ hv)) (fun n hn => ?_) ?_
    · simpa using hc n hn
    · refine hl.replace (fun b hb => hb) (fun b hb => Or.inl ?_) nofun
      obtain rfl := List.mem_singleton.mp hb
      exact hdone

end DataSpec.Digraph
