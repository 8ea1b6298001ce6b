import DataSpec.Proofs.Store.Integrity
import DataSpec.Proofs.Store.Minting
import DataSpec.Proofs.Store.Staging

/-!
# Owners and readers

A resource is read from the last member that has it (`Federation.last?`), and operations on
it go to its owner. The owner `Follows` when the two are the same member. Registering a member
keeps that, and taking one out brings it about, for all identifiers (`follows_removed`).

An operation keeps it if it does not cross other members (`Commit.Leads.follows_of_not_crosses`) :
it creates no identifier that a later member has, and deletes none that another member has. The
first makes the member the owner although it is not read from, unless the later member has the
same handle, and the second leaves the identifier without owner although it can still be read
(`Commit.Leads.follows_iff`).

A complex operation is its operations one after the other, so every command of a run is a
`Series` of commits unless it changes the members themselves (`attempt_cases`). It follows
that after any run an owner has what it owns, and that the owners follow wherever no operation
has crossed members since one was last taken out (`owner?_attemptAll`).
-/

set_option autoImplicit false
set_option linter.unusedSectionVars false

namespace DataSpec

/-- Whether a member has a resource with an identifier. -/
def Member.has (m : Member) (iri : Iri) : Bool := m.store.state.resources.contains iri

namespace Federation

/-! ## The last member that has an identifier -/

section

variable {ms ns : List Member} {m : Member} {iri : Iri}

/-- The last of some members that has an identifier. -/
def last? (ms : List Member) (iri : Iri) : Option Member := ms.reverse.find? fun m => m.has iri

theorem last?_append (ms ns : List Member) (iri : Iri) :
    last? (ms ++ ns) iri = (last? ns iri).or (last? ms iri) := by
  rw [last?, List.reverse_append, List.find?_append]
  rfl

theorem last?_cons (m : Member) (ms : List Member) (iri : Iri) :
    last? (m :: ms) iri = (last? ms iri).or (if m.has iri then some m else none) := by
  have happ : m :: ms = [m] ++ ms := rfl
  rw [happ, last?_append]
  cases h : m.has iri <;> simp [last?, h]

/-- A member among others. -/
theorem last?_amid (ms ns : List Member) (m : Member) (iri : Iri) :
    last? (ms ++ m :: ns) iri =
      (last? ns iri).or ((if m.has iri then some m else none).or (last? ms iri)) := by
  rw [last?_append, last?_cons, Option.or_assoc]

theorem last?_eq_none_iff : last? ms iri = none ↔ ∀ m ∈ ms, m.has iri = false := by
  simp [last?]

theorem last?_eq_some (h : last? ms iri = some m) : m ∈ ms ∧ m.has iri = true :=
  ⟨List.mem_reverse.mp (List.mem_of_find?_eq_some h),
    List.find?_some (p := fun m : Member => m.has iri) h⟩

/-- Reading is reading from the last member that has the identifier. -/
theorem read?_eq_last? (f : Federation) (iri : Iri) :
    f.read? iri = (last? f.members iri).bind fun m => m.store.read? iri := by
  unfold read? last?
  induction f.members.reverse with
  | nil => rfl
  | cons m ms ih =>
    have hhas : m.has iri = (m.store.read? iri).isSome := rfl
    rw [List.findSome?_cons, List.find?_cons, hhas]
    cases h : m.store.read? iri with
    | none => exact ih
    | some r => simp [h]

end

/-! ## Owners that follow -/

section

variable {f g : Federation} {iri : Iri}

/-- The owner of an identifier is the last member that has it, if there is one. -/
def Follows (f : Federation) (iri : Iri) : Prop :=
  f.owner? iri = (last? f.members iri).map Member.id

/-- Members have what they own. -/
def Holding (f : Federation) : Prop :=
  ∀ iri id, f.owner? iri = some id → ∃ m ∈ f.members, m.id = id ∧ m.has iri = true

theorem get?_claim (owners : SortedMap Iri StoreId) (m : Member) (iri : Iri) :
    (claim owners m).get? iri = if m.has iri then some m.id else owners.get? iri := by
  rw [claim, SortedMap.get?_insertMany_map_const]
  exact if_congr SortedMap.mem_keys_iff rfl rfl

theorem get?_foldl_claim (ms : List Member) (owners : SortedMap Iri StoreId) (iri : Iri) :
    (ms.foldl claim owners).get? iri =
      ((last? ms iri).map Member.id).or (owners.get? iri) := by
  induction ms generalizing owners with
  | nil => rfl
  | cons m ms ih =>
    rw [List.foldl_cons, ih, get?_claim, last?_cons]
    cases last? ms iri <;> cases m.has iri <;> rfl

theorem get?_recordOwners (owners : SortedMap Iri StoreId) (id : StoreId) (d : ResourceDiff)
    (iri : Iri) : (recordOwners owners id d).get? iri =
      if d.deleted.contains iri then none
      else if d.created.contains iri then some id else owners.get? iri := by
  simp only [recordOwners, SortedMap.get?_foldl_erase, SortedMap.get?_insertMany_map_const,
    SortedMap.mem_keys_iff]

end

/-! ## Commits -/

/-- One operation that was carried out : by which of the members, and what it did. -/
structure Commit where
  earlier : List Member
  member : Member
  later : List Member
  diff : ResourceDiff

namespace Commit

variable {c : Commit} {f f' : Federation} {iri : Iri}

/-- A commit crosses other members at an identifier when it creates one that a later member
has, or deletes one that any other member has. -/
def Crosses (c : Commit) (iri : Iri) : Prop :=
  (c.diff.created.contains iri = true ∧ ∃ m ∈ c.later, m.has iri = true) ∨
    c.diff.deleted.contains iri = true ∧ ∃ m ∈ c.earlier ++ c.later, m.has iri = true

instance (c : Commit) (iri : Iri) : Decidable (c.Crosses iri) :=
  inferInstanceAs (Decidable (_ ∨ _))

/-- The commit by the member at a place. -/
def ofPlace (ms : List Member) (i : Fin ms.length) (d : ResourceDiff) : Commit :=
  ⟨ms.take i, ms.get i, ms.drop (i + 1), d⟩

/-- What a commit does to members and owners. -/
structure Leads (c : Commit) (f f' : Federation) : Prop where
  before : f.members = c.earlier ++ c.member :: c.later
  after : ∃ m, m.id = c.member.id ∧ f'.members = c.earlier ++ m :: c.later ∧
    ∀ iri, m.has iri = true ↔ c.diff.created.contains iri = true ∨
      c.member.has iri = true ∧ c.diff.deleted.contains iri = false
  owners : f'.owners = recordOwners f.owners c.member.id c.diff
  apart : ∀ iri, c.diff.created.contains iri = true → c.diff.deleted.contains iri = false

theorem Leads.owner?_eq (h : c.Leads f f') (iri : Iri) : f'.owner? iri =
    if c.diff.deleted.contains iri then none
    else if c.diff.created.contains iri then some c.member.id else f.owner? iri := by
  rw [Federation.owner?, h.owners, get?_recordOwners, ← Federation.owner?]

/-- What was deleted has no owner, so no other member may have it. -/
theorem Leads.follows_iff_of_deleted (h : c.Leads f f')
    (hdel : c.diff.deleted.contains iri = true) :
    f'.Follows iri ↔ ∀ n ∈ c.earlier ++ c.later, n.has iri = false := by
  obtain ⟨m, -, hafter, hhas⟩ := h.after
  have hm : m.has iri = false := Bool.eq_false_iff.mpr fun hm => by
    rcases (hhas iri).mp hm with hcr | ⟨-, hkept⟩
    · simp [h.apart iri hcr] at hdel
    · simp [hkept] at hdel
  rw [Follows, h.owner?_eq, if_pos hdel, hafter, eq_comm, Option.map_eq_none_iff, last?_eq_none_iff]
  simp [hm, or_imp, forall_and]

/-- What was created belongs to the member, so no member after it with another handle may be the
last one to have it. -/
theorem Leads.follows_iff_of_created (h : c.Leads f f')
    (hcr : c.diff.created.contains iri = true) :
    f'.Follows iri ↔ ∀ n, last? c.later iri = some n → n.id = c.member.id := by
  obtain ⟨m, hid, hafter, hhas⟩ := h.after
  have hm : m.has iri = true := (hhas iri).mpr (Or.inl hcr)
  rw [Follows, h.owner?_eq, if_neg (by simp [h.apart iri hcr]), if_pos hcr, hafter, last?_amid,
    if_pos hm, Option.some_or]
  cases last? c.later iri with
  | none => simp [hid]
  | some n => simp [eq_comm]

/-- At other identifiers nothing changes. -/
theorem Leads.follows_of_untouched (h : c.Leads f f') (hf : f.Follows iri)
    (hdel : c.diff.deleted.contains iri = false) (hcr : c.diff.created.contains iri = false) :
    f'.Follows iri := by
  obtain ⟨m, hid, hafter, hhas⟩ := h.after
  have hm : m.has iri = c.member.has iri := Bool.eq_iff_iff.mpr <|
    (hhas iri).trans (by simp [hdel, hcr])
  rw [Follows, h.before, last?_amid] at hf
  rw [Follows, h.owner?_eq, if_neg (by simp [hdel]), if_neg (by simp [hcr]), hf, hafter,
    last?_amid, hm]
  cases last? c.later iri <;> cases c.member.has iri <;> simp [hid]

/-- The owner of an identifier follows after an operation exactly when no other member has what
the operation deleted there, and no later member with another handle is in front of what it
created there. -/
theorem Leads.follows_iff (h : c.Leads f f') (hf : f.Follows iri) :
    f'.Follows iri ↔
      (c.diff.deleted.contains iri = true → ∀ n ∈ c.earlier ++ c.later, n.has iri = false) ∧
      (c.diff.created.contains iri = true →
        ∀ n, last? c.later iri = some n → n.id = c.member.id) := by
  cases hdel : c.diff.deleted.contains iri with
  | true =>
    have hcr : c.diff.created.contains iri = false := Bool.eq_false_iff.mpr fun hcr => by
      simp [h.apart iri hcr] at hdel
    rw [h.follows_iff_of_deleted hdel, hcr]
    simp
  | false =>
    cases hcr : c.diff.created.contains iri with
    | true =>
      rw [h.follows_iff_of_created hcr]
      simp
    | false => simpa using h.follows_of_untouched hf hdel hcr

/-- The owner follows after an operation that does not cross other members. -/
theorem Leads.follows_of_not_crosses (h : c.Leads f f') (hf : f.Follows iri)
    (hcross : ¬ c.Crosses iri) : f'.Follows iri := by
  obtain ⟨hcreated, hdeleted⟩ := not_or.mp hcross
  refine (h.follows_iff hf).mpr ⟨fun hdel n hn => ?_, fun hcr n hlast => ?_⟩
  · exact Bool.eq_false_iff.mpr fun hhas => hdeleted ⟨hdel, n, hn, hhas⟩
  · exact absurd ⟨hcr, n, last?_eq_some hlast⟩ hcreated

/-- Members have what they own also after an operation, whether it crosses others or not. -/
theorem Leads.holding (h : c.Leads f f') (hf : f.Holding) : f'.Holding := by
  obtain ⟨m, hid, hafter, hhas⟩ := h.after
  intro iri id howner
  rw [h.owner?_eq] at howner
  rw [hafter]
  split at howner
  · simp at howner
  rename_i hdel
  have hself : m ∈ c.earlier ++ m :: c.later := by simp
  split at howner
  · rename_i hcr
    exact ⟨m, hself, hid.trans (Option.some.inj howner), (hhas iri).mpr (Or.inl hcr)⟩
  · obtain ⟨n, hn, hnid, hnhas⟩ := hf iri id howner
    rw [h.before, List.mem_append, List.mem_cons] at hn
    rcases hn with hn | rfl | hn
    · exact ⟨n, List.mem_append_left _ hn, hnid, hnhas⟩
    · exact ⟨m, hself, hid.trans hnid, (hhas iri).mpr (Or.inr ⟨hnhas, by simpa using hdel⟩)⟩
    · exact ⟨n, List.mem_append_right _ (List.mem_cons_of_mem _ hn), hnid, hnhas⟩

end Commit

/-- What a state has after an operation was applied to it. -/
theorem contains_of_applyTo {s : Store} {state state' : StoreState} {now : Instant}
    {op : Operation} {d : ResourceDiff} (h : s.applyTo state now op = .ok (d, state')) (iri : Iri) :
    state'.resources.contains iri = true ↔ d.created.contains iri = true ∨
      state.resources.contains iri = true ∧ d.deleted.contains iri = false := by
  obtain ⟨m, hrun, rfl⟩ := Store.applyTo_eq_ok h
  have hdisjoint := ResourceDiff.isDisjoint_iff.mp (Store.isDisjoint_of_applyTo h)
  exact ResourceDiff.contains_applyTo fun hc =>
    ⟨Execution.changesOnly_of_run hrun iri hc, hdisjoint.2 iri hc⟩

/-- The commit of an operation at a place, if it is carried out. -/
def commitsAt (f : Federation) (now : Instant) (op : Operation)
    (place : Except StoreError (Fin f.members.length)) : List Commit :=
  match place, f.applyAt now op place with
  | .ok i, .ok (d, _) => [.ofPlace f.members i d]
  | _, _ => []

theorem commitOn_eq_ok {f f' : Federation} {now : Instant} {i : Fin f.members.length}
    {op : Operation} {d : ResourceDiff} (h : f.commitOn now i op = .ok (d, f')) :
    ∃ state, (f.members.get i).store.applyTo (f.members.get i).store.state now op =
        .ok (d, state) ∧
      f' = { f with
        members := f.members.set i
          { f.members.get i with store := (f.members.get i).store.withState state }
        owners := recordOwners f.owners (f.members.get i).id d } := by
  unfold commitOn at h
  simp only at h
  split at h
  · simp at h
  rename_i d' store happly
  obtain ⟨rfl, rfl⟩ := Prod.mk.inj (Except.ok.inj h)
  obtain ⟨⟨d, state⟩, hstate, heq⟩ := Except.map_eq_ok.mp happly
  obtain ⟨rfl, rfl⟩ := Prod.mk.inj heq
  exact ⟨state, hstate, rfl⟩

/-- An operation that is carried out does what its commit says. -/
theorem leads_applyAt {f f' : Federation} {now : Instant} {op : Operation} {d : ResourceDiff}
    {place : Except StoreError (Fin f.members.length)}
    (h : f.applyAt now op place = .ok (d, f')) :
    ∃ c, f.commitsAt now op place = [c] ∧ c.Leads f f' := by
  cases place with
  | error e => simp [applyAt] at h
  | ok i =>
    refine ⟨.ofPlace f.members i d, by simp [commitsAt, h], ?_⟩
    obtain ⟨⟨d, g⟩, hcommit, heq⟩ := Except.map_eq_ok.mp h
    obtain ⟨rfl, rfl⟩ := Prod.mk.inj heq
    obtain ⟨state, hstate, rfl⟩ := commitOn_eq_ok hcommit
    have hdisjoint := ResourceDiff.isDisjoint_iff.mp (Store.isDisjoint_of_applyTo hstate)
    refine ⟨by simp [Commit.ofPlace],
      ⟨{ f.members.get i with store := (f.members.get i).store.withState state }, rfl, ?_,
        contains_of_applyTo hstate⟩, rfl, fun iri hc => (hdisjoint.1 iri hc).2⟩
    simp [publish, Commit.ofPlace, List.set_eq_take_append_cons_drop]

/-- Commits that lead from one federation to another, one after the other. -/
inductive Series : List Commit → Federation → Federation → Prop
  | nil (f : Federation) : Series [] f f
  | cons {c : Commit} {cs : List Commit} {f g h : Federation} (hc : c.Leads f g)
      (hcs : Series cs g h) : Series (c :: cs) f h

/-! ## Runs -/

/-- What can be asked of a federation that changes its members, their resources or the
owners. -/
inductive Command where
  | add (name : String) (store : Store)
  | remove (id : StoreId)
  | apply (now : Instant) (op : Operation)
  | applyOn (now : Instant) (id : StoreId) (op : Operation)
  | complex (clock : Nat → Instant) (ops : List Operation)

/-- The federation that a computation ends in, or the one before if it fails. -/
def outcome {ε α : Type} (f : Federation) : Except ε (α × Federation) → Federation
  | .ok (_, g) => g
  | .error _ => f

theorem outcome_cases {ε α : Type} (f : Federation) (x : Except ε (α × Federation)) :
    (∃ a, x = .ok (a, f.outcome x)) ∨ (∃ e, x = .error e) ∧ f.outcome x = f := by
  cases x with
  | error e => exact Or.inr ⟨⟨e, rfl⟩, rfl⟩
  | ok r => exact Or.inl ⟨r.1, rfl⟩

/-- The federation after a command : a refusal leaves it as it is. -/
def attempt (f : Federation) : Command → Federation
  | .add name s => f.outcome (f.addStore name s)
  | .remove id => f.outcome (f.removeStore id)
  | .apply now op => f.outcome (f.apply now op)
  | .applyOn now id op => f.outcome (f.applyOn now id op)
  | .complex clock ops => (f.applyAll clock ops).2

/-- The federation after commands one after the other. -/
def attemptAll (f : Federation) (cs : List Command) : Federation := cs.foldl attempt f

/-- The commits of operations one after the other, from the `n`-th on. -/
def commitsEach (f : Federation) (clock : Nat → Instant) : Nat → List Operation → List Commit
  | _, [] => []
  | n, op :: rest =>
    f.commitsAt (clock n) op (route f.members f.owners op) ++
      (f.outcome (f.apply (clock n) op)).commitsEach clock (n + 1) rest

/-- The commits of a command. A complex operation that fails has none. -/
def commits (f : Federation) : Command → List Commit
  | .add _ _ | .remove _ => []
  | .apply now op => f.commitsAt now op (route f.members f.owners op)
  | .applyOn now id op => f.commitsAt now op (place? f.members id)
  | .complex clock ops => if (f.applyAll clock ops).1.isOk then f.commitsEach clock 0 ops else []

/-- Whether a command takes a member out, for then the owners are found anew. -/
def recounts (f : Federation) : Command → Bool
  | .remove id => (f.removeStore id).isOk
  | _ => false

/-- The commits of a run since the owners were last found anew, after those of `done`. -/
def commitsAll (f : Federation) (done : List Commit) : List Command → List Commit
  | [] => done
  | c :: cs => (f.attempt c).commitsAll (if f.recounts c then [] else done ++ f.commits c) cs

section

variable {f g : Federation} {iri : Iri}

/-- The same members in states that agree, with the same owners. -/
structure Alike (f g : Federation) : Prop where
  members : List.Forall₂ Member.Agrees f.members g.members
  owners : f.owners = g.owners

theorem Alike.refl (f : Federation) : f.Alike f :=
  ⟨List.forall₂_same.mpr fun m _ => .refl m, rfl⟩

theorem series_commitsAt (f : Federation) (now : Instant) (op : Operation)
    (place : Except StoreError (Fin f.members.length)) :
    Series (f.commitsAt now op place) f (f.outcome (f.applyAt now op place)) := by
  cases h : f.applyAt now op place with
  | error e =>
    have hnone : f.commitsAt now op place = [] := by cases place <;> simp [commitsAt, h]
    rw [hnone]
    exact .nil f
  | ok r =>
    obtain ⟨c, hc, hleads⟩ := leads_applyAt h
    rw [hc]
    exact .cons hleads (.nil r.2)

theorem series_commitsEach (clock : Nat → Instant) :
    ∀ (n : Nat) {f g : Federation} (ops : List Operation), f.applyEach clock n ops = .ok g →
      Series (f.commitsEach clock n ops) f g
  | n, f, g, [], h => by
    obtain rfl : f = g := Except.ok.inj h
    exact .nil f
  | n, f, g, op :: rest, h => by
    rw [applyEach] at h
    rw [commitsEach]
    split at h
    · simp at h
    rename_i d f' happly
    obtain ⟨c, hc, hleads⟩ := leads_applyAt happly
    rw [hc, happly]
    exact .cons hleads (series_commitsEach clock (n + 1) rest h)

/-- A complex operation leads where its operations do. -/
theorem series_applyAll (f : Federation) (clock : Nat → Instant) (ops : List Operation) :
    ∃ g, Series (f.commits (.complex clock ops)) f g ∧ (f.applyAll clock ops).2.Alike g := by
  obtain ⟨e, hg, -⟩ | ⟨⟨d, g⟩, f', hg, hf, h⟩ :=
    Staging.related_applyAll clock clock 0 .empty ops (.start f)
  · simp only [commits, applyAll, hg]
    exact ⟨f, .nil f, .refl f⟩
  · have hs := series_commitsEach clock 0 ops hf
    simp only [commits, applyAll, hg]
    exact ⟨f', hs, h.members, h.owners⟩

/-- A command registers a member, takes one out, or carries out operations. -/
theorem attempt_cases (f : Federation) (c : Command) :
    (f.commits c = [] ∧ f.recounts c = false ∧
      ∃ name s id, f.addStore name s = .ok (id, f.attempt c)) ∨
    (f.commits c = [] ∧ ∃ id m, f.removeStore id = .ok (m, f.attempt c)) ∨
    f.recounts c = false ∧ ∃ g, Series (f.commits c) f g ∧ (f.attempt c).Alike g := by
  cases c with
  | add name s =>
    obtain ⟨id, h⟩ | ⟨-, hsame⟩ := outcome_cases f (f.addStore name s)
    · exact Or.inl ⟨rfl, rfl, name, s, id, h⟩
    · exact Or.inr (Or.inr ⟨rfl, f, .nil f, (congrArg (Alike · f) hsame).mpr (.refl f)⟩)
  | remove id =>
    obtain ⟨m, h⟩ | ⟨⟨e, h⟩, hsame⟩ := outcome_cases f (f.removeStore id)
    · exact Or.inr (Or.inl ⟨rfl, id, m, h⟩)
    · exact Or.inr (Or.inr ⟨congrArg Except.isOk h, f, .nil f,
        (congrArg (Alike · f) hsame).mpr (.refl f)⟩)
  | apply now op => exact Or.inr (Or.inr ⟨rfl, _, series_commitsAt f now op _, .refl _⟩)
  | applyOn now id op => exact Or.inr (Or.inr ⟨rfl, _, series_commitsAt f now op _, .refl _⟩)
  | complex clock ops => exact Or.inr (Or.inr ⟨rfl, series_applyAll f clock ops⟩)

/-! ## The owners of a run -/

theorem follows_empty (iri : Iri) : empty.Follows iri := rfl

theorem holding_empty : empty.Holding := fun iri id h => by
  simp [owner?, empty] at h

/-- A registered member comes last, and takes over what it has. -/
theorem addStore_eq_ok {name : String} {s : Store} {id : StoreId}
    (h : f.addStore name s = .ok (id, g)) :
    ∃ m : Member, g.members = f.members ++ [m] ∧
      ∀ iri, g.owner? iri = if m.has iri then some m.id else f.owner? iri := by
  unfold addStore at h
  split at h
  · simp at h
  obtain ⟨-, rfl⟩ := Prod.mk.inj (Except.ok.inj h)
  exact ⟨_, rfl, get?_claim f.owners _⟩

theorem follows_added {name : String} {s : Store} {id : StoreId}
    (h : f.addStore name s = .ok (id, g)) (hf : f.Follows iri) : g.Follows iri := by
  obtain ⟨m, hmembers, howner⟩ := addStore_eq_ok h
  rw [Follows, howner, hf, hmembers, last?_amid]
  cases m.has iri <;> rfl

theorem holding_added {name : String} {s : Store} {id : StoreId}
    (h : f.addStore name s = .ok (id, g)) (hf : f.Holding) : g.Holding := by
  obtain ⟨m, hmembers, howner⟩ := addStore_eq_ok h
  intro iri id hget
  rw [howner] at hget
  rw [hmembers]
  split at hget
  · rename_i hhas
    exact ⟨m, by simp, Option.some.inj hget, hhas⟩
  · obtain ⟨n, hn, hn'⟩ := hf iri id hget
    exact ⟨n, List.mem_append_left _ hn, hn'⟩

/-- When a member is taken out the owners are found anew. -/
theorem follows_removed {id : StoreId} {m : Member} (h : f.removeStore id = .ok (m, g))
    (iri : Iri) : g.Follows iri := by
  unfold removeStore at h
  split at h
  · simp at h
  obtain ⟨-, rfl⟩ := Prod.mk.inj (Except.ok.inj h)
  rw [Follows, owner?, get?_foldl_claim]
  simp

theorem holding_removed {id : StoreId} {m : Member} (h : f.removeStore id = .ok (m, g)) :
    g.Holding := fun iri id howner => by
  rw [follows_removed h iri] at howner
  obtain ⟨m, hm, hid⟩ := Option.map_eq_some_iff.mp howner
  exact ⟨m, (last?_eq_some hm).1, hid, (last?_eq_some hm).2⟩

theorem Series.holding {cs : List Commit} (h : Series cs f g) (hf : f.Holding) : g.Holding := by
  induction h with
  | nil f => exact hf
  | cons hc _ ih => exact ih (hc.holding hf)

theorem Series.follows {cs : List Commit} (h : Series cs f g)
    (hcross : ∀ c ∈ cs, ¬ c.Crosses iri) (hf : f.Follows iri) : g.Follows iri := by
  induction h with
  | nil f => exact hf
  | cons hc _ ih =>
    obtain ⟨hfirst, hrest⟩ := List.forall_mem_cons.mp hcross
    exact ih hrest (hc.follows_of_not_crosses hf hfirst)

/-- What owners depend on : the handles of the members, and what each of them has. -/
theorem Alike.map_has (h : f.Alike g) :
    f.members.map (fun m => (m.id, m.has)) = g.members.map fun m => (m.id, m.has) := by
  rw [← List.forall₂_eq_eq_eq, List.forall₂_map_left_iff, List.forall₂_map_right_iff]
  exact h.members.imp fun m n hmn => Prod.ext hmn.id <| funext fun iri =>
    congrArg (SortedMap.contains · iri) hmn.state.resources

theorem last?_map_id (ms : List Member) (iri : Iri) : (last? ms iri).map Member.id =
    ((ms.map fun m => (m.id, m.has)).reverse.find? fun p => p.2 iri).map Prod.fst := by
  rw [last?, ← List.map_reverse, List.find?_map, Option.map_map]
  rfl

theorem Alike.follows_iff (h : f.Alike g) : f.Follows iri ↔ g.Follows iri := by
  rw [Follows, owner?, h.owners, last?_map_id, h.map_has, ← last?_map_id]
  rfl

theorem Alike.holding (h : f.Alike g) (hg : g.Holding) : f.Holding := by
  intro iri id howner
  rw [owner?, h.owners] at howner
  obtain ⟨n, hn, hid, hhas⟩ := hg iri id howner
  have hmem : (n.id, n.has) ∈ f.members.map fun m => (m.id, m.has) :=
    h.map_has ▸ List.mem_map_of_mem hn
  obtain ⟨m, hm, heq⟩ := List.mem_map.mp hmem
  obtain ⟨hmid, hmhas⟩ := Prod.mk.inj heq
  exact ⟨m, hm, hmid.trans hid, hmhas ▸ hhas⟩

theorem holding_attempt (hf : f.Holding) (c : Command) : (f.attempt c).Holding := by
  obtain ⟨-, -, name, s, id, h⟩ | ⟨-, id, m, h⟩ | ⟨-, g, hseries, halike⟩ := attempt_cases f c
  · exact holding_added h hf
  · exact holding_removed h
  · exact halike.holding (hseries.holding hf)

/-- The owner of an identifier follows after a command that finds the owners anew, and after
one that does not cross members there if it followed before. -/
theorem follows_attempt (c : Command)
    (h : f.recounts c = false → f.Follows iri ∧ ∀ k ∈ f.commits c, ¬ k.Crosses iri) :
    (f.attempt c).Follows iri := by
  obtain ⟨-, hre, name, s, id, hadd⟩ | ⟨-, id, m, hremove⟩ | ⟨hre, g, hseries, halike⟩ :=
    attempt_cases f c
  · exact follows_added hadd (h hre).1
  · exact follows_removed hremove iri
  · exact halike.follows_iff.mpr (hseries.follows (h hre).2 (h hre).1)

/-- The owner of an identifier follows after commands if it does before them unless some of
`done` cross members there, and none of `done` and of the commands do since the owners were
last found anew. -/
theorem follows_attemptAll : ∀ (cs : List Command) {f : Federation} (done : List Commit),
    ((∀ c ∈ done, ¬ c.Crosses iri) → f.Follows iri) →
    (∀ c ∈ f.commitsAll done cs, ¬ c.Crosses iri) → (f.attemptAll cs).Follows iri
  | [], f, done, h, hcross => h hcross
  | c :: cs, f, done, h, hcross => by
    refine follows_attemptAll cs _ (fun hdone => ?_) hcross
    refine follows_attempt c fun hre => ?_
    rw [if_neg (hre ▸ Bool.false_ne_true), List.forall_mem_append] at hdone
    exact ⟨h hdone.1, hdone.2⟩

theorem holding_attemptAll (cs : List Command) (hf : f.Holding) : (f.attemptAll cs).Holding :=
  List.foldlRecOn cs attempt hf fun _ hf c _ => holding_attempt hf c

end

/-- After any commands a resource is read from the last member that has it, and an owner has
what it owns. If no operation since a member was last taken out has crossed members at an
identifier, its owner is the member that it is read from, and it has no owner exactly when no
member has it. -/
theorem owner?_attemptAll (cs : List Command) (iri : Iri) :
    (empty.attemptAll cs).read? iri =
      (last? (empty.attemptAll cs).members iri).bind (fun m => m.store.read? iri) ∧
    (∀ id, (empty.attemptAll cs).owner? iri = some id →
      ∃ m ∈ (empty.attemptAll cs).members, m.id = id ∧ m.has iri = true) ∧
    ((∀ c ∈ empty.commitsAll [] cs, ¬ c.Crosses iri) →
      (empty.attemptAll cs).owner? iri =
        (last? (empty.attemptAll cs).members iri).map Member.id ∧
      ((empty.attemptAll cs).owner? iri = none ↔
        ∀ m ∈ (empty.attemptAll cs).members, m.has iri = false)) := by
  refine ⟨read?_eq_last? _ iri, holding_attemptAll cs holding_empty iri, fun hcross => ?_⟩
  have hfollows := follows_attemptAll cs [] (fun _ => follows_empty iri) hcross
  refine ⟨hfollows, ?_⟩
  rw [hfollows, Option.map_eq_none_iff, last?_eq_none_iff]

/-- Two members with the same base have a schema each, with the same identifier. That of the
newer one is in front until its member is taken out, and the older one is used again. -/
def shadowing : List Command :=
  [.add "older" (.new "b"),
    .apply .epoch (.create .structuralSchema none .empty),
    .add "newer" ((Store.new "b").attempt .epoch (.create .structuralSchema none .empty)),
    .apply .epoch (.setRoots "b/psm-schema/1" []),
    .remove ⟨1⟩,
    .apply .epoch (.setRoots "b/psm-schema/1" []),
    .complex (fun _ => .epoch) [.create .structuralSchema none .empty, .delete "b/psm-schema/2"]]

/-- No operation of this run crosses members there since the newer one was taken out. -/
theorem owner?_attemptAll_shadowing :
    (∀ c ∈ empty.commitsAll [] shadowing, ¬ c.Crosses "b/psm-schema/1") ∧
    (empty.attemptAll shadowing).owner? "b/psm-schema/1" =
      (last? (empty.attemptAll shadowing).members "b/psm-schema/1").map Member.id ∧
    (empty.attemptAll shadowing).owner? "b/psm-schema/1" = some ⟨0⟩ :=
  have hcross : ∀ c ∈ empty.commitsAll [] shadowing, ¬ c.Crosses "b/psm-schema/1" := by
    decide +kernel
  ⟨hcross, ((owner?_attemptAll shadowing "b/psm-schema/1").2.2 hcross).1, by decide +kernel⟩

/-- Here the newer schema is deleted, which crosses the older member. -/
def deletion : List Command :=
  [.add "older" (.new "b"), .add "newer" (.new "b"),
    .applyOn .epoch ⟨0⟩ (.create .structuralSchema none .empty),
    .applyOn .epoch ⟨1⟩ (.create .structuralSchema none .empty),
    .apply .epoch (.delete "b/psm-schema/1")]

/-- The older schema can be read but has no owner. -/
theorem owner?_attemptAll_ne :
    (empty.attemptAll deletion).owner? "b/psm-schema/1" = none ∧
    (last? (empty.attemptAll deletion).members "b/psm-schema/1").map Member.id = some ⟨0⟩ := by
  decide +kernel

end Federation

end DataSpec
