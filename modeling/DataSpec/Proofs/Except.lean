import Mathlib.Data.List.Forall2

/-!
# Computations that may fail

When a computation of several steps succeeds all of its steps did, and when it fails one of
them did. Proofs about such computations take them apart with these equivalences, and have
no case for the failure that was excluded.

`Except.Fails P` says that a computation fails only in ways that satisfy `P`,
`Except.Settles A P` also that it succeeds only if `A` holds, and `Except.Related R` compares
the outcomes of two computations.
-/

set_option autoImplicit false

namespace Except

universe u

variable {ε : Type u} {α β : Type}

theorem bind_eq_ok {x : Except ε α} {f : α → Except ε β} {b : β} :
    x.bind f = .ok b ↔ ∃ a, x = .ok a ∧ f a = .ok b := by
  cases x <;> simp [Except.bind]

theorem map_eq_ok {x : Except ε α} {f : α → β} {b : β} :
    x.map f = .ok b ↔ ∃ a, x = .ok a ∧ f a = b := by
  cases x <;> simp [Except.map]

theorem map_eq_error {x : Except ε α} {f : α → β} {e : ε} :
    x.map f = .error e ↔ x = .error e := by
  cases x <;> simp [Except.map]

/-! ## Lists of computations -/

/-- The first result comes before those of the rest. -/
theorem mapM_cons_eq_ok {f : α → Except ε β} {a : α} {l : List α} {bs : List β} :
    (a :: l).mapM f = .ok bs ↔ ∃ b bs', f a = .ok b ∧ l.mapM f = .ok bs' ∧ bs = b :: bs' := by
  rw [List.mapM_cons]
  constructor
  · intro h
    obtain ⟨b, hb, h⟩ := bind_eq_ok.mp h
    obtain ⟨bs', hbs, h⟩ := bind_eq_ok.mp h
    exact ⟨b, bs', hb, hbs, (Except.ok.inj h).symm⟩
  · rintro ⟨b, bs', hb, hbs, rfl⟩
    rw [hb, hbs]
    rfl

/-- Results belong to the elements of the list, in order. -/
theorem mapM_eq_ok_iff {f : α → Except ε β} :
    ∀ {l : List α} {bs : List β}, l.mapM f = .ok bs ↔ List.Forall₂ (fun a b => f a = .ok b) l bs
  | [], bs => by
    rw [List.forall₂_nil_left_iff]
    exact ⟨fun h => (Except.ok.inj h).symm, fun h => h ▸ rfl⟩
  | a :: l, bs => by
    rw [mapM_cons_eq_ok, List.forall₂_cons_left_iff]
    exact ⟨fun ⟨b, bs', hb, hl, h⟩ => ⟨b, bs', hb, mapM_eq_ok_iff.mp hl, h⟩,
      fun ⟨b, bs', hb, hl, h⟩ => ⟨b, bs', hb, mapM_eq_ok_iff.mpr hl, h⟩⟩

/-- There are results if each element has one. -/
theorem exists_mapM_eq_ok_iff {f : α → Except ε β} :
    ∀ {l : List α}, (∃ bs, l.mapM f = .ok bs) ↔ ∀ a ∈ l, ∃ b, f a = .ok b
  | [] => iff_of_true ⟨[], rfl⟩ nofun
  | a :: l => by
    rw [List.forall_mem_cons, ← exists_mapM_eq_ok_iff (l := l)]
    constructor
    · rintro ⟨_, h⟩
      obtain ⟨b, bs, hb, hl, -⟩ := mapM_cons_eq_ok.mp h
      exact ⟨⟨b, hb⟩, bs, hl⟩
    · rintro ⟨⟨b, hb⟩, bs, hl⟩
      exact ⟨b :: bs, mapM_cons_eq_ok.mpr ⟨b, bs, hb, hl, rfl⟩⟩

/-- A result comes from an element. -/
theorem exists_of_mem_mapM {f : α → Except ε β} {b : β} :
    ∀ {l : List α} {bs : List β}, l.mapM f = .ok bs → b ∈ bs → ∃ a ∈ l, f a = .ok b
  | [], bs, h, hb => by
    obtain rfl : [] = bs := Except.ok.inj h
    simp at hb
  | a :: l, bs, h, hb => by
    obtain ⟨b', bs', ha, hl, rfl⟩ := mapM_cons_eq_ok.mp h
    rcases List.mem_cons.mp hb with rfl | hb
    · exact ⟨a, List.mem_cons_self, ha⟩
    · obtain ⟨a', ha', hf⟩ := exists_of_mem_mapM hl hb
      exact ⟨a', List.mem_cons_of_mem _ ha', hf⟩

/-- An element has a result. -/
theorem exists_mem_of_mapM {f : α → Except ε β} {a : α} :
    ∀ {l : List α} {bs : List β}, l.mapM f = .ok bs → a ∈ l → ∃ b ∈ bs, f a = .ok b
  | [], _, _, ha => by simp at ha
  | a' :: l, bs, h, ha => by
    obtain ⟨b, bs', hb, hl, rfl⟩ := mapM_cons_eq_ok.mp h
    rcases List.mem_cons.mp ha with rfl | ha
    · exact ⟨b, List.mem_cons_self, hb⟩
    · obtain ⟨b', hb', hf⟩ := exists_mem_of_mapM hl ha
      exact ⟨b', List.mem_cons_of_mem _ hb', hf⟩

/-- What is read from the results is what is read from the elements. -/
theorem flatMap_of_mapM {γ : Type} {f : α → Except ε β} {g : β → List γ} {h : α → List γ} :
    ∀ {l : List α} {bs : List β}, (∀ a ∈ l, ∀ b, f a = .ok b → g b = h a) → l.mapM f = .ok bs →
      bs.flatMap g = l.flatMap h
  | [], bs, _, hbs => by
    obtain rfl : [] = bs := Except.ok.inj hbs
    rfl
  | a :: l, bs, hgh, hbs => by
    obtain ⟨b, bs', hb, hl, rfl⟩ := mapM_cons_eq_ok.mp hbs
    rw [List.forall_mem_cons] at hgh
    rw [List.flatMap_cons, List.flatMap_cons, hgh.1 b hb, flatMap_of_mapM hgh.2 hl]

/-- The first step comes before the rest. -/
theorem foldlM_cons_eq_ok {f : β → α → Except ε β} {a : α} {l : List α} {b b' : β} :
    (a :: l).foldlM f b = .ok b' ↔ ∃ b₁, f b a = .ok b₁ ∧ l.foldlM f b₁ = .ok b' := by
  rw [List.foldlM_cons]
  exact bind_eq_ok

/-- Nothing fails if no element does. -/
theorem forM_eq_ok {f : α → Except ε Unit} :
    ∀ {l : List α}, l.forM f = .ok () ↔ ∀ a ∈ l, f a = .ok ()
  | [] => iff_of_true rfl nofun
  | a :: l => by
    have h : (a :: l).forM f = (f a).bind fun _ => l.forM f := rfl
    rw [List.forall_mem_cons, ← forM_eq_ok, h, bind_eq_ok]
    exact ⟨fun ⟨_, ha, hl⟩ => ⟨ha, hl⟩, fun h => ⟨(), h⟩⟩

/-- A fold keeps what each of its steps keeps. -/
theorem keeps_of_foldlM {P : β → Prop} {f : β → α → Except ε β}
    (step : ∀ {b a b'}, P b → f b a = .ok b' → P b') :
    ∀ {l : List α} {b b' : β}, P b → l.foldlM f b = .ok b' → P b'
  | [], _, _, hb, h => Except.ok.inj h ▸ hb
  | a :: l, b, b', hb, h => by
    obtain ⟨b₁, hb₁, h⟩ := foldlM_cons_eq_ok.mp h
    exact keeps_of_foldlM step (step hb hb₁) h

/-- A fold each of whose steps changes nothing changes nothing. -/
theorem foldlM_eq_self {f : β → α → Except ε β} {b : β} :
    ∀ {l : List α}, (∀ a ∈ l, f b a = .ok b) → l.foldlM f b = .ok b
  | [], _ => rfl
  | a :: _, h => foldlM_cons_eq_ok.mpr
    ⟨b, h a List.mem_cons_self, foldlM_eq_self fun a ha => h a (List.mem_cons_of_mem _ ha)⟩

/-- A fold each of whose steps succeeds does so. -/
theorem exists_foldlM_eq_ok {f : β → α → Except ε β} (h : ∀ b a, ∃ b', f b a = .ok b') :
    ∀ (l : List α) (b : β), ∃ b', l.foldlM f b = .ok b'
  | [], b => ⟨b, rfl⟩
  | a :: l, b => by
    obtain ⟨b₁, hb₁⟩ := h b a
    obtain ⟨b', hb'⟩ := exists_foldlM_eq_ok h l b₁
    exact ⟨b', foldlM_cons_eq_ok.mpr ⟨b₁, hb₁, hb'⟩⟩

/-! ## Ways to fail -/

/-- A computation that fails only in ways that satisfy `P`. -/
def Fails (P : ε → Prop) (x : Except ε α) : Prop := ∀ e, x = .error e → P e

namespace Fails

variable {P : ε → Prop}

theorem ok (a : α) : Fails P (.ok a : Except ε α) := nofun

theorem error {e : ε} (h : P e) : Fails P (.error e : Except ε α) := fun _ h' =>
  Except.error.inj h' ▸ h

theorem bind {x : Except ε α} {f : α → Except ε β} (hx : Fails P x)
    (hf : ∀ a, x = .ok a → Fails P (f a)) : Fails P (x.bind f) := by
  cases x with
  | error e => exact error (hx e rfl)
  | ok a => exact hf a rfl

theorem map {x : Except ε α} (hx : Fails P x) (f : α → β) : Fails P (x.map f) := by
  cases x with
  | error e => exact error (hx e rfl)
  | ok a => exact ok (f a)

theorem mapM {f : α → Except ε β} :
    ∀ {l : List α}, (∀ a ∈ l, Fails P (f a)) → Fails P (l.mapM f)
  | [], _ => ok []
  | a :: l, h => by
    rw [List.mapM_cons]
    exact bind (h a List.mem_cons_self) fun b _ =>
      bind (mapM fun a ha => h a (List.mem_cons_of_mem _ ha)) fun bs _ => ok (b :: bs)

end Fails

/-- A computation that succeeds only if `A` holds, and fails only in ways that satisfy `P`. -/
def Settles (A : Prop) (P : ε → Prop) : Except ε α → Prop
  | .ok _ => A
  | .error e => P e

namespace Settles

variable {A B : Prop} {P Q : ε → Prop} {x : Except ε α}

theorem of_ok {a : α} (h : x.Settles A P) (hx : x = .ok a) : A := by
  subst hx
  exact h

theorem of_error {e : ε} (h : x.Settles A P) (hx : x = .error e) : P e := by
  subst hx
  exact h

theorem imp (h : x.Settles A P) (hA : A → B) (hP : ∀ e, P e → Q e) : x.Settles B Q := by
  cases x with
  | error e => exact hP e h
  | ok a => exact hA h

theorem bind {f : α → Except ε β} (hx : x.Settles A P)
    (hf : ∀ a, x = .ok a → (f a).Settles B P) : (x.bind f).Settles B P := by
  cases x with
  | error e => exact hx
  | ok a => exact hf a rfl

theorem map (h : x.Settles A P) (f : α → β) : (x.map f).Settles A P := by
  cases x <;> exact h

end Settles

/-! ## Two computations -/

/-- Both fail in the same way, or both succeed with results that are related. -/
def Related {γ : Type} (R : α → γ → Prop) (x : Except ε α) (y : Except ε γ) : Prop :=
  (∃ e, x = .error e ∧ y = .error e) ∨ ∃ a c, x = .ok a ∧ y = .ok c ∧ R a c

end Except
