import DataSpec.Store.Federation

/-!
# What subscribers hear

A diff is announced as its `numbered` news, and everybody who listens hears those of interest,
in this order (`listener?_publish`). Whoever listens no longer is let go when an event of interest
comes, and nobody else notices : neither that, nor what others take out, nor who comes and goes
under another name changes what is heard under a name.
-/

set_option autoImplicit false
set_option linter.unusedSectionVars false

namespace DataSpec

namespace Subscriber

variable {s s' : Subscriber} {e : ChangeEvent} {es es' : List ChangeEvent} {name : String}

/-- The subscriber with the events of interest among some that were announced. -/
def hear (s : Subscriber) (es : List ChangeEvent) : Subscriber :=
  { s with received := s.received ++ es.filter s.wants }

@[simp]
theorem hear_nil : s.hear [] = s := by simp [hear]

theorem hear_hear : (s.hear es).hear es' = s.hear (es ++ es') := by
  have hwants : (s.hear es).wants = s.wants := rfl
  rw [hear, hwants]
  simp [hear]

/-- A subscriber who listens hears what is announced. -/
theorem offer_of_listening (h : s.listening = true) : s.offer e = some (s.hear [e]) := by
  obtain ⟨name, wanted, received, listening⟩ := s
  obtain rfl : listening = true := h
  cases hw : wants ⟨name, wanted, received, true⟩ e <;> simp [offer, hear, hw]

/-- Events that are sent do not change who listens under which name. -/
theorem listensAs_of_offer (h : s.offer e = some s') : s'.listensAs name = s.listensAs name := by
  unfold offer at h
  split at h
  · obtain rfl := Option.some.inj h
    rfl
  split at h
  · obtain rfl := Option.some.inj h
    rfl
  · nomatch h

theorem listening_of_listensAs (h : s.listensAs name = true) : s.listening = true :=
  (Bool.and_eq_true_iff.mp h).1

theorem listensAs_ne {other : String} (h : s.listensAs name = true) (hne : other ≠ name) :
    s.listensAs other = false := by
  have hname : s.name = name := of_decide_eq_true (Bool.and_eq_true_iff.mp h).2
  simp [listensAs, hname, hne.symm]

end Subscriber

/-- Events about what happened to resources, numbered from `n` on. -/
def ChangeEvent.numbered : UInt64 → List (Iri × ChangeKind × Option Resource) → List ChangeEvent
  | _, [] => []
  | n, x :: rest => ⟨n, x.1, x.2.1, x.2.2⟩ :: numbered (n + 1) rest

open ChangeEvent (numbered)

theorem ChangeEvent.length_numbered (l : List (Iri × ChangeKind × Option Resource)) (n : UInt64) :
    (numbered n l).length = l.length := by
  induction l generalizing n with
  | nil => rfl
  | cons x l ih => simp [numbered, ih]

/-- Numbers one after the other, from `n` on. -/
def ChangeEvent.numbersFrom (n : UInt64) (k : Nat) : List UInt64 :=
  (List.range k).map fun i => n + UInt64.ofNat i

open ChangeEvent (numbersFrom)

theorem ChangeEvent.numbersFrom_add (n : UInt64) (j k : Nat) :
    numbersFrom n (j + k) = numbersFrom n j ++ numbersFrom (n + UInt64.ofNat j) k := by
  rw [numbersFrom, List.range_add, List.map_append, List.map_map]
  refine congrArg (numbersFrom n j ++ ·) (List.map_congr_left fun i _ => ?_)
  rw [Function.comp_apply, UInt64.ofNat_add, UInt64.add_assoc]

theorem ChangeEvent.numbersFrom_one (n : UInt64) : numbersFrom n 1 = [n] := by
  simp [numbersFrom]

theorem ChangeEvent.sequence_numbered (l : List (Iri × ChangeKind × Option Resource))
    (n : UInt64) : (numbered n l).map ChangeEvent.sequence = numbersFrom n l.length := by
  induction l generalizing n with
  | nil => rfl
  | cons x l ih =>
    rw [numbered, List.map_cons, ih, List.length_cons, Nat.add_comm, numbersFrom_add,
      numbersFrom_one]
    rfl

/-- While there is room for them, numbers from zero on are the natural ones. -/
theorem ChangeEvent.toNat_numbersFrom_zero {k : Nat} (h : k ≤ UInt64.size) :
    (numbersFrom 0 k).map UInt64.toNat = List.range k := by
  rw [numbersFrom, List.map_map]
  refine (List.map_congr_left fun i hi => ?_).trans (List.map_id _)
  rw [Function.comp_apply, UInt64.zero_add,
    UInt64.toNat_ofNat_of_lt' (Nat.lt_of_lt_of_le (List.mem_range.mp hi) h), id]

theorem ChangeEvent.news_numbered (l : List (Iri × ChangeKind × Option Resource)) (n : UInt64) :
    (numbered n l).map (fun e => (e.iri, e.kind, e.resource)) = l := by
  induction l generalizing n with
  | nil => rfl
  | cons x l ih => simp [numbered, ih]

namespace Federation

variable {f : Federation} {name other : String}

/-! ## Announcements -/

/-- An event reaches whoever listens under a name. -/
theorem find?_listensAs_offer (e : ChangeEvent) (name : String) (l : List Subscriber) :
    (l.filterMap (Subscriber.offer e)).find? (Subscriber.listensAs name) =
      (l.find? (Subscriber.listensAs name)).map fun s => s.hear [e] := by
  induction l with
  | nil => rfl
  | cons s l ih =>
    cases hs : s.listensAs name with
    | true =>
      have hoffer := Subscriber.offer_of_listening (e := e) (Subscriber.listening_of_listensAs hs)
      rw [List.filterMap_cons_some hoffer, List.find?_cons_of_pos hs]
      exact List.find?_cons_of_pos hs
    | false =>
      rw [List.find?_cons_of_neg (by simp [hs]), ← ih]
      cases ho : s.offer e with
      | none => rw [List.filterMap_cons_none ho]
      | some s' =>
        rw [List.filterMap_cons_some ho, List.find?_cons_of_neg]
        rw [Subscriber.listensAs_of_offer ho, hs]
        exact Bool.false_ne_true

/-- Announcements reach whoever listens under a name. -/
theorem find?_listensAs_foldl_announce (l : List (Iri × ChangeKind × Option Resource))
    (name : String) (s : List Subscriber × UInt64) :
    (l.foldl announce s).1.find? (Subscriber.listensAs name) =
      (s.1.find? (Subscriber.listensAs name)).map fun t => t.hear (numbered s.2 l) := by
  induction l generalizing s with
  | nil => cases h : s.1.find? (Subscriber.listensAs name) <;> simp [numbered, h]
  | cons x l ih =>
    rw [List.foldl_cons, ih (announce s x), announce, find?_listensAs_offer, Option.map_map]
    exact congrArg (fun g => Option.map g _) (funext fun t => Subscriber.hear_hear)

theorem snd_foldl_announce (l : List (Iri × ChangeKind × Option Resource))
    (s : List Subscriber × UInt64) :
    (l.foldl announce s).2 = s.2 + UInt64.ofNat l.length := by
  induction l generalizing s with
  | nil => exact (UInt64.add_zero _).symm
  | cons x l ih =>
    rw [List.foldl_cons, ih (announce s x), announce, List.length_cons, Nat.add_comm,
      UInt64.ofNat_add, UInt64.ofNat_one, UInt64.add_assoc]

/-- Whoever listens hears of a diff. -/
theorem listener?_publish (f : Federation) (d : ResourceDiff) (name : String) :
    (f.publish d).listener? name =
      (f.listener? name).map fun s => s.hear (numbered f.nextSequence (news d)) :=
  find?_listensAs_foldl_announce (news d) name (f.subscribers, f.nextSequence)

theorem nextSequence_publish (f : Federation) (d : ResourceDiff) :
    (f.publish d).nextSequence = f.nextSequence + UInt64.ofNat (news d).length :=
  snd_foldl_announce (news d) (f.subscribers, f.nextSequence)

/-! ## Subscribers that come and go -/

/-- A change that does not concern who listens under a name changes at most what they have. -/
theorem listener?_updateListener {g : Subscriber → Subscriber}
    (hg : ∀ s, s.listensAs other = true → (g s).listensAs name = s.listensAs name) :
    (f.updateListener other g).listener? name =
      (f.listener? name).map fun s => if s.listensAs other then g s else s := by
  unfold listener? updateListener
  rw [List.find?_map]
  refine congrArg (Option.map _) (congrFun (congrArg List.find? (funext fun s => ?_)) _)
  rw [Function.comp_apply]
  split
  · exact hg s ‹_›
  · rfl

theorem listensAs_of_listener? {s : Subscriber} (h : f.listener? name = some s) :
    s.listensAs name = true := List.find?_some h

/-- Nobody listens under a name that was given up. -/
theorem listener?_unsubscribe (f : Federation) (name : String) :
    (f.unsubscribe name).listener? name = none := by
  refine List.find?_eq_none.mpr fun s hs => ?_
  obtain ⟨t, -, rfl⟩ := List.mem_map.mp hs
  split
  · simp [Subscriber.listensAs]
  · assumption

/-- A name that is given up is of no concern under another name. -/
theorem listener?_unsubscribe_of_ne (f : Federation) (h : name ≠ other) :
    (f.unsubscribe other).listener? name = f.listener? name := by
  rw [unsubscribe, listener?_updateListener fun s hs => by
    rw [Subscriber.listensAs_ne hs h, Subscriber.listensAs, Bool.false_and]]
  cases hs : f.listener? name with
  | none => rfl
  | some s =>
    have hs := Subscriber.listensAs_ne (listensAs_of_listener? hs) h.symm
    simp [hs]

/-- A new subscriber has heard of nothing. -/
theorem listener?_subscribe (f : Federation) (name : String) (wanted : Option Iri) :
    (f.subscribe name wanted).listener? name = some ⟨name, wanted, [], true⟩ := by
  have hnone := listener?_unsubscribe f name
  unfold listener? at hnone
  unfold listener? subscribe
  rw [List.find?_append, hnone]
  simp [Subscriber.listensAs]

/-- A new subscriber is of no concern under another name. -/
theorem listener?_subscribe_of_ne (f : Federation) (h : name ≠ other) (wanted : Option Iri) :
    (f.subscribe other wanted).listener? name = f.listener? name := by
  have hother := listener?_unsubscribe_of_ne f h
  unfold listener? at hother
  unfold listener? subscribe
  rw [List.find?_append, hother]
  simp [Subscriber.listensAs, h.symm]

/-- What is taken out under a name is gone under this name only. -/
theorem listener?_of_drain {es : List ChangeEvent} {g : Federation}
    (h : f.drain other = some (es, g)) (name : String) :
    g.listener? name = (f.listener? name).map fun s =>
      if name = other then { s with received := [] } else s := by
  obtain ⟨s, hs, heq⟩ := Option.map_eq_some_iff.mp h
  obtain ⟨rfl, rfl⟩ := Prod.mk.inj heq
  have hclear : ∀ s : Subscriber, s.listensAs other = true →
      Subscriber.listensAs name { s with received := [] } = s.listensAs name := fun _ _ => rfl
  rw [listener?_updateListener hclear]
  cases ht : f.listener? name with
  | none => rfl
  | some t =>
    have ht := listensAs_of_listener? ht
    by_cases hne : name = other
    · subst hne
      simp [ht]
    · simp [hne, Subscriber.listensAs_ne ht (Ne.symm hne)]

end Federation

end DataSpec
