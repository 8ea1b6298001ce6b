import DataSpec.Proofs.SortedMap
import DataSpec.Proofs.Store.Ownership
import DataSpec.Proofs.Store.Subscribers

/-!
# Announcements over a run

A federation goes through commands while subscribers come, take out what they have received, and
go (`Move`). What a move publishes is the numbered news of the diff that it returns, or nothing
(`published`). The step lemmas say what a move does to the next number and to whoever listens
under a name; both carry over to runs, since the events of a run are those of its moves one after
the other.

So events are numbered from zero without gaps, up to the size of the numbers, and what a
subscriber has taken out and can still take out is what was published since it came and is of
interest to it, in order (`hears_publishedAll`).
-/

set_option autoImplicit false
set_option linter.unusedSectionVars false

namespace DataSpec.Federation

open ChangeEvent (numbered numbersFrom)

/-! ## Moves -/

/-- What can happen to a federation with subscribers. -/
inductive Move where
  | command (c : Command)
  | subscribe (name : String) (wanted : Option Iri)
  /-- Whoever listens under a name takes out what was received. -/
  | drain (name : String)
  | unsubscribe (name : String)

/-- Whether a move leaves whoever listens under a name in place. -/
def Move.Keeps (name : String) : Move → Prop
  | .subscribe other _ | .unsubscribe other => other ≠ name
  | .command _ | .drain _ => True

/-- The federation after a move. -/
def move (f : Federation) : Move → Federation
  | .command c => f.attempt c
  | .subscribe name wanted => f.subscribe name wanted
  | .drain name => ((f.drain name).map Prod.snd).getD f
  | .unsubscribe name => f.unsubscribe name

/-- The federation after moves one after the other. -/
def moveAll (f : Federation) (ms : List Move) : Federation := ms.foldl move f

/-- The diff that a command returns, if it has one and does not fail. -/
def returned? (f : Federation) : Command → Option ResourceDiff
  | .add _ _ | .remove _ => none
  | .apply now op => (f.apply now op).toOption.map Prod.fst
  | .applyOn now id op => (f.applyOn now id op).toOption.map Prod.fst
  | .complex clock ops => (f.applyAll clock ops).1.toOption

/-- The events that a move publishes. -/
def published (f : Federation) : Move → List ChangeEvent
  | .command c => ((f.returned? c).map fun d => numbered f.nextSequence (news d)).getD []
  | .subscribe _ _ | .drain _ | .unsubscribe _ => []

/-- The events that a run publishes. -/
def publishedAll (f : Federation) : List Move → List ChangeEvent
  | [] => []
  | m :: ms => f.published m ++ (f.move m).publishedAll ms

/-- The events that a move takes out under a name. -/
def taken (f : Federation) (name : String) : Move → List ChangeEvent
  | .drain other => if other = name then ((f.drain name).map Prod.fst).getD [] else []
  | .command _ | .subscribe _ _ | .unsubscribe _ => []

/-- The events that are taken out under a name during a run. -/
def takenAll (f : Federation) (name : String) : List Move → List ChangeEvent
  | [] => []
  | m :: ms => f.taken name m ++ (f.move m).takenAll name ms

theorem publishedAll_append (ms ms' : List Move) (f : Federation) :
    f.publishedAll (ms ++ ms') = f.publishedAll ms ++ (f.moveAll ms).publishedAll ms' := by
  induction ms generalizing f with
  | nil => rfl
  | cons m ms ih => simp [publishedAll, moveAll, ih]

/-! ## What a command announces -/

/-- Some events are announced on the way from one federation to another. -/
structure Announces (f g : Federation) (es : List ChangeEvent) : Prop where
  nextSequence : g.nextSequence = f.nextSequence + UInt64.ofNat es.length
  listener? : ∀ name, g.listener? name = (f.listener? name).map fun s => s.hear es

section

variable {f g : Federation} {es : List ChangeEvent} {name : String}

theorem Announces.none (hs : g.subscribers = f.subscribers)
    (hn : g.nextSequence = f.nextSequence) : f.Announces g [] := by
  refine ⟨hn.trans (UInt64.add_zero _).symm, fun name => ?_⟩
  rw [Federation.listener?, hs, ← Federation.listener?]
  cases h : f.listener? name <;> simp

theorem Announces.diff (members : List Member) (owners : SortedMap Iri StoreId)
    (d : ResourceDiff) : f.Announces ({ f with members, owners }.publish d)
      (numbered f.nextSequence (news d)) := by
  refine ⟨?_, fun name => ?_⟩
  · rw [nextSequence_publish, ChangeEvent.length_numbered]
  · exact listener?_publish _ d name

/-- An operation that fails leaves everything as it is, and one that succeeds announces its
diff. -/
theorem announces_applyAt (f : Federation) (now : Instant) (op : Operation)
    (place : Except StoreError (Fin f.members.length)) :
    f.Announces (f.outcome (f.applyAt now op place))
      ((((f.applyAt now op place).toOption.map Prod.fst).map
        fun d => numbered f.nextSequence (news d)).getD []) := by
  cases h : f.applyAt now op place with
  | error e => exact .none rfl rfl
  | ok r =>
    cases place with
    | error e => nomatch h
    | ok i =>
      obtain ⟨⟨d, g⟩, hcommit, rfl⟩ := Except.map_eq_ok.mp h
      obtain ⟨state, -, rfl⟩ := commitOn_eq_ok hcommit
      exact .diff _ _ d

/-- A command announces the diff that it returns, and nothing else. -/
theorem announces_attempt (f : Federation) (c : Command) :
    f.Announces (f.attempt c) (f.published (.command c)) := by
  cases c with
  | add name s =>
    refine .none ?_ ?_ <;>
      · simp only [attempt, addStore]
        split <;> rfl
  | remove id =>
    refine .none ?_ ?_ <;>
      · simp only [attempt, removeStore]
        split <;> rfl
  | apply now op => exact announces_applyAt f now op _
  | applyOn now id op => exact announces_applyAt f now op _
  | complex clock ops =>
    simp only [attempt, published, returned?, applyAll]
    split
    · exact .none rfl rfl
    · exact .diff _ _ _

end

/-! ## Numbers -/

theorem sequence_published (f : Federation) (m : Move) :
    (f.published m).map ChangeEvent.sequence =
      numbersFrom f.nextSequence (f.published m).length := by
  cases m with
  | command c =>
    cases h : f.returned? c with
    | none => simp [published, h, numbersFrom]
    | some d =>
      simp [published, h, ChangeEvent.sequence_numbered, ChangeEvent.length_numbered]
  | subscribe name wanted | drain name | unsubscribe name => rfl

theorem nextSequence_move (f : Federation) (m : Move) :
    (f.move m).nextSequence = f.nextSequence + UInt64.ofNat (f.published m).length := by
  cases m with
  | command c => exact (announces_attempt f c).nextSequence
  | drain name =>
    cases h : f.listener? name <;> simp [move, drain, h, published, updateListener]
  | subscribe name wanted | unsubscribe name => exact (UInt64.add_zero _).symm

/-- The events of a run are numbered one after the other. -/
theorem sequence_publishedAll (ms : List Move) (f : Federation) :
    (f.publishedAll ms).map ChangeEvent.sequence =
        numbersFrom f.nextSequence (f.publishedAll ms).length ∧
      (f.moveAll ms).nextSequence =
        f.nextSequence + UInt64.ofNat (f.publishedAll ms).length := by
  induction ms generalizing f with
  | nil => exact ⟨rfl, (UInt64.add_zero _).symm⟩
  | cons m ms ih =>
    obtain ⟨hsequence, hnext⟩ := ih (f.move m)
    rw [nextSequence_move] at hsequence hnext
    rw [publishedAll, List.map_append, sequence_published, hsequence, List.length_append,
      ChangeEvent.numbersFrom_add, UInt64.ofNat_add, ← UInt64.add_assoc]
    exact ⟨rfl, hnext⟩

/-! ## Subscribers -/

/-- A subscriber that stays takes note of what a move publishes and is of interest to it. -/
theorem listener?_move {f : Federation} {m : Move} {name : String} {s : Subscriber}
    (hs : f.listener? name = some s) (hm : m.Keeps name) :
    ∃ s', (f.move m).listener? name = some s' ∧ s'.wants = s.wants ∧
      f.taken name m ++ s'.received = s.received ++ (f.published m).filter s.wants := by
  cases m with
  | command c =>
    refine ⟨_, ((announces_attempt f c).listener? name).trans (congrArg _ hs), rfl, rfl⟩
  | subscribe other wanted =>
    exact ⟨s, (listener?_subscribe_of_ne f (Ne.symm hm) wanted).trans hs, rfl, by
      simp [taken, published]⟩
  | unsubscribe other =>
    exact ⟨s, (listener?_unsubscribe_of_ne f (Ne.symm hm)).trans hs, rfl, by
      simp [taken, published]⟩
  | drain other =>
    cases hother : f.listener? other with
    | none =>
      have hne : other ≠ name := by
        rintro rfl
        simp [hs] at hother
      exact ⟨s, by simpa [move, drain, hother] using hs, rfl, by simp [taken, hne, published]⟩
    | some t =>
      have hdrain : f.drain other = some (t.received,
          f.updateListener other fun s => { s with received := [] }) := by
        rw [drain, hother]
        rfl
      have hmove := listener?_of_drain hdrain name
      rw [hs, Option.map_some] at hmove
      refine ⟨_, by simpa [move, hdrain] using hmove, ?_, ?_⟩
      · split <;> rfl
      · by_cases hne : other = name
        · subst hne
          obtain rfl := Option.some.inj (hs.symm.trans hother)
          simp [taken, hdrain, published]
        · simp [taken, hne, Ne.symm hne, published]

/-- What a subscriber that stays has taken out, with what it can still take out, is what it could
take out at first and what was published and is of interest to it. -/
theorem listener?_moveAll {name : String} (ms : List Move) {f : Federation} {s : Subscriber}
    (hs : f.listener? name = some s) (hms : ∀ m ∈ ms, m.Keeps name) :
    ∃ s', (f.moveAll ms).listener? name = some s' ∧
      f.takenAll name ms ++ s'.received = s.received ++ (f.publishedAll ms).filter s.wants := by
  induction ms generalizing f s with
  | nil => exact ⟨s, hs, by simp [takenAll, publishedAll]⟩
  | cons m ms ih =>
    obtain ⟨t, ht, hwants, hm⟩ := listener?_move hs (hms m List.mem_cons_self)
    obtain ⟨s', hs', hrest⟩ := ih ht fun m' hm' => hms m' (List.mem_cons_of_mem _ hm')
    refine ⟨s', hs', ?_⟩
    calc f.takenAll name (m :: ms) ++ s'.received
        = f.taken name m ++ ((f.move m).takenAll name ms ++ s'.received) := by
          rw [takenAll, List.append_assoc]
      _ = (f.taken name m ++ t.received) ++ ((f.move m).publishedAll ms).filter s.wants := by
          rw [hrest, hwants, List.append_assoc]
      _ = s.received ++ (f.publishedAll (m :: ms)).filter s.wants := by
          rw [hm, publishedAll, List.filter_append, List.append_assoc]

/-- Events that spell out a diff : one for each identifier that was created, changed or deleted,
in this order and by identifier, with the body if there is one. -/
structure SpellsOut (d : ResourceDiff) (es : List ChangeEvent) : Prop where
  news : es.map (fun e => (e.iri, e.kind, e.resource)) =
    d.created.toList.map (fun x => (x.1, .created, some x.2)) ++
      d.changed.toList.map (fun x => (x.1, .changed, some x.2)) ++
      d.deleted.keys.map fun iri => (iri, .deleted, none)
  created : d.created.keys.Pairwise fun a b => a < b
  changed : d.changed.keys.Pairwise fun a b => a < b
  deleted : d.deleted.keys.Pairwise fun a b => a < b

/-- Events numbered from zero without gaps. The number that comes after `n` events is `n` if there
is room for it in 64 bits, and else what is left of `n` in them. -/
structure NumberedFromZero (es : List ChangeEvent) : Prop where
  sequence : es.map ChangeEvent.sequence = (List.range es.length).map UInt64.ofNat
  withRoom : es.length ≤ UInt64.size →
    es.map (fun e => e.sequence.toNat) = List.range es.length

theorem numberedFromZero_publishedAll (ms : List Move) :
    NumberedFromZero (empty.publishedAll ms) := by
  have hsequence : (empty.publishedAll ms).map ChangeEvent.sequence =
      numbersFrom 0 (empty.publishedAll ms).length := (sequence_publishedAll ms empty).1
  refine ⟨?_, fun hroom => ?_⟩
  · rw [hsequence]
    exact List.map_congr_left fun i _ => UInt64.zero_add _
  · rw [← ChangeEvent.toNat_numbersFrom_zero hroom, ← hsequence, List.map_map]
    rfl

/-- Some of these events in the same order have increasing numbers if there is room for the
numbers of all. -/
theorem NumberedFromZero.pairwise_lt {es es' : List ChangeEvent} (h : NumberedFromZero es)
    (hroom : es.length ≤ UInt64.size) (hsub : es'.Sublist es) :
    es'.Pairwise fun e e' => e.sequence < e'.sequence := by
  refine List.Pairwise.sublist hsub ?_
  have hrange : (es.map fun e => e.sequence.toNat).Pairwise (· < ·) :=
    h.withRoom hroom ▸ List.pairwise_lt_range
  exact (List.pairwise_map.mp hrange).imp UInt64.lt_iff_toNat_lt.mpr

/-- The events of a run are numbered from zero without gaps. Whoever comes and stays hears of all
that is published from then on, or of all that is about the identifier of interest, each event
once and in this order, which is that of their numbers as long as there is room for these. A
command that fails or returns no diff publishes nothing, uses no number and is not heard of. One
that returns a diff publishes what spells it out. -/
theorem hears_publishedAll :
    (∀ ms, NumberedFromZero (empty.publishedAll ms)) ∧
    (∀ before name wanted after, (∀ m ∈ after, m.Keeps name) →
      ∃ f pending g, f = empty.moveAll (before ++ [.subscribe name wanted]) ∧
        empty.publishedAll (before ++ .subscribe name wanted :: after) =
          empty.publishedAll before ++ f.publishedAll after ∧
        (f.moveAll after).drain name = some (pending, g) ∧
        f.takenAll name after ++ pending =
          (f.publishedAll after).filter (fun e => decide (wanted = none ∨ wanted = some e.iri)) ∧
        ((empty.publishedAll (before ++ .subscribe name wanted :: after)).length ≤ UInt64.size →
          (f.takenAll name after ++ pending).Pairwise fun e e' => e.sequence < e'.sequence)) ∧
    (∀ f c, returned? f c = none → f.published (.command c) = [] ∧
      (f.attempt c).nextSequence = f.nextSequence ∧
      ∀ name, (f.attempt c).listener? name = f.listener? name) ∧
    ∀ f c d, returned? f c = some d → SpellsOut d (f.published (.command c)) := by
  refine ⟨numberedFromZero_publishedAll, fun before name wanted after hstay => ?_,
    fun f c hc => ?_, fun f c d hd => ?_⟩
  · have hmoveAll : empty.moveAll (before ++ [.subscribe name wanted]) =
        (empty.moveAll before).subscribe name wanted := by simp [moveAll, move]
    obtain ⟨s, hs, hheard⟩ := listener?_moveAll after
      (listener?_subscribe (empty.moveAll before) name wanted) hstay
    have hpublished : empty.publishedAll (before ++ .subscribe name wanted :: after) =
        empty.publishedAll before ++
          ((empty.moveAll before).subscribe name wanted).publishedAll after :=
      publishedAll_append _ _ _
    refine ⟨_, s.received, _, hmoveAll.symm, hpublished, by rw [drain, hs]; rfl, ?_,
      fun hroom => ?_⟩
    · rw [hheard, List.nil_append]
      refine List.filter_congr fun e _ => ?_
      cases wanted <;> simp [Subscriber.wants]
    · rw [hheard, List.nil_append]
      refine (numberedFromZero_publishedAll _).pairwise_lt hroom ?_
      rw [hpublished]
      exact List.filter_sublist.trans (List.sublist_append_right _ _)
  · have hnone : f.published (.command c) = [] := by simp [published, hc]
    have hannounces := announces_attempt f c
    rw [hnone] at hannounces
    refine ⟨hnone, hannounces.nextSequence.trans (UInt64.add_zero _), fun name => ?_⟩
    rw [hannounces.listener?]
    cases f.listener? name <;> simp
  · have hsome : f.published (.command c) = numbered f.nextSequence (news d) := by
      simp [published, hd]
    rw [hsome]
    exact ⟨ChangeEvent.news_numbered _ _, SortedMap.pairwise_keys _, SortedMap.pairwise_keys _,
      SortedMap.pairwise_keys _⟩

/-- One subscriber leaves between two events, and another one is interested in the second. -/
def gatherings : List Move :=
  [.command (.add "store" (.new "b")), .subscribe "first" none,
    .subscribe "second" (some "b/psm-schema/2"),
    .command (.apply .epoch (.create .structuralSchema none .empty)), .unsubscribe "first",
    .command (.apply .epoch (.delete "b/psm-schema/7")),
    .command (.apply .epoch (.create .structuralSchema none .empty))]

/-- Two events have been published, and of these the second subscriber has heard of the second,
which is still to be taken out. -/
theorem hears_publishedAll_gatherings :
    (∀ m ∈ gatherings.drop 3, m.Keeps "second") ∧
    (empty.publishedAll gatherings).map (fun e => e.sequence.toNat) = [0, 1] ∧
    (∃ pending g, (empty.moveAll gatherings).drain "second" = some (pending, g) ∧
      pending.map ChangeEvent.sequence = [1] ∧
      pending.Pairwise fun e e' => e.sequence < e'.sequence) ∧
    (∃ c, returned? empty c = none ∧ empty.published (.command c) = []) ∧
    ∃ f c d, returned? f c = some d ∧ SpellsOut d (f.published (.command c)) := by
  obtain ⟨hnumbered, hheard, hfails, hreturns⟩ := hears_publishedAll
  have hlength : (empty.publishedAll gatherings).length = 2 := by decide
  have hroom : (empty.publishedAll gatherings).length ≤ UInt64.size := hlength ▸ by decide
  have hstay : ∀ m ∈ gatherings.drop 3, m.Keeps "second" := by
    simp [gatherings, Move.Keeps]
  obtain ⟨f, pending, g, rfl, -, hdrain, hevents, hincreasing⟩ :=
    hheard (gatherings.take 2) "second" (some "b/psm-schema/2") (gatherings.drop 3) hstay
  refine ⟨hstay, ?_, ⟨pending, g, hdrain, ?_, hincreasing hroom⟩,
    ⟨.apply .epoch (.delete "b/psm-schema/7"), rfl, (hfails _ _ rfl).1⟩, ?_⟩
  · rw [(hnumbered gatherings).withRoom hroom, hlength]
    rfl
  -- Nothing is taken out on the way.
  · have hpending : pending = _ := hevents
    rw [hpending]
    decide
  · have hcreated : (returned? (empty.attempt (.add "store" (.new "b")))
        (.apply .epoch (.create .structuralSchema none .empty))).isSome = true := by
      decide
    obtain ⟨d, hd⟩ := Option.isSome_iff_exists.mp hcreated
    exact ⟨_, _, d, hd, hreturns _ _ d hd⟩

end DataSpec.Federation
