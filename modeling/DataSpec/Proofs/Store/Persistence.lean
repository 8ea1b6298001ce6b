import DataSpec.Proofs.Resource.Written
import DataSpec.Proofs.Store.Integrity
import DataSpec.Proofs.Time.Instant
import DataSpec.Store.Basic

/-!
# Persisted stores

What a store writes to its file it can read back : every operation, resource and diff, and every
snapshot whose log has times that can be written (`Snapshot.Dated`), comes back from its text as it
was (`Json.ReadBack`). A store that is loaded from the file of another one is therefore in the same
state, and gives the same replies from then on (`Store.persisted_restored`).
-/

set_option autoImplicit false

namespace DataSpec

/-- A value comes back from its text, on one line or on several. -/
def Json.ReadBack {α : Type} (toJson : α → Json) (ofJson? : Json → Option α) (a : α) : Prop :=
  (Json.parse? (toJson a).compact).bind ofJson? = some a ∧
    (Json.parse? (toJson a).pretty).bind ofJson? = some a

theorem Json.readBack_of_plain {α : Type} {toJson : α → Json} {ofJson? : Json → Option α} {a : α}
    {room : Nat} (hplain : Json.Plain room (toJson a)) (hroom : room ≤ Json.Reader.maxDepth)
    (hread : ofJson? (toJson a) = some a) : Json.ReadBack toJson ofJson? a := by
  have hplain := hplain.mono hroom
  constructor
  · rw [Json.parse?_compact hplain, Option.bind_some, hread]
  · rw [Json.parse?_pretty hplain, Option.bind_some, hread]

/-! ## Diffs -/

namespace ResourceDiff

theorem record_toJson (d : ResourceDiff) : d.toJson.record ["created", "changed", "deleted"] =
    some [.given d.created.toJson, .given d.changed.toJson, .given (.strings d.deleted.keys)] := by
  rw [toJson, Json.record_obj (by simp [Json.memberNames])]
  simp [Json.member?]

theorem ofJson?_toJson (d : ResourceDiff) : ofJson? d.toJson = some d := by
  rw [ofJson?, record_toJson]
  simp [ResourceMap.ofJson?_toJson, Json.list?_strings, SortedSet.ofList_keys]

theorem plain_toJson (d : ResourceDiff) : Json.Plain 6 d.toJson :=
  .obj (by simp [d.created.plain_toJson 0, d.changed.plain_toJson 0, Json.plain_strings])

end ResourceDiff

/-! ## Operations -/

namespace Operation

/-- An operation is written as an object, a member of which names its kind. -/
theorem toJson_eq_obj (op : Operation) : ∃ members, op.toJson = .obj members ∧
    (Json.memberNames members).Nodup ∧ Json.member? "type" members = some (.str op.tag.name) := by
  cases op with
  | create kind owner attributes =>
    cases owner <;> exact ⟨_, rfl, by simp [Json.memberNames], rfl⟩
  | setAttribute target key value => exact ⟨_, rfl, by simp [Json.memberNames], rfl⟩
  | setOrder owner moved after => exact ⟨_, rfl, by simp [Json.memberNames], rfl⟩
  | delete target => exact ⟨_, rfl, by simp [Json.memberNames], rfl⟩
  | setRoots schema roots => exact ⟨_, rfl, by simp [Json.memberNames], rfl⟩

/-- The parts of an operation are read back, also out of the buffer in which they waited for its
kind. -/
theorem ofFields?_toJson (op : Operation) : ofFields? op.tag op.toJson = some op := by
  cases op with
  | create kind owner attributes =>
    have hkind : Json.named? .buffered Kind.ofName? (.str kind.name) = some kind :=
      Kind.ofName?_name kind
    cases owner <;>
      simp [ofFields?, tag, toJson, Json.record_obj, Json.memberNames, Json.member?, Json.option?,
        hkind, Attributes.ofJson?_toJson]
  | setAttribute target key value =>
    have hkey : Json.named? .buffered AttributeKey.ofName? (.str key.name) = some key :=
      AttributeKey.ofName?_name key
    have hvalue : Json.option? (AttributeValue.ofJson? .buffered)
        (Json.orNull (value.map AttributeValue.toJson)) = some value :=
      Json.option?_orNull AttributeValue.toJson_ne_null (AttributeValue.ofJson?_toJson .buffered)
    simp [ofFields?, tag, toJson, Json.record_obj, Json.memberNames, Json.member?, hkey, hvalue]
  | setOrder owner moved after =>
    have hafter : Json.option? Json.str? (Json.strOrNull after) = some after :=
      Json.option?_orNull Json.str_ne_null Json.str?_str
    simp [ofFields?, tag, toJson, Json.record_obj, Json.memberNames, Json.member?, hafter]
  | delete target => simp [ofFields?, tag, toJson, Json.record_obj, Json.memberNames, Json.member?]
  | setRoots schema roots =>
    simp [ofFields?, tag, toJson, Json.record_obj, Json.memberNames, Json.member?,
      Json.list?_strings]

theorem plain_toJson (op : Operation) : Json.Plain 4 op.toJson := by
  cases op with
  | create kind owner attributes =>
    cases owner <;> exact .obj (by simp [Json.Plain.str, attributes.plain_toJson 0])
  | setAttribute target key value =>
    have hvalue : Json.Plain 3 (Json.orNull (value.map AttributeValue.toJson)) :=
      Json.plain_orNull fun v => v.plain_toJson 1
    exact .obj (by simp [Json.Plain.str, hvalue])
  | setOrder owner moved after =>
    have hafter : Json.Plain 3 (Json.strOrNull after) := Json.plain_orNull .str
    exact .obj (by simp [Json.Plain.str, hafter])
  | delete target => exact .obj (by simp [Json.Plain.str])
  | setRoots schema roots => exact .obj (by simp [Json.Plain.str, Json.plain_strings])

theorem ofJson?_toJson (op : Operation) : ofJson? op.toJson = some op := by
  obtain ⟨members, hmembers, hnodup, htype⟩ := op.toJson_eq_obj
  have hfields := op.ofFields?_toJson
  have hreadable := op.plain_toJson.isReadable
  rw [hmembers] at hfields hreadable ⊢
  simp [ofJson?, hreadable, Json.record_obj hnodup, htype, hfields]

end Operation

/-! ## Logs -/

namespace OperationRecord

theorem record_toJson (r : OperationRecord) :
    r.toJson.record ["operation", "applied_at", "created", "changed", "deleted"] =
      some [.given r.operation.toJson, .given (.str r.appliedAt.text), .given (.strings r.created),
        .given (.strings r.changed), .given (.strings r.deleted)] := by
  rw [toJson, effects, Json.record_obj (by simp [Json.memberNames])]
  simp [Json.member?]

theorem ofJson?_toJson {r : OperationRecord} (h : Instant.isYear r.appliedAt.date.year = true) :
    ofJson? r.toJson = some r := by
  rw [ofJson?, record_toJson]
  simp [Operation.ofJson?_toJson, Instant.ofText?_text r.appliedAt h, Json.list?_strings]

theorem plain_toJson (r : OperationRecord) : Json.Plain 5 r.toJson :=
  .obj (by simp [effects, Json.Plain.str, r.operation.plain_toJson, Json.plain_strings])

end OperationRecord

/-! ## Counters -/

namespace Counters

theorem ofJson?_toJson (c : Counters) : ofJson? c.toJson = some c := by
  rw [ofJson?, toJson]
  refine Json.map?_obj (g := fun n : UInt64 => .nat n.toNat) Kind.ofName?_name fun n => ?_
  rw [Json.natBelow?_nat n.toNat_lt, Option.map_some, UInt64.ofNat_toNat]

theorem plain_toJson (c : Counters) (room : Nat) : Json.Plain (room + 1) c.toJson :=
  Json.plain_map (g := fun n : UInt64 => .nat n.toNat) fun n => Json.plain_nat n.toNat_lt

end Counters

/-! ## Snapshots -/

namespace Snapshot

/-- The times of the log are of years that have dates ; all years of four digits do. -/
def Dated (s : Snapshot) : Prop :=
  ∀ r ∈ s.operations, Instant.isYear r.appliedAt.date.year = true

instance (s : Snapshot) : Decidable s.Dated :=
  inferInstanceAs (Decidable (∀ r ∈ s.operations, Instant.isYear r.appliedAt.date.year = true))

theorem record_toJson (s : Snapshot) : s.toJson.record ["operations", "resources", "counters"] =
    some [.given (.arr (s.operations.map OperationRecord.toJson)), .given s.resources.toJson,
      .given s.counters.toJson] := by
  rw [toJson, Json.record_obj (by simp [Json.memberNames])]
  simp [Json.member?]

theorem ofJson?_toJson {s : Snapshot} (h : s.Dated) : ofJson? s.toJson = some s := by
  have hlog : Json.list? OperationRecord.ofJson? (.arr (s.operations.map OperationRecord.toJson)) =
      some s.operations :=
    Json.list?_map fun r hr => OperationRecord.ofJson?_toJson (h r hr)
  rw [ofJson?, record_toJson]
  simp [hlog, ResourceMap.ofJson?_toJson, Counters.ofJson?_toJson]

theorem plain_toJson (s : Snapshot) : Json.Plain 7 s.toJson := by
  have hlog : Json.Plain 6 (.arr (s.operations.map OperationRecord.toJson)) :=
    Json.plain_list OperationRecord.plain_toJson
  exact .obj (by simp [hlog, s.resources.plain_toJson 1, s.counters.plain_toJson 5])

/-- A snapshot comes back from its text. -/
theorem readBack {s : Snapshot} (h : s.Dated) : Json.ReadBack toJson ofJson? s :=
  Json.readBack_of_plain s.plain_toJson (by decide) (ofJson?_toJson h)

end Snapshot

/-! ## Stores -/

namespace Store

variable {s t : Store}

/-- What a store replies to operations that it is asked for one after the other : the diff, or
why it refuses. -/
def replies (s : Store) : List (Instant × Operation) → List (Except StoreError ResourceDiff)
  | [] => []
  | (now, op) :: rest => (s.apply now op).map Prod.fst :: (s.attempt now op).replies rest

/-- Two stores that differ in nothing but the files that they stand for. -/
structure Alike (s t : Store) : Prop where
  base : s.base = t.base
  supported : s.supported = t.supported
  state : s.state = t.state

theorem Alike.applyTo (h : s.Alike t) (now : Instant) (op : Operation) :
    s.applyTo s.state now op = t.applyTo t.state now op := by
  unfold Store.applyTo
  rw [h.base, h.supported, h.state]

theorem Alike.attempt (h : s.Alike t) (now : Instant) (op : Operation) :
    (s.attempt now op).Alike (t.attempt now op) := by
  unfold Store.attempt apply
  rw [h.applyTo]
  cases t.applyTo t.state now op with
  | error e => exact h
  | ok r => exact ⟨h.base, h.supported, rfl⟩

/-- Stores that are alike give the same replies, whatever they are asked for. -/
theorem Alike.replies (h : s.Alike t) (ops : List (Instant × Operation)) :
    s.replies ops = t.replies ops := by
  induction ops generalizing s t with
  | nil => rfl
  | cons e ops ih =>
    have hreply : (s.apply e.1 e.2).map Prod.fst = (t.apply e.1 e.2).map Prod.fst := by
      unfold apply
      rw [h.applyTo]
      cases t.applyTo t.state e.1 e.2 <;> rfl
    exact congrArg₂ List.cons hreply (ih (h.attempt e.1 e.2))

/-- The file of a store makes any store of its kind like it. -/
theorem exists_load (hs : s.location.isSome) (ht : t.location.isSome) (hbase : t.base = s.base)
    (hsupported : t.supported = s.supported) (hdated : s.state.snapshot.Dated) :
    ∃ text t', s.save = .ok text ∧ t.load (some text) = .ok t' ∧ t'.Alike s := by
  obtain ⟨file, hfile⟩ := Option.isSome_iff_exists.mp hs
  obtain ⟨url, hurl⟩ := Option.isSome_iff_exists.mp ht
  have hread : Snapshot.ofText? s.state.snapshot.toJson.pretty = some s.state.snapshot :=
    (Snapshot.readBack hdated).2
  refine ⟨s.state.snapshot.toJson.pretty, { t with state := s.state }, ?_, ?_, ?_⟩
  · simp only [save, hfile]
  · simp only [load, hurl, hread]
    rfl
  · exact ⟨hbase, hsupported, rfl⟩

/-- What is persisted comes back : operations, resources and diffs from their texts, a snapshot
from its text if the times of its log can be written, and a store from its file. It has the same
resources, the same log and the same counters, and from then on it gives the same replies. -/
theorem persisted_restored :
    (∀ op : Operation, Json.ReadBack Operation.toJson Operation.ofJson? op) ∧
    (∀ r : Resource, Json.ReadBack Resource.toJson Resource.ofJson? r) ∧
    (∀ d : ResourceDiff, Json.ReadBack ResourceDiff.toJson ResourceDiff.ofJson? d) ∧
    (∀ s : Snapshot, s.Dated → Json.ReadBack Snapshot.toJson Snapshot.ofJson? s) ∧
    ∀ s t : Store, s.location.isSome → t.location.isSome → t.base = s.base →
      t.supported = s.supported → s.state.snapshot.Dated →
      ∃ text t', s.save = .ok text ∧ t.load (some text) = .ok t' ∧ t'.state = s.state ∧
        ∀ ops, t'.replies ops = s.replies ops := by
  refine ⟨fun op => ?_, fun r => ?_, fun d => ?_, fun s hdated => ?_, ?_⟩
  · exact Json.readBack_of_plain op.plain_toJson (by decide) op.ofJson?_toJson
  · exact Json.readBack_of_plain (r.plain_toJson 0) (by decide) r.ofJson?_toJson
  · exact Json.readBack_of_plain d.plain_toJson (by decide) d.ofJson?_toJson
  · exact Snapshot.readBack hdated
  · intro s t hs ht hbase hsupported hdated
    obtain ⟨text, t', hsave, hload, halike⟩ := exists_load hs ht hbase hsupported hdated
    exact ⟨text, t', hsave, hload, halike.state, halike.replies⟩

/-- The last moment of a leap day long ago. -/
def leapDay : Instant where
  date := ⟨0, 2, 29, by decide, by decide⟩
  minutes := 1439
  second := 59
  nanos := 999999999
  minutes_lt := by decide
  second_le := by decide
  nanos_lt := by decide

/-- A store with a file and one schema, which got a label after it was created. -/
def shelf : Store :=
  { new "b" with
    location := some "shelf.json"
    state := ((new "b").attemptAll
      [(leapDay, .create .structuralSchema none (.ofList [(.cardinality, .cardinality ⟨1, none⟩)])),
        (.epoch, .setHumanLabel "b/psm-schema/1" (.ofList [("en", "A \"shelf\"\n")]))]).state }

/-- The shelf comes back from its file in a store that had nothing in it. -/
theorem persisted_restored_shelf :
    shelf.state.log.length = 2 ∧ shelf.state.snapshot.Dated ∧
    Json.ReadBack Snapshot.toJson Snapshot.ofJson? shelf.state.snapshot ∧
    ∃ text t', shelf.save = .ok text ∧
      ({ new "b" with location := some "copy.json" } : Store).load (some text) = .ok t' ∧
      t'.state = shelf.state ∧ ∀ ops, t'.replies ops = shelf.replies ops := by
  have hdated : shelf.state.snapshot.Dated := by decide +kernel
  obtain ⟨-, -, -, hsnapshot, hstore⟩ := persisted_restored
  exact ⟨by decide +kernel, hdated, hsnapshot shelf.state.snapshot hdated,
    hstore shelf { new "b" with location := some "copy.json" } rfl rfl rfl rfl hdated⟩

end Store

end DataSpec
