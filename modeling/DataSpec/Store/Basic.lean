import DataSpec.Store.Execution
import DataSpec.Time.Instant
import DataSpec.Json.Parser
import DataSpec.Json.Printer

/-!
# Stores

A store has resources, the log of the operations that led to them, and the counters of
issued numbers. `Store.apply` commits all three together, or none : a refused operation
leaves the store as it was.

A store may stand for a file, which holds a `Snapshot` of it as JSON; `Store.load` and
`Store.save` go back and forth.
-/

set_option autoImplicit false

namespace DataSpec

/-- One operation of the log, with the identifiers that it touched. -/
structure OperationRecord where
  operation : Operation
  appliedAt : Instant
  created : List Iri
  changed : List Iri
  deleted : List Iri
deriving DecidableEq

namespace OperationRecord

/-- The members of the written form, the time aside. -/
def effects (r : OperationRecord) : List (String × Json) :=
  [("created", .strings r.created), ("changed", .strings r.changed),
    ("deleted", .strings r.deleted)]

/-- The written form. -/
def toJson (r : OperationRecord) : Json :=
  .obj (("operation", r.operation.toJson) :: ("applied_at", .str r.appliedAt.text) :: r.effects)

/-- The written form without the time. -/
def toTimelessJson (r : OperationRecord) : Json :=
  .obj (("operation", r.operation.toJson) :: r.effects)

/-- The record with a written form. -/
def ofJson? (v : Json) : Option OperationRecord :=
  match v.record ["operation", "applied_at", "created", "changed", "deleted"] with
  | some [operation, appliedAt, created, changed, deleted] => do
    let operation ← operation.required Operation.ofJson?
    let appliedAt ← appliedAt.required fun v => v.str?.bind Instant.ofText?
    let created ← created.withDefault [] (Json.list? Json.str?)
    let changed ← changed.withDefault [] (Json.list? Json.str?)
    let deleted ← deleted.withDefault [] (Json.list? Json.str?)
    return ⟨operation, appliedAt, created, changed, deleted⟩
  | _ => none

end OperationRecord

/-- What a store commits together. The log has the oldest operation first. -/
structure StoreState where
  resources : ResourceMap
  log : List OperationRecord
  counters : Counters
deriving DecidableEq

namespace StoreState

/-- The state before any operation. -/
def empty : StoreState := ⟨.empty, [], .empty⟩

/-- The state after an operation with a diff. -/
def commit (s : StoreState) (now : Instant) (op : Operation) (d : ResourceDiff)
    (counters : Counters) : StoreState where
  resources := d.applyTo s.resources
  log := s.log ++ [⟨op, now, d.created.keys, d.changed.keys, d.deleted.keys⟩]
  counters := counters

end StoreState

/-- A store : the base of its identifiers, the operations it carries out, the location of
the file it stands for, if any, and its state. -/
structure Store where
  base : String
  supported : List OperationTag
  location : Option String
  state : StoreState
deriving DecidableEq

namespace Store

/-- A store in memory that carries out all operations. -/
def new (base : String) : Store := ⟨base, OperationTag.all, none, .empty⟩

/-- The diff of an operation, and the minter after it, if the store carries it out. -/
def execute (supported : List OperationTag) (x : Execution) (m : Minter) (op : Operation) :
    Except StoreError ResourceDiff × Minter :=
  if supported.contains op.tag then x.run m op else (.error (.unknownOperation op.tag), m)

/-- Apply an operation to a state, which need not be the present one, at a time. -/
def applyTo (s : Store) (state : StoreState) (now : Instant) (op : Operation) :
    Except StoreError (ResourceDiff × StoreState) :=
  match execute s.supported ⟨state.resources, s.base⟩ ⟨state.counters, .empty⟩ op with
  | (.error e, _) => .error e
  | (.ok d, m) =>
    if d.isDisjoint then .ok (d, state.commit now op d m.counters)
    else .error (.overlap op.tag)

/-- The store in another state. -/
def withState (s : Store) (state : StoreState) : Store := { s with state }

/-- Apply an operation at a time. -/
def apply (s : Store) (now : Instant) (op : Operation) : Except StoreError (ResourceDiff × Store) :=
  (s.applyTo s.state now op).map fun (d, state) => (d, s.withState state)

/-- Apply operations in turn, up to the first that is refused. -/
def applyAll (s : Store) (now : Instant) (ops : List Operation) : Except StoreError Store :=
  ops.foldlM (fun s op => (s.apply now op).map Prod.snd) s

/-- A resource of the store. -/
def read? (s : Store) (iri : Iri) : Option Resource := s.state.resources.get? iri

/-- How a store is kept. -/
def descriptor (s : Store) : Json :=
  match s.location with
  | none => .obj [("type", .str "memory")]
  | some url => .obj [("type", .str "synchronized"), ("url", .str url)]

end Store

/-! ## Snapshots -/

/-- The persisted form of a store. The counters keep numbers of deleted resources from
being issued again. -/
structure Snapshot where
  operations : List OperationRecord
  resources : ResourceMap
  counters : Counters
deriving DecidableEq

namespace Snapshot

/-- The snapshot of a store without any operation. -/
def empty : Snapshot := ⟨[], .empty, .empty⟩

/-- The written form. -/
def toJson (s : Snapshot) : Json :=
  .obj [("operations", .arr (s.operations.map OperationRecord.toJson)),
    ("resources", s.resources.toJson), ("counters", s.counters.toJson)]

/-- The snapshot with a written form. -/
def ofJson? (v : Json) : Option Snapshot :=
  match v.record ["operations", "resources", "counters"] with
  | some [operations, resources, counters] => do
    let operations ← operations.withDefault [] (Json.list? OperationRecord.ofJson?)
    let resources ← resources.withDefault .empty ResourceMap.ofJson?
    let counters ← counters.withDefault .empty Counters.ofJson?
    return ⟨operations, resources, counters⟩
  | _ => none

/-- The snapshot in the content of a file. -/
def ofText? (s : String) : Option Snapshot := (Json.parse? s).bind ofJson?

/-- The state that a snapshot stands for. -/
def state (s : Snapshot) : StoreState := ⟨s.resources, s.operations, s.counters⟩

end Snapshot

/-- The snapshot of a state. -/
def StoreState.snapshot (s : StoreState) : Snapshot := ⟨s.log, s.resources, s.counters⟩

namespace Store

/-- The store with the state that its file has, an absent file being an empty store. -/
def load (s : Store) (file : Option String) : Except StoreError Store :=
  match s.location with
  | none => .error .notConnected
  | some url =>
    match file with
    | none => .ok { s with state := Snapshot.empty.state }
    | some content =>
      match Snapshot.ofText? content with
      | some snapshot => .ok { s with state := snapshot.state }
      | none => .error (.badSnapshot url)

/-- The content of the file that the store stands for. -/
def save (s : Store) : Except StoreError String :=
  match s.location with
  | none => .error .notConnected
  | some _ => .ok s.state.snapshot.toJson.pretty

end Store

end DataSpec
