import DataSpec.Store.Basic

/-!
# Federations of stores

A `Federation` puts several stores behind one name space. Of members with the same
identifier the last one counts, for reading, and `owners` says which member an operation
on an identifier goes to. Every change is announced to the subscribers as a
`ChangeEvent`; events are numbered in the order in which they happen. A subscriber that listens
no longer stays in the list until an event of interest to it is announced.

The numbers of events and the handles of members have 64 bits and come from counters, so after
the last one the first one comes again.

A complex operation is a list of operations that is carried out as a whole or not at all
(`Federation.applyAll`) : on copies of the states of all members (`Staging`), which take
the place of the states once every operation has succeeded.
-/

set_option autoImplicit false

namespace DataSpec

/-- What happened to a resource. -/
inductive ChangeKind where
  | created
  | changed
  | deleted
deriving DecidableEq

/-- The written form. -/
def ChangeKind.name : ChangeKind → String
  | created => "created"
  | changed => "changed"
  | deleted => "deleted"

/-- The news about one resource : its new body, or none if it was deleted. -/
structure ChangeEvent where
  sequence : UInt64
  iri : Iri
  kind : ChangeKind
  resource : Option Resource
deriving DecidableEq

/-- The written form. -/
def ChangeEvent.toJson (e : ChangeEvent) : Json :=
  .obj [("sequence", .nat e.sequence.toNat), ("iri", .str e.iri), ("kind", .str e.kind.name),
    ("resource", Json.orNull (e.resource.map Resource.toJson))]

/-- Who hears of changes : `wanted` is the only identifier of interest, if there is one,
`received` the events that have come and were not taken out yet, and `listening` says whether
anybody is still there to take them out. -/
structure Subscriber where
  name : String
  wanted : Option Iri
  received : List ChangeEvent
  listening : Bool
deriving DecidableEq

namespace Subscriber

/-- Whether an event is of interest to a subscriber. -/
def wants (s : Subscriber) (e : ChangeEvent) : Bool :=
  match s.wanted with
  | none => true
  | some iri => decide (iri = e.iri)

/-- Whether somebody listens under a name. -/
def listensAs (name : String) (s : Subscriber) : Bool := s.listening && decide (s.name = name)

/-- Send an event to a subscriber that is interested in it. One that listens no longer is let
go. -/
def offer (e : ChangeEvent) (s : Subscriber) : Option Subscriber :=
  if !s.wants e then some s
  else if s.listening then some { s with received := s.received ++ [e] }
  else none

end Subscriber

/-- A store in a federation. -/
structure Member where
  id : StoreId
  name : String
  store : Store
deriving DecidableEq

/-- Several stores behind one name space, the last-registered last. -/
structure Federation where
  members : List Member
  owners : SortedMap Iri StoreId
  subscribers : List Subscriber
  nextStore : UInt64
  nextSequence : UInt64
deriving DecidableEq

namespace Federation

/-- The federation without members. -/
def empty : Federation := ⟨[], .empty, [], 0, 0⟩

/-! ## Members -/

/-- The owners after a member has taken over all identifiers it has. -/
def claim (owners : SortedMap Iri StoreId) (m : Member) : SortedMap Iri StoreId :=
  owners.insertMany (m.store.state.resources.keys.map fun iri => (iri, m.id))

/-- Register a store under a name. It takes over the identifiers it has. -/
def addStore (f : Federation) (name : String) (s : Store) :
    Except StoreError (StoreId × Federation) :=
  if f.members.any fun m => m.name = name then .error .alreadyMember
  else
    let m : Member := ⟨⟨f.nextStore⟩, name, s⟩
    .ok (m.id, { f with
      members := f.members ++ [m], owners := claim f.owners m, nextStore := f.nextStore + 1 })

/-- The member with a handle. -/
def member? (f : Federation) (id : StoreId) : Option Member :=
  f.members.find? fun m => m.id = id

/-- The member with a name. -/
def memberNamed? (f : Federation) (name : String) : Option Member :=
  f.members.find? fun m => m.name = name

/-- Take a member out, the first one with a handle. The identifiers it had go back to the members
before it. -/
def removeStore (f : Federation) (id : StoreId) : Except StoreError (Member × Federation) :=
  match f.member? id with
  | none => .error (.notMember id)
  | some m =>
    let members := f.members.eraseP fun m => m.id = id
    .ok (m, { f with members := members, owners := members.foldl claim .empty })

/-- Put a store in the place of that of the first member with a handle. -/
def setStore (f : Federation) (id : StoreId) (s : Store) : Federation :=
  let place := f.members.findIdx fun m => m.id = id
  { f with members := f.members.modify place fun m => { m with store := s } }

/-- The handles of the members in order. -/
def ids (f : Federation) : List StoreId := f.members.map Member.id

/-- The member that an operation on an identifier goes to. -/
def owner? (f : Federation) (iri : Iri) : Option StoreId := f.owners.get? iri

/-! ## Reading -/

/-- The identifiers that some member has, in order. -/
def list (f : Federation) : List Iri :=
  (SortedSet.ofList (f.members.flatMap fun m => m.store.state.resources.keys)).keys

/-- A resource, from the last member that has it. -/
def read? (f : Federation) (iri : Iri) : Option Resource :=
  f.members.reverse.findSome? fun m => m.store.read? iri

/-- All resources, each as it is read. -/
def resources (f : Federation) : ResourceMap :=
  .ofList (f.list.filterMap fun iri => (f.read? iri).map fun r => (iri, r))

/-! ## Applying operations -/

/-- The place of the first member with a handle. -/
def place? (members : List Member) (id : StoreId) : Except StoreError (Fin members.length) :=
  match members.findFinIdx? fun m => m.id = id with
  | some i => .ok i
  | none => .error (.notMember id)

/-- The place of the member that an operation goes to : the owner of the identifier it is
about, or the last member. -/
def route (members : List Member) (owners : SortedMap Iri StoreId) (op : Operation) :
    Except StoreError (Fin members.length) :=
  if h : 0 < members.length then
    match op.routingIri? with
    | none => .ok ⟨members.length - 1, Nat.sub_lt h Nat.one_pos⟩
    | some iri =>
      match owners.get? iri with
      | none => .error (.unowned iri)
      | some id => place? members id
  else .error .noMembers

/-- The owners after a member has applied a diff. -/
def recordOwners (owners : SortedMap Iri StoreId) (id : StoreId) (d : ResourceDiff) :
    SortedMap Iri StoreId :=
  d.deleted.keys.foldl SortedMap.erase (owners.insertMany (d.created.keys.map fun iri => (iri, id)))

/-- Apply an operation on the member at a place without telling anybody. -/
def commitOn (f : Federation) (now : Instant) (i : Fin f.members.length) (op : Operation) :
    Except StoreError (ResourceDiff × Federation) :=
  let m := f.members[i]
  match m.store.apply now op with
  | .error e => .error e
  | .ok (d, store) =>
    .ok (d, { f with
      members := f.members.set i { m with store }, owners := recordOwners f.owners m.id d })

/-! ## Telling the subscribers -/

/-- What a diff did, resource by resource : creations, changes and deletions. -/
def news (d : ResourceDiff) : List (Iri × ChangeKind × Option Resource) :=
  d.created.toList.map (fun e => (e.1, .created, some e.2))
    ++ d.changed.toList.map (fun e => (e.1, .changed, some e.2))
    ++ d.deleted.keys.map fun iri => (iri, .deleted, none)

/-- Announce what happened to a resource to some subscribers, under a number; the next one has
the number after it. -/
def announce (s : List Subscriber × UInt64) (n : Iri × ChangeKind × Option Resource) :
    List Subscriber × UInt64 :=
  (s.1.filterMap (Subscriber.offer ⟨s.2, n.1, n.2.1, n.2.2⟩), s.2 + 1)

/-- Tell the subscribers about a diff. -/
def publish (f : Federation) (d : ResourceDiff) : Federation :=
  let told := (news d).foldl announce (f.subscribers, f.nextSequence)
  { f with subscribers := told.1, nextSequence := told.2 }

/-- Who listens under a name. -/
def listener? (f : Federation) (name : String) : Option Subscriber :=
  f.subscribers.find? (Subscriber.listensAs name)

/-- Change whoever listens under a name. -/
def updateListener (f : Federation) (name : String) (g : Subscriber → Subscriber) : Federation :=
  { f with subscribers := f.subscribers.map fun s => if s.listensAs name then g s else s }

/-- Whether somebody listens under a name. -/
def hasSubscriber (f : Federation) (name : String) : Bool := (f.listener? name).isSome

/-- Hear of changes no longer. -/
def unsubscribe (f : Federation) (name : String) : Federation :=
  f.updateListener name fun s => { s with listening := false }

/-- Hear of changes from now on, under a name that becomes free for it. -/
def subscribe (f : Federation) (name : String) (wanted : Option Iri) : Federation :=
  let f := f.unsubscribe name
  { f with subscribers := f.subscribers ++ [⟨name, wanted, [], true⟩] }

/-- The events received under a name, which are forgotten thereby. -/
def drain (f : Federation) (name : String) : Option (List ChangeEvent × Federation) :=
  (f.listener? name).map fun s =>
    (s.received, f.updateListener name fun s => { s with received := [] })

/-! ## Operations with their announcements -/

/-- Apply an operation on the member at a place, and announce its diff. -/
def applyAt (f : Federation) (now : Instant) (op : Operation)
    (place : Except StoreError (Fin f.members.length)) :
    Except StoreError (ResourceDiff × Federation) :=
  match place with
  | .error e => .error e
  | .ok i => (f.commitOn now i op).map fun (d, f) => (d, f.publish d)

/-- Apply an operation on the member it goes to. -/
def apply (f : Federation) (now : Instant) (op : Operation) :
    Except StoreError (ResourceDiff × Federation) :=
  f.applyAt now op (route f.members f.owners op)

/-- Apply an operation on a given member. -/
def applyOn (f : Federation) (now : Instant) (id : StoreId) (op : Operation) :
    Except StoreError (ResourceDiff × Federation) :=
  f.applyAt now op (place? f.members id)

/-! ## Complex operations -/

/-- Why a complex operation failed : at which of its operations, counted from zero, and
for what reason. -/
structure ComplexError where
  step : Nat
  reason : StoreError
deriving DecidableEq

/-- The text of a failure. -/
def ComplexError.message (e : ComplexError) : String :=
  "Complex operation failed at step " ++ toString e.step ++ ": " ++ e.reason.message

/-- Copies of the states of members and of the owners, on which a complex operation is
carried out before any of it counts. -/
structure Staging (members : List Member) where
  states : Fin members.length → StoreState
  owners : SortedMap Iri StoreId

namespace Staging

variable {members : List Member}

/-- The copies with another state of the member at a place. -/
def set (g : Staging members) (i : Fin members.length) (state : StoreState) :
    Fin members.length → StoreState :=
  fun j => if j = i then state else g.states j

/-- Apply an operation on the copies. -/
def apply (g : Staging members) (now : Instant) (op : Operation) :
    Except StoreError (ResourceDiff × Staging members) :=
  match route members g.owners op with
  | .error e => .error e
  | .ok i =>
    match members[i].store.applyTo (g.states i) now op with
    | .error e => .error e
    | .ok (d, state) => .ok (d, ⟨g.set i state, recordOwners g.owners members[i].id d⟩)

/-- Apply operations on the copies from the `n`-th on. Each one sees what those before it
did, and `done` is the diff of those. -/
def applyAll (clock : Nat → Instant) : Nat → Staging members → ResourceDiff → List Operation →
    Except ComplexError (ResourceDiff × Staging members)
  | _, g, done, [] => .ok (done, g)
  | n, g, done, op :: rest =>
    match g.apply (clock n) op with
    | .error e => .error ⟨n, e⟩
    | .ok (d, g) => applyAll clock (n + 1) g (done.merge d) rest

/-- The members in the states of the copies. -/
def release (g : Staging members) : List Member :=
  List.ofFn fun i => { members[i] with store := members[i].store.withState (g.states i) }

end Staging

/-- The copies that a complex operation begins with. -/
def staging (f : Federation) : Staging f.members := ⟨fun i => f.members[i].store.state, f.owners⟩

/-- Carry out operations as one, the `n`-th at the time `clock n` : all of them, or none. -/
def applyAll (f : Federation) (clock : Nat → Instant) (ops : List Operation) :
    Except ComplexError ResourceDiff × Federation :=
  match f.staging.applyAll clock 0 .empty ops with
  | .error e => (.error e, f)
  | .ok (d, g) =>
    (.ok d, { f with members := g.release, owners := g.owners }.publish d)

end Federation

end DataSpec
