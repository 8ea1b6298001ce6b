import DataSpec.Resource.Basic

/-!
# Diffs

A `ResourceDiff` is what a successful operation does to a resource map : the resources it
creates, the new bodies of those it changes, and the identifiers it deletes.
`ResourceDiff.applyTo` carries it out, and `ResourceDiff.merge` joins two that follow one
another.
-/

set_option autoImplicit false

namespace DataSpec

/-- What an operation does to the resources of a store. -/
structure ResourceDiff where
  created : ResourceMap
  changed : ResourceMap
  deleted : SortedSet Iri
deriving DecidableEq

namespace ResourceDiff

/-- The diff that does nothing. -/
def empty : ResourceDiff := ⟨.empty, .empty, .empty⟩

/-- Whether the diff does nothing. -/
def isEmpty (d : ResourceDiff) : Bool :=
  d.created.isEmpty && d.changed.isEmpty && d.deleted.isEmpty

/-- Whether no identifier is in two of the three sets. -/
def isDisjoint (d : ResourceDiff) : Bool :=
  (d.created.keys.all fun iri => !d.changed.contains iri && !d.deleted.contains iri)
    && d.changed.keys.all fun iri => !d.deleted.contains iri

/-- The identifiers created, changed and deleted, in this order. -/
def iris (d : ResourceDiff) : List Iri := d.created.keys ++ d.changed.keys ++ d.deleted.keys

/-- Note a new resource. -/
def create (d : ResourceDiff) (r : Resource) : ResourceDiff :=
  { d with created := d.created.insert r.iri r }

/-- Note a deletion. Earlier changes of the resource are void, and a resource that the
diff itself created is as if it had never been. -/
def delete (d : ResourceDiff) (iri : Iri) : ResourceDiff :=
  if d.created.contains iri then
    { d with changed := d.changed.erase iri, created := d.created.erase iri }
  else
    { d with changed := d.changed.erase iri, deleted := SortedSet.add d.deleted iri }

/-- The resources after the diff. -/
def applyTo (d : ResourceDiff) (m : ResourceMap) : ResourceMap :=
  ((d.deleted.keys.foldl SortedMap.erase m).insertMany d.created.toList).insertMany
    d.changed.toList

/-- Note a creation by a later diff : it takes back a deletion. -/
def thenCreated (d : ResourceDiff) (iri : Iri) (r : Resource) : ResourceDiff :=
  { d with deleted := d.deleted.erase iri, created := d.created.insert iri r }

/-- Note a change by a later diff : of a resource created here it becomes the body. -/
def thenChanged (d : ResourceDiff) (iri : Iri) (r : Resource) : ResourceDiff :=
  if d.created.contains iri then { d with created := d.created.insert iri r }
  else { d with changed := d.changed.insert iri r }

/-- One diff for two that follow one another. -/
def merge (d later : ResourceDiff) : ResourceDiff :=
  let d := later.created.toList.foldl (fun d e => d.thenCreated e.1 e.2) d
  let d := later.changed.toList.foldl (fun d e => d.thenChanged e.1 e.2) d
  later.deleted.keys.foldl delete d

/-- The written form. -/
def toJson (d : ResourceDiff) : Json :=
  .obj [("created", d.created.toJson), ("changed", d.changed.toJson),
    ("deleted", .strings d.deleted.keys)]

/-- The diff with a written form. -/
def ofJson? (v : Json) : Option ResourceDiff :=
  match v.record ["created", "changed", "deleted"] with
  | some [created, changed, deleted] =>
    match created.required ResourceMap.ofJson?, changed.required ResourceMap.ofJson?,
      deleted.required (Json.list? Json.str?) with
    | some created, some changed, some deleted =>
      some ⟨created, changed, SortedSet.ofList deleted⟩
    | _, _, _ => none
  | _ => none

end ResourceDiff

end DataSpec
