import UhCore.Lib.KeyMap
import UhCore.Lib.ReadCommitted

/-!
The tables `objects` and `object_refs` and the stored procedures on them.
Buckets are neither created nor deleted here, so a bucket is its name; its
versioning mode may change. A row keeps its content from its insertion on and
changes its status only. Version ids are random and taken to be unique: the
number of the row stands for its version.
-/

namespace UhCore.Directory

open ReadCommitted Script

inductive Versioning where
  | disabled
  | enabled
  | suspended
  deriving DecidableEq, Repr

inductive ObjectStatus where
  | normal
  | deleted
  | collected
  deriving DecidableEq, Repr

/-- A row of `objects`, without its id. The address is the stored byte
string. -/
structure ObjectRow where
  bucket : String
  name : String
  address : List UInt8
  size : Nat
  etag : Option String
  status : ObjectStatus
  sticky : Bool
  deriving DecidableEq, Repr

/-- `refs id` is the counter of the row of `object_refs`, 0 where there is no
row. -/
structure Tables where
  objects : KeyMap ObjectRow
  refs : Nat → Nat
  versioning : String → Versioning

/-- The writing statements of the procedures. -/
inductive Write where
  /-- `UPDATE objects SET status = 'Deleted'`, with `sticky` where it is set. -/
  | markDeleted (id : Nat) (sticky : Option Bool)
  | markCollected (id : Nat)
  | insertObject (id : Nat) (row : ObjectRow)
  | deleteObject (id : Nat)
  | incReference (id : Nat)
  | decReference (id : Nat)
  | setVersioning (bucket : String) (versioning : Versioning)
  deriving DecidableEq, Repr

/-- The effect of a statement. A row of `object_refs` needs its object and
keeps it from being deleted. A counter that is not positive any more goes
away with its row. -/
def Tables.apply (t : Tables) : Write → Option Tables
  | .markDeleted id sticky =>
    some { t with objects := t.objects.modify id fun row =>
      { row with status := .deleted, sticky := sticky.getD row.sticky } }
  | .markCollected id =>
    some { t with objects := t.objects.modify id fun row => { row with status := .collected } }
  | .insertObject id row => some { t with objects := t.objects.insert id row }
  | .deleteObject id =>
    if t.refs id = 0 then some { t with objects := t.objects.erase id } else none
  | .incReference id =>
    if (t.objects.lookup id).isSome then
      some { t with refs := Function.update t.refs id (t.refs id + 1) }
    else none
  | .decReference id => some { t with refs := Function.update t.refs id (t.refs id - 1) }
  | .setVersioning bucket versioning =>
    some { t with versioning := Function.update t.versioning bucket versioning }

abbrev Sql (α : Type) := Script Tables Write α

/-- What the object queries return. -/
structure ObjectResult where
  id : Nat
  address : List UInt8
  size : Nat
  etag : Option String
  version : Option Nat
  status : ObjectStatus
  sticky : Bool
  deriving DecidableEq, Repr

def ObjectResult.ofRow (version : Option Nat) (entry : Nat × ObjectRow) : ObjectResult :=
  ⟨entry.1, entry.2.address, entry.2.size, entry.2.etag, version, entry.2.status, entry.2.sticky⟩

def ObjectRow.isOf (row : ObjectRow) (bucket name : String) : Bool :=
  row.bucket == bucket && row.name == name

def vrmGetBucketInfo (bucket : String) : Sql Versioning := query fun t => t.versioning bucket

def vrmGetObject (bucket name : String) : Sql (Option ObjectResult) := do
  let versioning ← vrmGetBucketInfo bucket
  match versioning with
  | .disabled =>
    query fun t =>
      (t.objects.findLast fun e => e.2.status == .normal && e.2.isOf bucket name).map
        (.ofRow none)
  | _ =>
    query fun t =>
      (t.objects.findLast fun e =>
        !(e.2.status == .deleted && !e.2.sticky) && e.2.isOf bucket name).map
        fun e => .ofRow (some e.1) e

def vrmGetObjectByVersion (bucket name : String) (version : Nat) : Sql (Option ObjectResult) :=
  query fun t =>
    (t.objects.findLast fun e => e.2.isOf bucket name && e.1 == version).map
      fun e => .ofRow (some e.1) e

/-- The INSERT of `vrm_put_object`. -/
def insertObject (bucket name : String) (address : List UInt8) (size : Nat)
    (etag : Option String) (sticky : Bool) : Sql Nat := do
  let id ← fresh
  exec (.insertObject id ⟨bucket, name, address, size, etag, .normal, sticky⟩)
  return id

/-- Mark the row that a new one displaces, if there is one. -/
def displace : Option ObjectResult → Sql Unit
  | some object => exec (.markDeleted object.id none)
  | none => pure ()

structure PutResult where
  id : Nat
  version : Option Nat
  deriving DecidableEq, Repr

def vrmPutObject (bucket name : String) (address : List UInt8) (size : Nat)
    (etag : Option String) : Sql PutResult := do
  let versioning ← vrmGetBucketInfo bucket
  match versioning with
  | .disabled =>
    let found ← vrmGetObject bucket name
    displace found
    let id ← insertObject bucket name address size etag false
    return ⟨id, none⟩
  | .enabled =>
    let id ← insertObject bucket name address size etag true
    return ⟨id, some id⟩
  | .suspended =>
    let found ← vrmGetObject bucket name
    displace (found.filter fun object => !object.sticky)
    let id ← insertObject bucket name address size etag false
    return ⟨id, none⟩

structure DeleteResult where
  deleteMarker : Bool
  version : Option Nat
  deriving DecidableEq, Repr

def vrmDeleteObject (bucket name : String) : Sql DeleteResult := do
  let versioning ← vrmGetBucketInfo bucket
  let found ← vrmGetObject bucket name
  match found with
  | none => .raise
  | some object =>
    if object.status = .deleted then .raise
    else
      match versioning with
      | .enabled =>
        let marker ← vrmPutObject bucket name [] 0 none
        exec (.markDeleted marker.id (some true))
        return ⟨true, some marker.id⟩
      | .suspended =>
        if object.sticky then
          let marker ← vrmPutObject bucket name [] 0 none
          exec (.markDeleted marker.id (some true))
          return ⟨true, some marker.id⟩
        else
          exec (.markDeleted object.id (some true))
          return ⟨true, some object.id⟩
      | .disabled =>
        exec (.markDeleted object.id none)
        return ⟨true, none⟩

def vrmDeleteObjectVersion (bucket name : String) (version : Nat) : Sql DeleteResult := do
  let found ← vrmGetObjectByVersion bucket name version
  match found with
  | none => .raise
  | some object =>
    exec (.markDeleted object.id (some false))
    return ⟨object.status == .deleted, none⟩

def vrmDeleteObjectNullVersion (bucket name : String) : Sql DeleteResult := do
  let found ← anyOf fun t =>
    t.objects.entries.filter fun e =>
      !e.2.sticky && e.2.status == .normal && e.2.isOf bucket name
  match found with
  | none => .raise
  | some entry =>
    exec (.markDeleted entry.1 none)
    return ⟨false, none⟩

def vrmBucketSetVersioning (bucket : String) (versioning : Versioning) : Sql Unit :=
  exec (.setVersioning bucket versioning)

/-- A row for the garbage collector. -/
structure ToDelete where
  id : Nat
  address : List UInt8
  deriving DecidableEq, Repr

/-- The claim of a row: the UPDATE names the row that the SELECT has found and
nothing else. -/
def vrmNextDeleted : Sql (Option ToDelete) := do
  let target ← anyOf fun t =>
    t.objects.entries.filter fun e =>
      e.2.status == .deleted && !e.2.sticky && t.refs e.1 == 0
  match target with
  | none => return none
  | some entry =>
    exec (.markCollected entry.1)
    return some ⟨entry.1, entry.2.address⟩

def vrmDeleteObjectById (id : Nat) : Sql Unit := exec (.deleteObject id)

def vrmIncReference (id : Nat) : Sql Unit := do
  let found ← query fun t => (t.objects.lookup id).isSome
  if found then exec (.incReference id) else .raise

def vrmDecReference (id : Nat) : Sql Unit := do
  let found ← query fun t => (t.objects.lookup id).isSome
  if found then exec (.decReference id) else .raise

end UhCore.Directory
