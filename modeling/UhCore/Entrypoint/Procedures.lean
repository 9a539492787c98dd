import UhCore.Entrypoint.Catalog
import UhCore.Lib.Effects

/-!
The stored procedures of the directory, for requests that come one after the
other. No procedure raises an exception behind its first change, so none has to
be rolled back. A request that reads an object gives its reference on the row
back before the next request, so `object_refs` is not kept; neither is the time
of a deletion, which only the usage report reads.
-/

namespace UhCore.Entrypoint

open Directory (Versioning ObjectStatus)
open Effects

/-- What the database generates and how it reads the texts it is given. `uuid`
are the random UUIDs, in the order in which they are drawn. -/
structure Database where
  uuid : Nat → Text
  toUuid : Text → Except Exn Text
  toJson : Text → Except Exn Text
  toXml : Text → Except Exn Text

/-- The order in which a statement without `ORDER BY` finds rows, given by their
ids. -/
structure Scan where
  order : List Nat → List Nat
  perm : ∀ ids, (order ids).Perm ids

/-- The row that `SELECT INTO` takes when it finds several. -/
def Scan.first {β : Type} (scan : Scan) (rows : List (Nat × β)) : Option (Nat × β) :=
  (scan.order (rows.map Prod.fst)).head?.bind fun id => rows.find? fun e => decide (e.1 = id)

/-- The rows in the order in which they are found. -/
def Scan.rows {β : Type} (scan : Scan) (rows : List (Nat × β)) : List (Nat × β) :=
  (scan.order (rows.map Prod.fst)).filterMap fun id => rows.find? fun e => decide (e.1 = id)

/-- The tables with what the next rows are numbered. -/
structure Records extends Catalog where
  nextBucket : Nat
  nextObject : Nat
  drawn : Nat

abbrev Sql (α : Type) := Effect Records Exn α

def noBucket (bucket : Text) : Exn :=
  .runtimeError ("Bucket \"" ++ String.ofList bucket ++ "\" does not exist.")

def noBucketRow (bucket : Text) : Exn :=
  .runtimeError ("Bucket \"" ++ String.ofList bucket ++ "s\" does not exist in buckets table")

def bucketAlreadyExists (bucket : Text) : Exn :=
  .runtimeError ("Bucket \"" ++ String.ofList bucket ++ "s\" already exists")

def cannotDelete (bucket object : Text) : Exn :=
  .runtimeError ("Cannot delete object \"" ++ String.ofList object ++ "\" in bucket \"" ++
    String.ofList bucket ++ "\", as it does not appear to exist.")

/-- `CURRENT_TIMESTAMP(0)` and a second, for a time in microseconds. -/
def ceiledNow (now : Nat) : Nat := (now + 500000) / 1000000 + 1

/-- What the queries for an object return. -/
structure Found where
  id : Nat
  row : ObjectRow
  version : Option Text

namespace Catalog

def named (c : Catalog) (bucket : Text) : List (Nat × BucketRow) :=
  c.buckets.entries.filter fun e => decide (e.2.name = bucket)

def live (c : Catalog) (bucket : Text) : List (Nat × BucketRow) :=
  c.buckets.entries.filter fun e => !e.2.deleted && decide (e.2.name = bucket)

def vrmGetBucketInfo (scan : Scan) (c : Catalog) (bucket : Text) : Option (Nat × Versioning) :=
  (scan.first (c.live bucket)).map fun e => (e.1, e.2.versioning)

/-- The rows of a bucket with a property. The function that finds the bucket is
called for rows with the property only, so without one a bucket that does not
exist is not noticed. -/
def inBucket (c : Catalog) (bucket : Text) (p : Nat × ObjectRow → Bool) :
    Except Exn (List (Nat × ObjectRow)) :=
  match c.objects.entries.filter p with
  | [] => .ok []
  | e :: rest =>
    match c.vrmGetBucketId bucket with
    | none => .error (noBucket bucket)
    | some id => .ok ((e :: rest).filter fun e => decide (e.2.bucketId = id))

/-- The rows that are current in a bucket without versioning. -/
def plain (object : Text) (e : Nat × ObjectRow) : Bool :=
  decide (e.2.status = .normal) && decide (e.2.name = object)

/-- The rows that may be current in a bucket with versions. -/
def kept (object : Text) (e : Nat × ObjectRow) : Bool :=
  !(decide (e.2.status = .deleted) && !e.2.sticky) && decide (e.2.name = object)

def vrmGetObject (scan : Scan) (c : Catalog) (bucket object : Text) : Except Exn (Option Found) :=
  match (c.vrmGetBucketInfo scan bucket).map Prod.snd with
  | some .disabled => (c.inBucket bucket (plain object)).map fun rows =>
    rows.getLast?.map fun e => ⟨e.1, e.2, none⟩
  | _ => (c.inBucket bucket (kept object)).map fun rows =>
    rows.getLast?.map fun e => ⟨e.1, e.2, some e.2.version⟩

def vrmGetObjectByVersion (c : Catalog) (bucket object version : Text) :
    Except Exn (Option Found) :=
  (c.inBucket bucket fun e => decide (e.2.name = object) && decide (e.2.version = version)).map
    fun rows => rows.getLast?.map fun e => ⟨e.1, e.2, some e.2.version⟩

def vrmCheckBucket (c : Catalog) (bucket : Text) : Except Exn Unit :=
  if (c.live bucket).isEmpty then .error (noBucketRow bucket) else .ok ()

def vrmListBuckets (scan : Scan) (c : Catalog) : List Text :=
  (scan.rows (c.buckets.entries.filter fun e => !e.2.deleted)).map fun e => e.2.name

def vrmBucketPolicy (scan : Scan) (c : Catalog) (bucket : Text) : Except Exn (Option Text) :=
  match scan.first (c.named bucket) with
  | none => .error (noBucketRow bucket)
  | some e => .ok e.2.policy

def vrmBucketCors (scan : Scan) (c : Catalog) (bucket : Text) : Except Exn (Option Text) :=
  match scan.first (c.named bucket) with
  | none => .error (noBucketRow bucket)
  | some e => .ok e.2.cors

def vrmBucketVersioning (scan : Scan) (c : Catalog) (bucket : Text) : Except Exn Versioning :=
  match scan.first (c.named bucket) with
  | none => .error (noBucketRow bucket)
  | some e => .ok e.2.versioning

def inNamed (c : Catalog) (bucket : Text) : List (Nat × ObjectRow) :=
  c.objects.entries.filter fun e => (c.named bucket).any fun b => decide (b.1 = e.2.bucketId)

/-- The first row of the version marker, if there is one. -/
def versionMarker (scan : Scan) (c : Catalog) (bucket : Text) (keyMarker versionMarker : Option Text) :
    Option Nat :=
  match versionMarker with
  | none => none
  | some version => (scan.first ((c.inNamed bucket).filter fun e =>
    decide (some e.2.name = keyMarker) && decide (e.2.version = version))).map Prod.fst

def byNameNewest (rows : List (Nat × ObjectRow)) : List (Nat × ObjectRow) :=
  rows.insertionSort fun a b => a.2.name < b.2.name ∨ a.2.name = b.2.name ∧ b.1 ≤ a.1

def vrmListObjectVersions (scan : Scan) (c : Catalog) (bucket : Text)
    (pfx keyMarker version : Option Text) (maxKeys : Nat) : List (Nat × ObjectRow) :=
  let minId := c.versionMarker scan bucket keyMarker version
  (byNameNewest ((c.inNamed bucket).filter fun e =>
    (decide (e.2.status = .normal) || e.2.sticky) &&
      (match minId with
        | none => true
        | some id => decide (id ≤ e.1)) &&
      match pfx with
        | none => true
        | some pfx => like (pfx ++ ['%']) e.2.name)).take maxKeys

end Catalog

namespace Records

def updateBuckets (r : Records) (bucket : Text) (f : BucketRow → BucketRow) : Records :=
  { r with buckets := r.buckets.mapValues fun row => if row.name = bucket then f row else row }

/-- `UPDATE objects SET status = 'Deleted'`, with `sticky` where it is set. -/
def markDeleted (r : Records) (id : Nat) (sticky : Option Bool) : Records :=
  { r with objects := r.objects.modify id fun row =>
      { row with status := .deleted, sticky := sticky.getD row.sticky } }

/-- `INSERT INTO objects`. -/
def insertObject (r : Records) (row : ObjectRow) : Records :=
  { r with
    objects := r.objects.insert r.nextObject row
    nextObject := r.nextObject + 1
    drawn := r.drawn + 1 }

end Records

/-- What `vrm_put_object` and `vrm_delete_object` read of the current row. -/
structure Current where
  id : Nat
  sticky : Bool
  status : ObjectStatus
  deriving DecidableEq, Repr

def Found.current (found : Found) : Current := ⟨found.id, found.row.sticky, found.row.status⟩

structure PutResult where
  id : Nat
  version : Option Text
  deriving DecidableEq, Repr

structure DeleteResult where
  deleteMarker : Bool
  version : Option Text
  deriving DecidableEq, Repr

section Writes

variable (db : Database) (scan : Scan) (now : Nat)

def currentObject (bucket object : Text) : Sql (Option Current) :=
  ask fun r => (r.vrmGetObject scan bucket object).map (Option.map Found.current)

def insertObject (bucketId : Nat) (object : Text) (address : List UInt8) (size : Nat)
    (etag mime : Option Text) (sticky : Bool) : Sql (Nat × Text) := act fun r =>
  let version := db.uuid r.drawn
  let row : ObjectRow :=
    ⟨bucketId, object, address, size, ceiledNow now, etag, mime, version, .normal, sticky⟩
  (.ok (r.nextObject, version), r.insertObject row)

def markDeleted (id : Nat) (sticky : Option Bool) : Sql PUnit :=
  modify fun r => r.markDeleted id sticky

/-- Mark the row that a new one displaces, if there is one. -/
def displace : Option Current → Sql PUnit
  | some found => markDeleted found.id none
  | none => pure ⟨⟩

/-- Without a bucket of the name there is no row in the result. -/
def vrmPutObject (bucket object : Text) (address : List UInt8) (size : Nat)
    (etag mime : Option Text) : Sql (Option PutResult) := do
  match ← query fun r => r.vrmGetBucketInfo scan bucket with
  | none => return none
  | some (bucketId, .disabled) =>
    displace (← currentObject scan bucket object)
    let (id, _) ← insertObject db now bucketId object address size etag mime false
    return some ⟨id, none⟩
  | some (bucketId, .enabled) =>
    let (id, version) ← insertObject db now bucketId object address size etag mime true
    return some ⟨id, some version⟩
  | some (bucketId, .suspended) =>
    displace ((← currentObject scan bucket object).filter fun found => !found.sticky)
    let (id, _) ← insertObject db now bucketId object address size etag mime false
    return some ⟨id, none⟩

/-- `SELECT True, o.version FROM objects o WHERE id = obj_id`. -/
def deletedVersion (id : Nat) : Sql (Option DeleteResult) :=
  query fun r => (r.objects.lookup id).map fun row => ⟨true, some row.version⟩

/-- Put a row without content and mark it. -/
def putMarker (bucket object : Text) : Sql (Option DeleteResult) := do
  match ← vrmPutObject db scan now bucket object [] 0 none none with
  | none => return none
  | some marker =>
    markDeleted marker.id (some true)
    deletedVersion marker.id

def vrmDeleteObject (bucket object : Text) : Sql (Option DeleteResult) := do
  let versioning ← query fun r => (r.vrmGetBucketInfo scan bucket).map Prod.snd
  match ← currentObject scan bucket object with
  | none => throw (cannotDelete bucket object)
  | some found =>
    if found.status = .deleted then throw (cannotDelete bucket object)
    else
      match versioning with
      | some .enabled => putMarker db scan now bucket object
      | some .suspended =>
        if found.sticky then putMarker db scan now bucket object
        else do
          markDeleted found.id (some true)
          deletedVersion found.id
      | _ => do
        markDeleted found.id none
        return some ⟨true, none⟩

def vrmDeleteObjectVersion (bucket object version : Text) : Sql (Option DeleteResult) := do
  match ← ask fun r => (r.vrmGetObjectByVersion bucket object version).map
      (Option.map Found.current) with
  | none => throw (cannotDelete bucket object)
  | some found =>
    markDeleted found.id (some false)
    return some ⟨decide (found.status = .deleted), none⟩

/-- The null version: a row that is not sticky. -/
def vrmDeleteObjectNullVersion (bucket object : Text) : Sql (Option DeleteResult) := do
  match ← ask fun r => (r.inBucket bucket fun e => !e.2.sticky && Catalog.plain object e).map
      fun rows => (scan.first rows).map Prod.fst with
  | none => throw (cannotDelete bucket object)
  | some id =>
    markDeleted id none
    return some ⟨false, none⟩

/-- A row for the garbage collector. -/
structure Deleted where
  id : Nat
  address : List UInt8
  deriving DecidableEq, Repr

def vrmNextDeleted : Sql (Option Deleted) := act fun r =>
  match scan.first (r.objects.entries.filter fun e =>
      decide (e.2.status = .deleted) && !e.2.sticky) with
  | none => (.ok none, r)
  | some e => (.ok (some ⟨e.1, e.2.address⟩),
      { r with objects := r.objects.modify e.1 fun row => { row with status := .collected } })

def vrmDeleteObjectById (id : Nat) : Sql PUnit :=
  modify fun r => { r with objects := r.objects.erase id }

/-- Remove the deleted buckets without objects. -/
def vrmClearDeletedBuckets : Sql PUnit :=
  modify fun r => { r with buckets := r.buckets.filter fun e =>
    !e.2.deleted || r.objects.entries.any fun o => decide (o.2.bucketId = e.1) }

def vrmCreateBucket (bucket : Text) : Sql PUnit := act fun r =>
  if (r.live bucket).isEmpty then
    (.ok ⟨⟩, { r with
      buckets := r.buckets.insert r.nextBucket ⟨bucket, false, none, none, .disabled⟩
      nextBucket := r.nextBucket + 1 })
  else (.error (bucketAlreadyExists bucket), r)

def vrmDeleteBucket (bucket : Text) : Sql PUnit := act fun r =>
  match r.vrmGetBucketId bucket with
  | none => (.error (noBucket bucket), r)
  | some id => (.ok ⟨⟩, { r with
      buckets := r.buckets.modify id fun row => { row with deleted := true } })

/-- `UPDATE buckets .. WHERE name = bucket`, with an exception where there is no
such row. -/
def updateBucket (bucket : Text) (f : BucketRow → BucketRow) : Sql PUnit := act fun r =>
  if (r.named bucket).isEmpty then (.error (noBucketRow bucket), r)
  else (.ok ⟨⟩, r.updateBuckets bucket f)

def vrmBucketSetPolicy (bucket : Text) (policy : Option Text) : Sql PUnit :=
  updateBucket bucket fun row => { row with policy := policy }

def vrmBucketSetCors (bucket : Text) (cors : Option Text) : Sql PUnit :=
  updateBucket bucket fun row => { row with cors := cors }

def vrmBucketSetVersioning (bucket : Text) (versioning : Versioning) : Sql PUnit :=
  updateBucket bucket fun row => { row with versioning := versioning }

end Writes

end UhCore.Entrypoint
