import UhCore.Entrypoint.Procedures

/-!
The class `directory`: what it makes of the stored procedures and their
exceptions. Several queries of one function see the same tables here, as
requests come one after the other.
-/

namespace UhCore.Entrypoint

open Directory (Versioning ObjectStatus)
open Effects

/-- The serialization of addresses by the library `zpp::bits`. -/
structure AddressFormat where
  toBuffer : Address → List UInt8
  toAddress : List UInt8 → Except Exn Address
  toAddress_toBuffer : ∀ addr, toAddress (toBuffer addr) = .ok addr

structure NewObject where
  name : Text
  addr : Option Address
  etag : Option Text
  mime : Option Text

abbrev Dir (α : Type) := Effect Records Failure α

def noSuchKey : Failure := .command ⟨.notFound, "NoSuchKey", "The specified key does not exist."⟩

def bucketNotEmpty : Failure :=
  .command ⟨.conflict, "BucketNotEmpty", "The bucket that you tried to delete is not empty."⟩

def bucketNameTaken : Failure :=
  .command ⟨.conflict, "BucketAlreadyExists",
    "The requested bucket name is not available. The bucket namespace is shared by all users " ++
      "of the system. Specify a different name and try again."⟩

/-- A procedure whose exceptions are passed on. -/
def call {α : Type} (m : Sql α) : Dir α := rethrow .exception m

def toVersioning (s : Text) : Except Exn Versioning :=
  if Http.equalsNocase s "Disabled".toList then .ok .disabled
  else if Http.equalsNocase s "Enabled".toList then .ok .enabled
  else if Http.equalsNocase s "Suspended".toList then .ok .suspended
  else .error (.runtimeError ("unsupported versioning type: " ++ String.ofList s))

section BucketNames

def isDigit (c : Char) : Bool := '0' ≤ c && c ≤ '9'

def isBucketLetter (c : Char) : Bool := ('a' ≤ c && c ≤ 'z') || isDigit c

def isBucketSeparator (c : Char) : Bool := c = '.' || c = '-' || decide (c ∈ Http.whitespace)

/-- Four numbers of one to three digits with dots between them. -/
def isIpAddress (s : Text) : Bool :=
  let parts := s.splitOn '.'
  decide (parts.length = 4) &&
    parts.all fun part => part.all isDigit && decide (1 ≤ part.length) && decide (part.length ≤ 3)

/-- Two separators stand side by side. -/
def hasAdjacentSeparators : Text → Bool
  | c :: d :: rest =>
    isBucketSeparator c && isBucketSeparator d || hasAdjacentSeparators (d :: rest)
  | _ => false

/-- What the pattern of `validate_bucket_name` matches. -/
def matchesBucketPattern (s : Text) : Bool :=
  !("xn--".toList.isPrefixOf s || "sthree-".toList.isPrefixOf s) &&
    !("-s3alias".toList.isSuffixOf s || "--ol-s3".toList.isSuffixOf s) &&
    !isIpAddress s &&
    (match s with
      | [] => false
      | first :: rest => isBucketLetter first && decide (rest ≠ []) &&
          !hasAdjacentSeparators rest &&
          rest.all (fun c => isBucketLetter c || c = '.' || c = '-') &&
          (rest.getLast?.map isBucketLetter).getD false)

def validateBucketName (bucket : Text) : Except Failure Unit :=
  if bucket.length < 3 ∨ 63 < bucket.length then
    .error (.command ⟨.badRequest, "InvalidBucketName",
      "The specified bucket name has invalid length."⟩)
  else if matchesBucketPattern bucket then .ok ()
  else .error (.command ⟨.badRequest, "InvalidBucketName",
      "The specified bucket name has invalid characters."⟩)

end BucketNames

def Found.object (found : Found) : Object := rowToObject found.version (found.id, found.row)

namespace Dir

variable (db : Database) (fmt : AddressFormat) (scan : Scan) (now : Nat)

def bucketExists (bucket : Text) : Dir Unit :=
  recover (ask fun r => r.vrmCheckBucket bucket) fun _ => throw Catalog.noSuchBucket

/-- Where the procedure returns no row, the code reads it nevertheless. -/
def putObject (bucket : Text) (obj : NewObject) : Dir (Option Text) :=
  match obj.addr with
  | none => throw (.exception (.runtimeError "put_object requires address"))
  | some addr => do
    let row ← recover (vrmPutObject db scan now bucket obj.name (fmt.toBuffer addr)
      addr.dataSize obj.etag obj.mime) fun _ => throw Catalog.noSuchBucket
    match row with
    | none => throw (.exception (.undefinedBehaviour "row of an empty result"))
    | some row => return row.version

def find (bucket object : Text) : Option Text → Dir (Option Found)
  | some version => do
    let version ← computed ((db.toUuid version).mapError .exception)
    call (ask fun r => r.vrmGetObjectByVersion bucket object version)
  | none => call (ask fun r => r.vrmGetObject scan bucket object)

/-- Nothing is returned for a version that is not there. -/
def getObject (bucket object : Text) (version : Option Text) : Dir (Option (Object × Address)) := do
  match ← find db scan bucket object version with
  | none => if version.isSome then return none else throw noSuchKey
  | some found =>
    let addr ← computed ((fmt.toAddress found.row.address).mapError .exception)
    return some (found.object, addr)

def headObject (bucket object : Text) (version : Option Text) : Dir Object := do
  match ← find db scan bucket object version with
  | none => throw noSuchKey
  | some found => return found.object

def putBucket (bucket : Text) : Dir PUnit := do
  computed (validateBucketName bucket)
  recover (vrmCreateBucket bucket) fun _ => throw bucketNameTaken

/-- The objects are those of the listing without prefix and lower bound. -/
def deleteBucket (bucket : Text) : Dir PUnit := do
  bucketExists bucket
  let rows ← call (ask fun r => r.vrmListObjects bucket [] [])
  if 0 < rows.length then throw bucketNotEmpty
  call (vrmDeleteBucket bucket)

/-- Exceptions are caught. -/
def deleteObject (bucket object : Text) (version : Option Text) : Dir DeleteResult := do
  let row ← recover
    (match version with
      | some version =>
        if version = "null".toList then vrmDeleteObjectNullVersion scan bucket object
        else do vrmDeleteObjectVersion bucket object (← computed (db.toUuid version))
      | none => vrmDeleteObject db scan now bucket object)
    fun _ => pure none
  return row.getD ⟨false, none⟩

def listBuckets : Dir (List Text) := query fun r => r.vrmListBuckets scan

def getBucketPolicy (bucket : Text) : Dir (Option Text) :=
  recover (ask fun r => r.vrmBucketPolicy scan bucket) fun _ => throw Catalog.noSuchBucket

def setBucketPolicy (bucket : Text) (policy : Option Text) : Dir PUnit := do
  bucketExists bucket
  let policy ← computed ((policy.mapM db.toJson).mapError .exception)
  call (vrmBucketSetPolicy bucket policy)

def getBucketCors (bucket : Text) : Dir (Option Text) :=
  recover (ask fun r => r.vrmBucketCors scan bucket) fun _ => throw Catalog.noSuchBucket

def setBucketCors (bucket : Text) (cors : Option Text) : Dir PUnit := do
  bucketExists bucket
  let cors ← computed ((cors.mapM db.toXml).mapError .exception)
  call (vrmBucketSetCors bucket cors)

def getBucketVersioning (bucket : Text) : Dir Versioning :=
  recover (ask fun r => r.vrmBucketVersioning scan bucket) fun _ => throw Catalog.noSuchBucket

def setBucketVersioning (bucket : Text) (versioning : Versioning) : Dir PUnit := do
  bucketExists bucket
  call (vrmBucketSetVersioning bucket versioning)

def listObjects (bucket : Text) (pfx lowerBound : Option Text) : Dir (List Object) :=
  ask fun r => r.listObjects bucket pfx lowerBound

/-- The limit is an `INTEGER` of the database. -/
def listObjectVersions (bucket : Text) (pfx keyMarker versionMarker : Option Text) (limit : Nat) :
    Dir (List Object) := do
  bucketExists bucket
  let version ← computed ((versionMarker.mapM db.toUuid).mapError .exception)
  if 2 ^ 31 ≤ limit then throw (.exception (.runtimeError "integer out of range"))
  query fun r => (r.vrmListObjectVersions scan bucket pfx keyMarker version limit).map fun e =>
    rowToObject (some e.2.version) e

/-- The row is marked before its address is read. -/
def nextDeleted : Dir (Option (Nat × Address)) := do
  match ← call (vrmNextDeleted scan) with
  | none => return none
  | some row =>
    let addr ← computed ((fmt.toAddress row.address).mapError .exception)
    return some (row.id, addr)

def clearBuckets : Dir PUnit := call vrmClearDeletedBuckets

def removeObject (id : Nat) : Dir PUnit := call (vrmDeleteObjectById id)

/-- An iteration of the garbage collector; exceptions of `unlink` are caught, so
that the row goes in any case. -/
def collect : Dir PUnit := do
  match ← nextDeleted fmt scan with
  | none => clearBuckets
  | some (id, _) => removeObject id

end Dir

end UhCore.Entrypoint
