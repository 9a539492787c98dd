import UhCore.Entrypoint.DirectoryCalls
import UhCore.Entrypoint.Responses

/-!
The commands that only read the directory.
-/

namespace UhCore.Entrypoint.Commands

open Directory (Versioning ObjectStatus)
open Effects Http Response

/-- What the commands are built with. -/
structure Env where
  db : Database
  fmt : AddressFormat
  conv : Listing.Conversions
  stoull : Text → Except Exn Nat
  fmts : Formats

variable (env : Env) (scan : Scan)

def methodNotAllowed : Response :=
  (errorResponse .methodNotAllowed "MethodNotAllowed"
    "The specified method is not allowed against this resource.").set "X-Amz-Delete-Marker"
    (some "true".toList)

/-- The body and headers of a range. -/
def rangeResponse (res : Response) (range : Text) (obj : Object) (addr : Address) :
    Except Failure Response := do
  match ← parseRangeHeader env.stoull range addr.dataSize with
  | [spec] =>
    let part := applyRange addr [spec]
    let shown : Range := ⟨spec.start, Words.wrap 64 (spec.start + part.dataSize)⟩
    let res := { res with status := .partialContent, body := .stored part }
    return res.set "Content-Range"
      (some ("bytes ".toList ++ shown.toString ++ ['/'] ++ decimal obj.size))
  | _ => throw (.command ⟨.notImplemented, "NotImplemented", "No support for multiple ranges."⟩)

def getObject (req : Request) : Dir Response := do
  let version := req.query "versionId".toList
  match ← Dir.getObject env.db env.fmt scan req.bucket req.objectKey version with
  | none =>
    if version.isSome then return methodNotAllowed
    else throw (.exception (.undefinedBehaviour "object without a row"))
  | some (obj, addr) =>
    if version.isSome && decide (obj.state = .deleted) then
      return methodNotAllowed.set "Last-Modified" (some (env.fmts.imfFixdate obj.lastModified))
    else
      let res := setDefaultHeaders env.fmts ok obj
      match req.header "Range".toList with
      | none => return res.withBody (.stored addr)
      | some range => computed (rangeResponse env res range obj addr)

def headObject (req : Request) : Dir Response :=
  recover
    (do
      let obj ← Dir.headObject env.db scan req.bucket req.objectKey (req.query "versionId".toList)
      return (setDefaultHeaders env.fmts ok obj).set "Content-Length"
        (some (decimal obj.size)))
    fun _ => throw (.command ⟨.notFound, "NoSuchKey", "Object not found."⟩)

def headBucket (req : Request) : Dir Response := do
  Dir.bucketExists req.bucket
  return ok

def listBuckets : Dir Response := do
  return ok.withDocument (.buckets (← Dir.listBuckets scan))

def listObjects (req : Request) : Dir Response :=
  ask fun r => (Listing.listObjects env.conv r.toCatalog req).map fun response =>
    ok.withDocument (.listing response)

def listObjectsV2 (req : Request) : Dir Response :=
  ask fun r => (Listing.listObjectsV2 env.conv r.toCatalog req).map fun response =>
    ok.withDocument (.listingV2 response)

def listObjectVersions (req : Request) : Dir Response := do
  let encode ← computed (Listing.encoder (req.query "encoding-type".toList))
  let maxKeys := (← computed (Listing.queryNumber env.conv req "max-keys")).getD 1000
  let objects ← Dir.listObjectVersions env.db scan req.bucket (req.query "prefix".toList)
    (req.query "key-marker".toList) (req.query "version-id-marker".toList)
    (Words.wrap 64 (maxKeys + 1))
  return ok.withDocument
    (.versions (Listing.listVersionsResponse req encode maxKeys objects))

def getBucketPolicy (req : Request) : Dir Response := do
  match ← Dir.getBucketPolicy scan req.bucket with
  | some policy => return ok.withBody (.text policy)
  | none => return ofStatus .noContent

def getBucketCors (req : Request) : Dir Response := do
  match ← Dir.getBucketCors scan req.bucket with
  | some cors => return ok.withBody (.text cors)
  | none => return ofStatus .noContent

def versioningName : Versioning → Text
  | .disabled => "Disabled".toList
  | .enabled => "Enabled".toList
  | .suspended => "Suspended".toList

def getBucketVersioning (req : Request) : Dir Response := do
  let versioning ← Dir.getBucketVersioning scan req.bucket
  return ok.withDocument (.versionConfiguration
    (if versioning = .disabled then none else some (versioningName versioning)))

end UhCore.Entrypoint.Commands
