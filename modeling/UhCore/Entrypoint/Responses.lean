import UhCore.Entrypoint.Ranges
import UhCore.Entrypoint.VersionListing

/-!
Responses. An XML body is given by what its tree is made from; the data of an
object by its address, as it is read from the storage when the response is
written.
-/

namespace UhCore.Entrypoint

open Http

inductive Document where
  | error (code reason : String)
  | buckets (names : List Text)
  | listing (response : Listing.ListObjectsResponse)
  | listingV2 (response : Listing.ListObjectsV2Response)
  | versions (response : Listing.ListVersionsResponse)
  | uploads (bucket : Text) (ongoing : List (Text × Text))
  | initiateResult (bucket key uploadId : Text)
  | completeResult (bucket key etag : Text)
  | copyResult (lastModified : Nat) (etag : Option Text)
  | deleteResult (deleted : List Text) (failed : List (Text × Text))
  | versionConfiguration (status : Option Text)

inductive Body where
  | text (s : Text)
  | xml (document : Document)
  | stored (addr : Address)

structure Response where
  status : Status
  headers : List Field
  body : Body

namespace Response

def ofStatus (status : Status) : Response := ⟨status, [], .text []⟩

def ok : Response := ofStatus .ok

def set (res : Response) (header : String) (value : Option Text) : Response :=
  let others := res.headers.filter fun field => !equalsNocase field.name header.toList
  { res with headers := others ++ (value.map fun v => ⟨header.toList, v⟩).toList }

def withDocument (res : Response) (document : Document) : Response :=
  { res.set "Content-Type" (some "application/xml".toList) with body := .xml document }

def withBody (res : Response) (body : Body) : Response := { res with body := body }

@[simp] theorem set_status (res : Response) (header : String) (value : Option Text) :
    (res.set header value).status = res.status := rfl

@[simp] theorem set_body (res : Response) (header : String) (value : Option Text) :
    (res.set header value).body = res.body := rfl

end Response

def errorResponse (status : Status) (code reason : String) : Response :=
  (Response.ofStatus status).withDocument (.error code reason)

/-- `make_response`, with what is answered for an exception that is not a
`command_exception`. -/
def Failure.response : Failure → Response
  | .command e => errorResponse e.status e.code e.reason
  | .exception _ => errorResponse .internalServerError "InternalError" "Internal server error."

/-- How times and sizes are written. -/
structure Formats where
  imfFixdate : Nat → Text
  mebibytes : Nat → Text

def setDefaultHeaders (fmts : Formats) (res : Response) (obj : Object) : Response :=
  (((res.set "ETag" obj.etag).set "Content-Type" obj.mime).set "Last-Modified"
    (some (fmts.imfFixdate obj.lastModified))).set "X-Amz-Version-Id" obj.version

@[simp] theorem setDefaultHeaders_status (fmts : Formats) (res : Response) (obj : Object) :
    (setDefaultHeaders fmts res obj).status = res.status := rfl

def setOriginalSize (fmts : Formats) (res : Response) (size : Nat) : Response :=
  (res.set "vrm-original-size" (some (decimal size))).set "vrm-original-size-mb"
    (some (fmts.mebibytes size))

def setEffectiveSize (fmts : Formats) (res : Response) (size : Nat) : Response :=
  (res.set "vrm-effective-size" (some (decimal size))).set "vrm-effective-size-mb"
    (some (fmts.mebibytes size))

end UhCore.Entrypoint
