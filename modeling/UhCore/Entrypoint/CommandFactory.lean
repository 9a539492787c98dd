import UhCore.Entrypoint.RequestFactory

/-!
The commands of the entrypoint and which of them a request is for. The commands
on users come as a form that is posted to the root; all others are told apart
by the method, the path, the query and a header.
-/

namespace UhCore.Entrypoint

open Effects Http

inductive Command where
  | getObject
  | putObject
  | multipart
  | initMultipart
  | completeMultipart
  | listObjectVersions
  | listObjectsV2
  | listObjects
  | listBuckets
  | headObject
  | headBucket
  | createBucket
  | copyObject
  | listMultipart
  | getMetrics
  | deleteObject
  | deleteObjects
  | deleteBucket
  | abortMultipart
  | getBucketPolicy
  | putBucketPolicy
  | deleteBucketPolicy
  | getReady
  | getBucketCors
  | deleteBucketCors
  | putBucketCors
  | getBucketVersioning
  | putBucketVersioning
  | createUser
  | deleteUser
  | createAccessKey
  | deleteAccessKey
  | putUserPolicy
  | listUserPolicies
  | getUserPolicy
  | deleteUserPolicy
  deriving DecidableEq

namespace Command

def reservedBucketName : Text := "vroom".toList

def method (req : Request) (name : String) : Bool := decide (req.raw.method = name.toList)

def asks (req : Request) (name : String) : Bool := (req.query name.toList).isSome

/-- The request is on a bucket, and not on an object. -/
def onBucket (req : Request) : Bool :=
  decide (req.bucket ≠ reservedBucketName) && decide (req.bucket ≠ []) &&
    decide (req.objectKey = [])

def onObject (req : Request) : Bool :=
  decide (req.bucket ≠ reservedBucketName) && decide (req.bucket ≠ []) &&
    decide (req.objectKey ≠ [])

def onService (req : Request) (key : String) : Bool :=
  decide (req.bucket = reservedBucketName) && decide (req.objectKey = key.toList)

def isAction (req : Request) (name : String) : Bool :=
  method req "POST" && decide ((req.query "Action".toList).getD [] = name.toList)

def canHandle (req : Request) : Command → Bool
  | getObject => method req "GET" && onObject req && !asks req "attributes"
  | putObject => method req "PUT" && onObject req && !asks req "uploadId" &&
      !(req.header "x-amz-copy-source".toList).isSome
  | multipart => method req "PUT" && onObject req && asks req "partNumber" && asks req "uploadId"
  | initMultipart => method req "POST" && onObject req && asks req "uploads"
  | completeMultipart => method req "POST" && onObject req && asks req "uploadId"
  | listObjectVersions => method req "GET" && onBucket req && asks req "versions" &&
      !asks req "versioning"
  | listObjectsV2 => method req "GET" && onBucket req &&
      decide (req.query "list-type".toList = some "2".toList) && !asks req "policy" &&
      !asks req "cors"
  | listObjects => method req "GET" && onBucket req && !asks req "uploads" &&
      !asks req "list-type" && !asks req "policy" && !asks req "cors" && !asks req "versioning"
  | listBuckets => method req "GET" && decide (req.bucket = []) && decide (req.objectKey = []) &&
      !asks req "versions"
  | headObject => method req "HEAD" && onObject req && !asks req "attributes"
  | headBucket => method req "HEAD" && onBucket req && !asks req "attributes"
  | createBucket => method req "PUT" && onBucket req && !asks req "policy" && !asks req "cors" &&
      !asks req "versioning"
  | copyObject => method req "PUT" && onObject req && (req.header "x-amz-copy-source".toList).isSome
  | listMultipart => method req "GET" && onBucket req && asks req "uploads"
  | getMetrics => method req "GET" && onService req "v1/metrics/cluster"
  | deleteObject => method req "DELETE" && onObject req && !asks req "uploadId"
  | deleteObjects => method req "POST" && onBucket req && asks req "delete"
  | deleteBucket => method req "DELETE" && onBucket req && !asks req "policy" && !asks req "cors"
  | abortMultipart => method req "DELETE" && onObject req && asks req "uploadId"
  | getBucketPolicy => method req "GET" && onBucket req && asks req "policy"
  | putBucketPolicy => method req "PUT" && onBucket req && asks req "policy"
  | deleteBucketPolicy => method req "DELETE" && onBucket req && asks req "policy"
  | getReady => method req "GET" && onService req "v1/ready"
  | getBucketCors => method req "GET" && onBucket req && asks req "cors"
  | deleteBucketCors => method req "DELETE" && onBucket req && asks req "cors"
  | putBucketCors => method req "PUT" && onBucket req && asks req "cors"
  | getBucketVersioning => method req "GET" && onBucket req && asks req "versioning" &&
      !asks req "versions"
  | putBucketVersioning => method req "PUT" && onBucket req && asks req "versioning"
  | createUser => isAction req "CreateUser"
  | deleteUser => isAction req "DeleteUser"
  | createAccessKey => isAction req "CreateAccessKey"
  | deleteAccessKey => isAction req "DeleteAccessKey"
  | putUserPolicy => isAction req "PutUserPolicy"
  | listUserPolicies => isAction req "ListUserPolicies"
  | getUserPolicy => isAction req "GetUserPolicy"
  | deleteUserPolicy => isAction req "DeleteUserPolicy"

def actionId : Command → String
  | getObject => "s3:GetObject"
  | putObject => "s3:PutObject"
  | multipart => "s3:UploadPart"
  | initMultipart => "s3:CreateMultipartUpload"
  | completeMultipart => "s3:CompleteMultipartUpload"
  | listObjectVersions => "s3:ListBucketVersions"
  | listObjectsV2 => "s3:ListObjectsV2"
  | listObjects => "s3:ListObjects"
  | listBuckets => "s3:ListBuckets"
  | headObject => "s3:HeadObject"
  | headBucket => "s3:HeadBucket"
  | createBucket => "s3:CreateBucket"
  | copyObject => "s3:CopyObject"
  | listMultipart => "s3:ListMultipartUploads"
  | getMetrics => "vrm:GetMetrics"
  | deleteObject => "s3:DeleteObject"
  | deleteObjects => "s3:DeleteObjects"
  | deleteBucket => "s3:DeleteBucket"
  | abortMultipart => "s3:AbortMultipartUpload"
  | getBucketPolicy => "s3:GetBucketPolicy"
  | putBucketPolicy => "s3:PutBucketPolicy"
  | deleteBucketPolicy => "s3:DeleteBucketPolicy"
  | getReady => "vrm:GetReady"
  | getBucketCors => "s3:GetBucketCORS"
  | deleteBucketCors => "s3:DeleteBucketCORS"
  | putBucketCors => "s3:PutBucketCORS"
  | getBucketVersioning => "s3:GetBucketVersioning"
  | putBucketVersioning => "s3:PutBucketVersioning"
  | createUser => "iam:CreateUser"
  | deleteUser => "iam:DeleteUser"
  | createAccessKey => "iam::CreateAccessKey"
  | deleteAccessKey => "iam::DeleteAccessKey"
  | putUserPolicy => "iam::PutUserPolicy"
  | listUserPolicies => "iam::ListUserPolicies"
  | getUserPolicy => "iam::GetUserPolicy"
  | deleteUserPolicy => "iam::DeleteUserPolicy"

/-- The order in which a request is tried. -/
def onPaths : List Command :=
  [getObject, putObject, multipart, initMultipart, completeMultipart, listObjectVersions,
    listObjectsV2, listObjects, listBuckets, headObject, headBucket, createBucket, copyObject,
    listMultipart, getMetrics, deleteObject, deleteObjects, deleteBucket, abortMultipart,
    getBucketPolicy, putBucketPolicy, deleteBucketPolicy, getReady, getBucketCors,
    deleteBucketCors, putBucketCors, getBucketVersioning, putBucketVersioning]

def actions : List Command :=
  [createUser, deleteUser, createAccessKey, deleteAccessKey, putUserPolicy, listUserPolicies,
    getUserPolicy, deleteUserPolicy]

def invalidUri : Thrown :=
  .failure (.command ⟨.badRequest, "InvalidURI", "The specified URI couldn't be parsed."⟩)

def messageLengthExceeded : Thrown :=
  .failure (.command ⟨.badRequest, "MaxMessageLengthExceeded", "Your request was too large."⟩)

def maxPostQueryLength : Nat := 64 * 1024

/-- The first of some commands that can handle the request. -/
def choose (commands : List Command) (req : Request) : Effect SocketStream Thrown Command :=
  match commands.find? (canHandle req) with
  | some command => pure command
  | none => throw invalidUri

/-- `command_factory::action_command`; the parameters of the request are then
those of the form. -/
def actionCommand (services : Services) (req : Request) (body : BodyState) :
    Effect SocketStream Thrown (Command × Request) := do
  let length ← orThrow (services.getLength req.raw)
  if length = 0 then throw invalidUri
  else if maxPostQueryLength < length then throw messageLengthExceeded
  else do
    let postQuery ← body.copyToBuffer services.crypto
    let params ← orThrow (services.url.params postQuery)
    let req := { req with raw := { req.raw with params := mapOf params } }
    let command ← choose actions req
    return (command, req)

/-- `command_factory::create` -/
def create (services : Services) (req : Request) (body : BodyState) :
    Effect SocketStream Thrown (Command × Request) :=
  if method req "POST" ∧ req.raw.path = ['/'] then actionCommand services req body
  else do
    let command ← choose onPaths req
    return (command, req)

end Command

end UhCore.Entrypoint
