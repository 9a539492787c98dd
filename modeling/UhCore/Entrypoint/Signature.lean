import Mathlib.Data.Char
import Mathlib.Data.List.Sort
import UhCore.Entrypoint.Command
import UhCore.Entrypoint.Http

/-!
Requests signed in their `Authorization` header. The signature is over the
canonical request: the method, the encoded path, the sorted query parameters,
the sorted headers and the hash of the body. The canonical headers are a map of
the header fields, in which the last field of a name is left.
-/

namespace UhCore.Entrypoint.Http

def hexDigits : Text := "0123456789abcdef".toList

def hexDigitsUpper : Text := "0123456789ABCDEF".toList

/-- The two hexadecimal digits of a byte. -/
def hexPair (digits : Text) (c : Char) : Text :=
  [digits.getD (c.toNat / 16 % 16) '0', digits.getD (c.toNat % 16) '0']

def toHex (s : Text) : Text := s.flatMap (hexPair hexDigits)

def unreserved (c : Char) : Bool := c.isAlphanum || decide (c ∈ "-._~".toList)

def uriEncode (s : Text) : Text :=
  s.flatMap fun c => if unreserved c then [c] else '%' :: hexPair hexDigitsUpper c

/-- SHA-256 and HMAC; `hmacSha256` takes the key first. -/
structure Crypto where
  sha256 : Text → Text
  hmacSha256 : Text → Text → Text

structure SignatureInfo where
  date : Text
  region : Text
  service : Text
  signedHeaders : List Text
  amzDate : Text
  contentSha : Text
  queryIgnore : List Text

namespace Aws4HmacSha256

def includeHeader (name : Text) (included : List Text) : Bool :=
  decide (name = "host".toList) || decide (name = "content-md5".toList) ||
    "x-amz-".toList.isPrefixOf name || decide (name ∈ included)

/-- The elements of a set of texts in their order. -/
def sorted (s : List Text) : List Text := s.dedup.insertionSort (· ≤ ·)

def canonicalParam (param : Text × Text) : Text := uriEncode param.1 ++ '=' :: uriEncode param.2

def canonicalQuery (req : RawRequest) (info : SignatureInfo) : Text :=
  join (sorted ((req.params.filter fun p => decide (p.1 ∉ info.queryIgnore)).map canonicalParam))
    ['&']

/-- The fields that are signed, with their names in lower case. -/
def signedFields (req : RawRequest) (info : SignatureInfo) : List (Text × Text) :=
  (req.headers.map fun field => (lowercase field.name, trim field.value)).filter
    fun p => includeHeader p.1 info.signedHeaders

def canonicalHeadersMap (req : RawRequest) (info : SignatureInfo) : List (Text × Text) :=
  (mapOf (signedFields req info)).insertionSort fun a b => a.1 ≤ b.1

def makeCanonicalRequest (req : RawRequest) (info : SignatureInfo) : Text :=
  let headers := canonicalHeadersMap req info
  let canonicalHeaders := headers.flatMap fun p => p.1 ++ ':' :: p.2 ++ ['\n']
  let signedHeaderNames := join (headers.map Prod.fst) [';']
  req.method ++ '\n' :: (req.encodedPath ++ '\n' :: (canonicalQuery req info ++
    '\n' :: (canonicalHeaders ++ '\n' :: (signedHeaderNames ++ '\n' :: info.contentSha))))

def scope (info : SignatureInfo) : Text :=
  info.date ++ '/' :: (info.region ++ '/' :: (info.service ++ "/aws4_request\n".toList))

def stringToSign (crypto : Crypto) (req : RawRequest) (info : SignatureInfo) : Text :=
  "AWS4-HMAC-SHA256\n".toList ++ (info.amzDate ++ '\n' :: (scope info ++
    toHex (crypto.sha256 (makeCanonicalRequest req info))))

def requestSignature (crypto : Crypto) (req : RawRequest) (info : SignatureInfo)
    (signingKey : Text) : Text :=
  toHex (crypto.hmacSha256 signingKey (stringToSign crypto req info))

def makeSigningKey (crypto : Crypto) (secret : Text) (info : SignatureInfo) : Text :=
  let dateKey := crypto.hmacSha256 ("AWS4".toList ++ secret) info.date
  let dateRegionKey := crypto.hmacSha256 dateKey info.region
  let dateRegionServiceKey := crypto.hmacSha256 dateRegionKey info.service
  crypto.hmacSha256 dateRegionServiceKey "aws4_request".toList

def parseValuesString (values : Text) (pairSeparator : Char) : Except Exn (List (Text × Text)) := do
  let pairs ← (split values pairSeparator).mapM fun pair =>
    match split pair '=' with
    | [key, value] => Except.ok (trim key, trim value)
    | _ => .error (.runtimeError "more than two variables in values string")
  return mapOf pairs

def valueOf (parsed : List (Text × Text)) (key : String) : Option Text :=
  (parsed.find? fun p => decide (p.1 = key.toList)).map Prod.snd

/-- What an `Authorization` value says. -/
structure Authorization where
  key : Text
  date : Text
  region : Text
  service : Text
  signedHeaders : List Text
  signature : Text

def Authorization.info (parsed : Authorization) (amzDate contentSha : Text) : SignatureInfo :=
  { date := parsed.date
    region := parsed.region
    service := parsed.service
    signedHeaders := parsed.signedHeaders
    amzDate := amzDate
    contentSha := contentSha
    queryIgnore := [] }

def parseAuthorization (auth : Text) : Except Exn Authorization := do
  if ' ' ∉ auth then throw (.runtimeError "no algorithm separator")
  let parsed ← parseValuesString ((auth.dropWhile (· ≠ ' ')).drop 1) ','
  match valueOf parsed "Credential", valueOf parsed "SignedHeaders", valueOf parsed "Signature" with
  | some credential, some signedHeaders, some signature =>
    match split credential '/' with
    | [key, date, region, service, _] =>
      return ⟨key, date, region, service, split signedHeaders ';', signature⟩
    | _ => throw (.runtimeError "wrong size of crendentials")
  | _, _, _ => throw (.runtimeError "required fields are missing")

/-- The bodies a request can be read with. -/
inductive Body where
  | string (text : Text)
  | raw (length : Nat)
  | rawSha256 (length : Nat) (contentSha : Text)
  | chunked
  | chunkSha256 (trailing : Bool)

/-- What `create` reads a request with. -/
structure Surroundings where
  stream : Text
  findByKey : Text → Except Failure (User × Text)
  stoul : Text → Except Exn Nat

namespace Surroundings

def getLength (env : Surroundings) (req : RawRequest) : Except Exn Nat :=
  match req.optional "content-length".toList with
  | some contentLength => env.stoul contentLength
  | none => .ok 0

def formType : Text := "application/x-www-form-urlencoded".toList

def readFormBody (env : Surroundings) (req : RawRequest) : Except Exn (Option Text) :=
  match req.optional "content-type".toList with
  | none => .ok none
  | some contentType =>
    if formType.isPrefixOf contentType then do
      let length ← env.getLength req
      let data := env.stream.take length
      if data.length ≠ length then throw (.runtimeError "cannot read content-length bytes")
      return some data
    else .ok none

/-- The hash of the body that is signed: that of a form, or what the headers
say. -/
def contentSha (crypto : Crypto) (req : RawRequest) : Option Text → Text
  | some formBody => toHex (crypto.sha256 formBody)
  | none => (req.optional "x-amz-content-sha256".toList).getD "UNSIGNED-PAYLOAD".toList

def makeBody (env : Surroundings) (req : RawRequest) (contentSha : Text) : Except Exn Body :=
  if contentSha = "UNSIGNED-PAYLOAD".toList then do return .raw (← env.getLength req)
  else if contentSha = "STREAMING-AWS4-HMAC-SHA256-PAYLOAD".toList then .ok (.chunkSha256 false)
  else if contentSha = "STREAMING-UNSIGNED-PAYLOAD-TRAILER".toList then .ok .chunked
  else if contentSha = "STREAMING-AWS4-HMAC-SHA256-PAYLOAD-TRAILER".toList then
    .ok (.chunkSha256 true)
  else do return .rawSha256 (← env.getLength req) contentSha

end Surroundings

def lift {α : Type} (x : Except Exn α) : Except Failure α := x.mapError Failure.exception

def signatureMismatch : Failure :=
  .command ⟨.forbidden, "InvalidAccessGrant", "The specified Access Grant is invalid"⟩

def create (crypto : Crypto) (env : Surroundings) (req : RawRequest) (auth : Text) :
    Except Failure (Request × Body) := do
  let parsed ← lift (parseAuthorization auth)
  let (user, secret) ← env.findByKey parsed.key
  let formBody ← lift (env.readFormBody req)
  let contentSha := Surroundings.contentSha crypto req formBody
  let amzDate ← lift (req.require "x-amz-date".toList)
  let info := parsed.info amzDate contentSha
  let signingKey := makeSigningKey crypto secret info
  if requestSignature crypto req info signingKey ≠ parsed.signature then throw signatureMismatch
  let body ← lift (match formBody with
    | some s => .ok (Body.string s)
    | none => env.makeBody req contentSha)
  return (⟨req, user⟩, body)

end Aws4HmacSha256

end UhCore.Entrypoint.Http
