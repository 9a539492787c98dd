import UhCore.Entrypoint.ChunkedBody

/-!
Requests as they come from a stream: the header is read up to the empty line
behind it, the sender is authenticated, and the body is left in the stream for
the command to read. Only a form of a signed request is read at once.
-/

namespace UhCore.Entrypoint.Http

open SocketStream

open Effects Aws4HmacSha256

/-- The parts of a request header as the HTTP library gives them. -/
structure ParsedHeader where
  version : Nat
  method : Text
  target : Text
  headers : List Field

/-- What requests are created with. `parseHeader` is the HTTP library, which may
not accept the bytes; `expired` compares the date and the lifetime of a signed
URL with the clock, where both must be readable. -/
structure Services where
  crypto : Crypto
  url : UrlLibrary
  parseHeader : Text → Option ParsedHeader
  stoul : Text → Except Exn Nat
  base64Decode : Text → Text
  expired : Text → Text → Except Exn Bool
  findByKey : Text → Except Failure (User × Text)
  findAndCheck : Text → Text → Except Failure User
  peer : Text

/-- The objects a body is read with, with what is left to read. -/
inductive BodyState where
  | string (size : Nat) (rest : Text)
  | raw (length : Nat)
  | rawSha256 (length : Nat) (signature hashed : Text)
  | chunked (body : ChunkedBody Unit)
  | chunkSha256 (body : ChunkedBody ChunkSigner)

namespace BodyState

/-- `raw_body::read`; also gives what is left. -/
def readRaw (count length : Nat) : Effect SocketStream Thrown (Text × Nat) := do
  let data ← read (min count length)
  return (data, length - data.length)

def read (crypto : Crypto) (count : Nat) : BodyState → Effect SocketStream Thrown (Text × BodyState)
  | .string size rest => pure (rest.take count, .string size (rest.drop count))
  | .raw length => do
    let (data, left) ← readRaw count length
    return (data, .raw left)
  | .rawSha256 length signature hashed => do
    let (data, left) ← readRaw count length
    if data = [] ∧ toHex (crypto.sha256 (hashed ++ data)) ≠ signature then
      throw (.runtimeError "body signature mismatch")
    else return (data, .rawSha256 left signature (hashed ++ data))
  | .chunked body => do
    let (data, body) ← body.read Hooks.none count
    return (data, .chunked body)
  | .chunkSha256 body => do
    let (data, body) ← body.read (ChunkSigner.hooks crypto) count
    return (data, .chunkSha256 body)

def consume : BodyState → Effect SocketStream Thrown Unit
  | .string _ _ => pure ()
  | _ => SocketStream.consume

def bufferSize : BodyState → Effect SocketStream Thrown Nat
  | .string size _ => pure size
  | _ => do return (← get).bufferSize

def copyLoop (crypto : Crypto) (count : Nat) : Nat → BodyState → Effect SocketStream Thrown Text
  | 0, _ => pure []
  | n + 1, body => do
    let (data, body) ← body.read crypto count
    body.consume
    if data = [] then pure []
    else do
      let rest ← copyLoop crypto count n body
      return data ++ rest

/-- The bytes that can come from a body. -/
def remaining : BodyState → Effect SocketStream Thrown Nat
  | .string _ rest => pure rest.length
  | _ => do return (← get).unread.length

/-- Every round of the loop but the last takes bytes off what can come. -/
def copyToBuffer (crypto : Crypto) (body : BodyState) : Effect SocketStream Thrown Text := do
  let count ← body.bufferSize
  let rounds ← body.remaining
  copyLoop crypto count (rounds + 1) body

def deduplicateLoop (crypto : Crypto) (dedupe : List Text → Option Failure) (count : Nat) :
    Nat → List Text → BodyState → Effect SocketStream Thrown Unit
  | 0, _, _ => pure ()
  | n + 1, pieces, body => do
    body.consume
    let (data, body) ← body.read crypto count
    if data = [] then pure ()
    else do
      raise ((dedupe (pieces ++ [data])).map .failure)
      deduplicateLoop crypto dedupe count n (pieces ++ [data]) body

/-- `dedupe` says with which exception the deduplicator fails when it is given
the last of the pieces. -/
def deduplicate (crypto : Crypto) (dedupe : List Text → Option Failure) (body : BodyState) :
    Effect SocketStream Thrown Unit := do
  let count ← body.bufferSize
  let rounds ← body.remaining
  deduplicateLoop crypto dedupe count (rounds + 1) [] body

end BodyState

def orFail {α : Type} (x : Except Failure α) : Effect SocketStream Thrown α :=
  computed (x.mapError .failure)

namespace Services

variable (services : Services)

/-- `raw_request::read` -/
def readRawRequest : Effect SocketStream Thrown RawRequest := do
  let buffer ← readUntil (crlf ++ crlf)
  match services.parseHeader buffer with
  | none => throw (.runtimeError "Incomplete HTTP header")
  | some header => orThrow (RawRequest.fromString services.url header.version header.method
      header.target services.peer header.headers)

/-- `get_length` -/
def getLength (req : RawRequest) : Except Exn Nat :=
  match req.optional "content-length".toList with
  | some contentLength => services.stoul contentLength
  | none => .ok 0

/-- The form is there only if one read of the stream gives all of it. -/
def readFormBody (req : RawRequest) : Effect SocketStream Thrown (Option Text) :=
  match req.optional "content-type".toList with
  | none => pure none
  | some contentType =>
    if Surroundings.formType.isPrefixOf contentType then do
      let length ← orThrow (services.getLength req)
      let data ← read length
      if data.length ≠ length then throw (.runtimeError "cannot read content-length bytes")
      else return some data
    else pure none

def rawBody (req : RawRequest) : Except Exn BodyState := do
  return .raw (← services.getLength req)

def chunkedBody (trailing : Bool) : BodyState :=
  .chunked { trailing := trailing, chunkBytesLeft := 0, ended := false, state := () }

def chunkBodySha256 (req : RawRequest) (info : SignatureInfo) (signingKey signature : Text)
    (trailing : Bool) : Except Exn BodyState := do
  let prelude ← ChunkSigner.makePrelude req info
  return .chunkSha256
    { trailing := trailing, chunkBytesLeft := 0, ended := false
      state := ChunkSigner.start prelude signingKey signature }

def makeBody (req : RawRequest) (info : SignatureInfo) (signingKey signature : Text) :
    Except Exn BodyState :=
  if info.contentSha = "UNSIGNED-PAYLOAD".toList then services.rawBody req
  else if info.contentSha = "STREAMING-AWS4-HMAC-SHA256-PAYLOAD".toList then
    chunkBodySha256 req info signingKey signature false
  else if info.contentSha = "STREAMING-UNSIGNED-PAYLOAD-TRAILER".toList then
    .ok (chunkedBody true)
  else if info.contentSha = "STREAMING-AWS4-HMAC-SHA256-PAYLOAD-TRAILER".toList then
    chunkBodySha256 req info signingKey signature true
  else do return .rawSha256 (← services.getLength req) info.contentSha []

def bodyOf (req : RawRequest) (info : SignatureInfo) (signingKey signature : Text) :
    Option Text → Except Exn BodyState
  | some form => .ok (.string form.length form)
  | none => services.makeBody req info signingKey signature

/-- What the `Authorization` value says, the user it names and the secret key. -/
def checkKey (auth : Text) : Except Failure (Authorization × User × Text) := do
  let parsed ← lift (parseAuthorization auth)
  let (user, secret) ← services.findByKey parsed.key
  return (parsed, user, secret)

/-- `aws4_hmac_sha256::create` -/
def createAws4 (req : RawRequest) (auth : Text) :
    Effect SocketStream Thrown (Request × BodyState) := do
  let (parsed, user, secret) ← orFail (services.checkKey auth)
  let form ← services.readFormBody req
  let amzDate ← orThrow (req.require "x-amz-date".toList)
  let info := parsed.info amzDate (Surroundings.contentSha services.crypto req form)
  let signingKey := makeSigningKey services.crypto secret info
  let signature := requestSignature services.crypto req info signingKey
  if signature ≠ parsed.signature then throw (.failure signatureMismatch)
  else do
    let body ← orThrow (services.bodyOf req info signingKey signature form)
    return (⟨req, user⟩, body)

def paramOf (req : RawRequest) (name : String) : Text :=
  ((req.params.find? fun p => decide (p.1 = name.toList)).map Prod.snd).getD []

/-- Looking a parameter up with `operator[]` puts it into the map. -/
def touch (req : RawRequest) (name : String) : RawRequest :=
  if req.params.any fun p => decide (p.1 = name.toList) then req
  else { req with params := req.params ++ [(name.toList, [])] }

def presigned : List Text :=
  ["X-Amz-Algorithm", "X-Amz-Credential", "X-Amz-Date", "X-Amz-Expires", "X-Amz-Signature",
    "X-Amz-SignedHeaders"].map String.toList

def expiredToken : Failure :=
  .command ⟨.badRequest, "ExpiredToken", "The provided token has expired."⟩

def signatureDoesNotMatch : Failure :=
  .command ⟨.forbidden, "SignatureDoesNotMatch",
    "SignatureDoesNotMatch\tThe request signature that the server calculated does not match the " ++
      "signature that you provided. Check your AWS secret access key and signing method. For more " ++
      "information, see REST Authentication and SOAP Authentication."⟩

structure AcceptedUrl where
  req : RawRequest
  user : User
  info : SignatureInfo
  signingKey : Text
  signature : Text

def checkUrl (req : RawRequest) : Except Failure AcceptedUrl :=
  match split (paramOf req "X-Amz-Credential") '/' with
  | [key, date, region, service, _] => do
    let info : SignatureInfo :=
      { date := date, region := region, service := service
        signedHeaders := split (paramOf req "X-Amz-SignedHeaders") ';'
        amzDate := paramOf req "X-Amz-Date"
        contentSha := "UNSIGNED-PAYLOAD".toList
        queryIgnore := ["X-Amz-Signature".toList] }
    if ← lift (services.expired info.amzDate (paramOf req "X-Amz-Expires")) then
      throw expiredToken
    let (user, secret) ← services.findByKey key
    let signingKey := makeSigningKey services.crypto secret info
    let looked := touch (touch (touch req "X-Amz-SignedHeaders") "X-Amz-Date") "X-Amz-Expires"
    let signature := requestSignature services.crypto looked info signingKey
    if signature ≠ paramOf req "X-Amz-Signature" then throw signatureDoesNotMatch
    return {
      req := { req with params := req.params.filter fun p => decide (p.1 ∉ presigned) }
      user := user
      info := info
      signingKey := signingKey
      signature := signature }
  | _ => .error (.exception (.runtimeError "wrong size of credentials"))

/-- `aws4_hmac_sha256::create_from_url` -/
def createFromUrl (req : RawRequest) : Effect SocketStream Thrown (Request × BodyState) := do
  let url ← orFail (services.checkUrl req)
  let form ← services.readFormBody url.req
  let body ← orThrow (services.bodyOf url.req url.info url.signingKey url.signature form)
  return (⟨url.req, url.user⟩, body)

/-- The body of a request that is not signed. -/
def plainBody (req : RawRequest) : Except Exn BodyState :=
  if (req.optional "Transfer-Encoding".toList).getD [] = "chunked".toList then
    .ok (chunkedBody false)
  else services.rawBody req

/-- `basic_auth::create` -/
def createBasic (req : RawRequest) (auth : Text) :
    Effect SocketStream Thrown (Request × BodyState) :=
  match split (services.base64Decode ((auth.dropWhile (· ≠ ' ')).drop 1)) ':' with
  | [name, password] => do
    let user ← orFail (services.findAndCheck name password)
    let body ← orThrow (services.plainBody req)
    return (⟨req, user⟩, body)
  | _ => throw (.runtimeError "credentials format error")

def anonymous : User := ⟨[], "anonymous".toList, some "arn:aws:iam::1:anonymous".toList, false⟩

/-- `no_auth::create` -/
def createAnonymous (req : RawRequest) : Effect SocketStream Thrown (Request × BodyState) := do
  let body ← orThrow (services.plainBody req)
  return (⟨req, anonymous⟩, body)

/-- The ways a request can be authenticated. -/
inductive Scheme where
  | aws4 (auth : Text)
  | basic (auth : Text)
  | url
  | anonymous

def schemeOf (req : RawRequest) : Scheme :=
  let auth := (req.optional "Authorization".toList).getD []
  if "AWS4-HMAC-SHA256 ".toList.isPrefixOf auth then .aws4 auth
  else if "Basic ".toList.isPrefixOf auth then .basic auth
  else if req.params.any fun p => decide (p.1 = "X-Amz-Algorithm".toList) then .url
  else .anonymous

def authenticate (req : RawRequest) : Effect SocketStream Thrown (Request × BodyState) :=
  match schemeOf req with
  | .aws4 auth => services.createAws4 req auth
  | .basic auth => services.createBasic req auth
  | .url => services.createFromUrl req
  | .anonymous => services.createAnonymous req

/-- `request_factory::create` -/
def create : Effect SocketStream Thrown (Request × BodyState) := do
  consume
  let req ← services.readRawRequest
  services.authenticate req

end Services

end UhCore.Entrypoint.Http
