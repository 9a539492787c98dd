import UhCore.Entrypoint.Signature
import UhCore.Entrypoint.SocketStream

/-!
Bodies that come in chunks. Each chunk has a line with its size and extensions
in front and a line end behind it; a chunk of size zero ends the body. What a
subclass does with a header, with data and at the end of a chunk or of the body
is given by hooks; those of a signed body check the signature of each chunk,
which covers the content of the chunk and the signature before.
-/

namespace UhCore.Entrypoint.Http

open SocketStream

open Effects Aws4HmacSha256

/-- The value of a hexadecimal digit. -/
def hexDigit (c : Char) : Option Nat :=
  if '0' ≤ c ∧ c ≤ '9' then some (c.toNat - '0'.toNat)
  else if 'a' ≤ c ∧ c ≤ 'f' then some (c.toNat - 'a'.toNat + 10)
  else if 'A' ≤ c ∧ c ≤ 'F' then some (c.toNat - 'A'.toNat + 10)
  else none

/-- The number a text starts with, in base 16, and how many digits it has. -/
def fromChars (s : Text) : Except Exn (Nat × Nat) :=
  let digits := s.takeWhile fun c => (hexDigit c).isSome
  let value := (digits.filterMap hexDigit).foldl (fun n d => 16 * n + d) 0
  if digits = [] then .error (.runtimeError "from_chars failed: Invalid argument")
  else if 2 ^ 64 ≤ value then
    .error (.runtimeError "from_chars failed: Numerical result out of range")
  else .ok (value, digits.length)

structure ChunkHeader where
  size : Nat
  extensions : List (Text × Text)
  deriving DecidableEq

/-- The number ends in front of the last byte of the line, and so do the
extensions. A line that was not found has no last byte. -/
def ChunkHeader.parse (line : Text) : Except Exn ChunkHeader := do
  if line = [] then throw (.undefinedBehaviour "last byte of an empty line")
  let (size, digits) ← fromChars line.dropLast
  if (line.drop digits).head? = some ';' then do
    let extensions ← parseValuesString (line.drop (digits + 1)).dropLast ';'
    return ⟨size, extensions⟩
  else return ⟨size, []⟩

/-- The functions a subclass of `chunked_body` overrides. -/
structure Hooks (σ : Type) where
  onChunkHeader : ChunkHeader → σ → σ
  onChunkData : Text → σ → σ
  onChunkDone : σ → Except Exn σ
  onBodyDone : σ → Except Exn σ

/-- The hooks of `chunked_body` itself. -/
def Hooks.none : Hooks Unit :=
  { onChunkHeader := fun _ state => state
    onChunkData := fun _ state => state
    onChunkDone := .ok
    onBodyDone := .ok }

structure ChunkedBody (σ : Type) where
  trailing : Bool
  chunkBytesLeft : Nat
  ended : Bool
  state : σ

def crlf : Text := ['\r', '\n']

/-- A result that may be an exception of the program. -/
def orThrow {α : Type} (x : Except Exn α) : Effect SocketStream Thrown α :=
  computed (x.mapError fun exn => .failure (.exception exn))

def readChunkHeader : Effect SocketStream Thrown ChunkHeader := do
  let line ← readUntil crlf
  orThrow (ChunkHeader.parse line)

/-- The line end behind a chunk. The two bytes that are compared are those of
the buffer, also where fewer were read. -/
def readNewline : Effect SocketStream Thrown Unit := do
  let s ← get
  let _ ← read 2
  let s' ← get
  if s'.memory s.getPtr ≠ '\r' ∨ s'.memory (s.getPtr + 1) ≠ '\n' then
    throw (.runtimeError "newline required")
  else pure ()

namespace ChunkedBody

variable {σ : Type} (hooks : Hooks σ)

/-- Trailing headers are read and not looked at. -/
def readEnd (body : ChunkedBody σ) : Effect SocketStream Thrown (Text × ChunkedBody σ) := do
  let state ← orThrow (hooks.onBodyDone body.state)
  let _ ← readUntil (if body.trailing then crlf ++ crlf else crlf)
  return ([], { body with ended := true, state := state })

def readData (count : Nat) (body : ChunkedBody σ) :
    Effect SocketStream Thrown (Text × ChunkedBody σ) := do
  let data ← read (min body.chunkBytesLeft count)
  let state := hooks.onChunkData data body.state
  let left := body.chunkBytesLeft - data.length
  if left = 0 then do
    let state ← orThrow (hooks.onChunkDone state)
    readNewline
    return (data, { body with chunkBytesLeft := 0, state := state })
  else return (data, { body with chunkBytesLeft := left, state := state })

def read (count : Nat) (body : ChunkedBody σ) : Effect SocketStream Thrown (Text × ChunkedBody σ) :=
  if body.ended then pure ([], body)
  else if body.chunkBytesLeft = 0 then do
    let header ← readChunkHeader
    let body := { body with
      chunkBytesLeft := header.size
      state := hooks.onChunkHeader header body.state }
    if header.size = 0 then readEnd hooks body else readData hooks count body
  else readData hooks count body

end ChunkedBody

/-- `SHA256_EMPTY_STRING` -/
def sha256EmptyString : Text :=
  "e3b0c44298fc1c149afbf4c8996fb92427ae41e4649b934ca495991b7852b855".toList

/-- The state of `chunk_body_sha256`; `hash` has what was put into the hash of
the chunk. -/
structure ChunkSigner where
  hash : Text
  prelude : Text
  signingKey : Text
  chunkSignature : Text
  toSign : Text

namespace ChunkSigner

/-- What is signed for a chunk, without the hash of its content. -/
def signedStart (prelude signature : Text) : Text :=
  prelude ++ signature ++ ['\n'] ++ sha256EmptyString ++ ['\n']

def start (prelude signingKey signature : Text) : ChunkSigner :=
  { hash := []
    prelude := prelude
    signingKey := signingKey
    chunkSignature := []
    toSign := signedStart prelude signature }

def onChunkHeader (header : ChunkHeader) (signer : ChunkSigner) : ChunkSigner :=
  match valueOf header.extensions "chunk-signature" with
  | some signature => { signer with chunkSignature := signature }
  | none => signer

def onChunkData (data : Text) (signer : ChunkSigner) : ChunkSigner :=
  { signer with hash := signer.hash ++ data }

variable (crypto : Crypto)

def onChunkDone (signer : ChunkSigner) : Except Exn ChunkSigner :=
  let toSign := signer.toSign ++ toHex (crypto.sha256 signer.hash)
  let signature := toHex (crypto.hmacSha256 signer.signingKey toSign)
  if signature ≠ signer.chunkSignature then .error (.runtimeError "chunk signature mismatch")
  else .ok { signer with hash := [], toSign := signedStart signer.prelude signature }

def onBodyDone (signer : ChunkSigner) : Except Exn ChunkSigner :=
  let toSign := signer.toSign ++ sha256EmptyString
  let signature := toHex (crypto.hmacSha256 signer.signingKey toSign)
  if signature ≠ signer.chunkSignature then .error (.runtimeError "chunk signature mismatch")
  else .ok { signer with toSign := toSign }

def hooks : Hooks ChunkSigner :=
  { onChunkHeader := onChunkHeader
    onChunkData := onChunkData
    onChunkDone := onChunkDone crypto
    onBodyDone := onBodyDone crypto }

/-- `make_prelude` -/
def makePrelude (req : RawRequest) (info : SignatureInfo) : Except Exn Text := do
  let date ← req.require "x-amz-date".toList
  return "AWS4-HMAC-SHA256-PAYLOAD\n".toList ++ date ++ '\n' :: scope info

end ChunkSigner

end UhCore.Entrypoint.Http
