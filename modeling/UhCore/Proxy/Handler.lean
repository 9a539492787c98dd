import UhCore.Entrypoint.CommandFactory
import UhCore.Proxy.Manager
import UhCore.Proxy.Relay

/-!
The handler of the proxy. A round reads a request of a client and answers it,
either from the disk cache or with what the server sends; a response that is
relayed to the command that gets an object is stored on its way. The server is
any function of the bytes of a request.
-/

namespace UhCore.Proxy

open Entrypoint (Text Failure Command)
open Entrypoint.Http
open Effects Bytes

/-- A server that does not change: the response to a request, and the interim
response it sends when it has the header of one, if it sends any. -/
structure Server where
  response : Text → ServerResponse
  interim : Text → Option ResponseHeader

/-- What the proxy runs with. `via` is its name and version. The headers that
the server sends are headers for the HTTP library. -/
structure Setup (σ : Type) where
  services : Services
  library : ResponseLibrary
  dataView : DataView σ
  server : Server
  via : Text
  response_sendable : ∀ request, library.Sendable (server.response request).header
  interim_sendable : ∀ head h, server.interim head = some h → library.Sendable h

/-- A client and the connection to the server that belongs to it. `forwarded` is
what the server got and has not answered, `buffer` and `outgoing` are the bytes
it has sent, those that were read and those that were not. `ahead` says how many
bytes behind a header come with each read of one. -/
structure Connection where
  incoming : SocketStream
  forwarding : Bool
  forwarded : Text
  buffer : Text
  outgoing : Text
  ahead : List Nat

/-- The bytes that were handed out and not yet consumed. -/
def handed (s : SocketStream) : Text := window s.memory 0 s.getPtr

/-- `forward_stream::consume` -/
def Connection.consume (c : Connection) : Connection :=
  { c with
    forwarded := if c.forwarding then c.forwarded ++ handed c.incoming else c.forwarded
    incoming := (run SocketStream.consume c.incoming).2 }

/-- `faults` has the exceptions of the calls of the storage, in order; calls
behind its end succeed. -/
structure Round (σ : Type) where
  disk : Disk σ
  connection : Connection
  faults : List (Option Failure)
  output : List Output

/-- How a round ends if it does not return: with an exception, with an error of
the connection to the server, or not at all, as bytes from the server do not
come. -/
inductive Stop where
  | thrown (thrown : Thrown)
  | systemError
  | waiting

/-- The request of a client, whom the proxy does not look at. -/
def requestOf (raw : RawRequest) : Request := ⟨raw, ⟨[], "anonymous".toList, none, false⟩⟩

def isGetObject (raw : RawRequest) : Bool := Command.canHandle (requestOf raw) .getObject

def cacheKey (raw : RawRequest) : ObjectMetadata := ⟨(requestOf raw).objectKey, []⟩

/-- `make_body` -/
def makeBody (services : Services) (req : RawRequest) : Except Exn BodyState :=
  if (req.optional "Transfer-Encoding".toList).getD [] = "chunked".toList then
    .ok (Services.chunkedBody false)
  else
    let contentSha := (req.optional "x-amz-content-sha256".toList).getD "UNSIGNED-PAYLOAD".toList
    if contentSha = "STREAMING-AWS4-HMAC-SHA256-PAYLOAD".toList then
      .ok (Services.chunkedBody false)
    else if contentSha = "STREAMING-UNSIGNED-PAYLOAD-TRAILER".toList ∨
        contentSha = "STREAMING-AWS4-HMAC-SHA256-PAYLOAD-TRAILER".toList then
      .ok (Services.chunkedBody true)
    else services.rawBody req

/-- `buffer_size_to_load` -/
def loadSize : Nat := 16 * 1024 * 1024

/-- `buffer_size_to_relay_and_store` -/
def storeSize : Nat := 32 * 1024 * 1024

/-- `buffer_size_to_relay` -/
def relaySize : Nat := 4 * 1024

namespace Round

variable {σ : Type} (setup : Setup σ)

/-- The reads of a request, on the stream of the client. -/
def onStream {α : Type} (m : Effect SocketStream Thrown α) : Effect (Round σ) Stop α :=
  act fun w =>
    match run m w.connection.incoming with
    | (.ok a, s) => (.ok a, { w with connection := { w.connection with incoming := s } })
    | (.error e, s) =>
      (.error (.thrown e), { w with connection := { w.connection with incoming := s } })

def orStop {α : Type} (x : Except Exn α) : Effect (Round σ) Stop α :=
  computed (x.mapError fun exn => .thrown (.failure (.exception exn)))

def setMode (forwarding : Bool) : Effect (Round σ) Stop Unit :=
  modify fun w => { w with connection := { w.connection with forwarding := forwarding } }

def consume : Effect (Round σ) Stop Unit :=
  modify fun w => { w with connection := w.connection.consume }

def write (output : List Output) : Effect (Round σ) Stop Unit :=
  modify fun w => { w with output := w.output ++ output }

/-- The exception of the next call of the storage, if it fails. -/
def nextFault : Effect (Round σ) Stop (Option Failure) :=
  act fun w => (.ok (w.faults.headD none), { w with faults := w.faults.tail })

def raiseFault (fault : Option Failure) : Effect (Round σ) Stop Unit :=
  raise (fault.map fun failure => .thrown (.failure failure))

def onDisk (f : Disk σ → Disk σ) : Effect (Round σ) Stop Unit :=
  modify fun w => { w with disk := f w.disk }

def drainLoop (count : Nat) : Nat → BodyState → Effect (Round σ) Stop Unit
  | 0, _ => pure ()
  | n + 1, body => do
    let (data, body) ← onStream (body.read setup.services.crypto count)
    consume
    if data = [] then pure () else drainLoop count n body

/-- Every round of the loop but the last takes bytes off what can come. -/
def drain (body : BodyState) : Effect (Round σ) Stop Unit := do
  let w ← get
  drainLoop setup w.connection.incoming.bufferSize (w.connection.incoming.unread.length + 1) body

/-- `manager::get` -/
def lookup (key : ObjectMetadata) : Effect (Round σ) Stop (Option DiskSource) :=
  act fun w =>
    (.ok ((w.disk.cache.get key).1.map fun id => ⟨id, 0, 0, 0, [], none⟩),
      { w with disk := w.disk.get key })

/-- A call of `disk_source::get`, with the source behind it. -/
def fetch (r : DiskSource) (room : Nat) : Effect (Round σ) Stop (Text × DiskSource) := do
  let w ← get
  let asking := r.asking (w.disk.handles r.objh) room
  onDisk fun disk => disk.read r room
  match asking.reading with
  | none => pure ([], asking)
  | some addr => do
    let fault ← nextFault
    onDisk fun disk => disk.readDone setup.dataView asking addr fault.isSome
    raiseFault fault
    let data := setup.dataView.readAddress w.disk.storage addr
    pure (data, asking.answered data)

/-- `async_write`: the parts of an object until there is none. -/
def serveLoop : Nat → DiskSource → Effect (Round σ) Stop Unit
  | 0, _ => pure ()
  | n + 1, r => do
    let (data, r) ← fetch setup r loadSize
    if data = [] then pure ()
    else do
      write [.data data]
      serveLoop n r

def serve (r : DiskSource) (body : BodyState) : Effect (Round σ) Stop Unit := do
  setMode false
  drain setup body
  let w ← get
  let handle := w.disk.handles r.objh
  let (bytes, r) ← fetch setup r handle.headerSize
  match setup.library.parse bytes with
  | .header h _ => do
    write [.header (h.set viaName setup.via)]
    serveLoop setup (handle.address.dataSize + 1) r
  | _ => throw .systemError

/-- `async_read_header`; what was read behind the header stays in the buffer. -/
def readHeader : Effect (Round σ) Stop ResponseHeader :=
  act fun w =>
    let c := w.connection
    match setup.library.parse (c.buffer ++ c.outgoing) with
    | .header h rest =>
      let parsed := (c.buffer ++ c.outgoing).length - rest.length
      let buffered := max (c.ahead.headD 0) (c.buffer.length - parsed)
      (.ok h, { w with
        connection := { c with
          buffer := rest.take buffered
          outgoing := rest.drop buffered
          ahead := c.ahead.tail } })
    | .incomplete => (.error .waiting, w)
    | .malformed => (.error .systemError, w)

/-- The server has the header of a request. -/
def serverContinues : Effect (Round σ) Stop Unit :=
  modify fun w => { w with
    connection := { w.connection with
      outgoing := w.connection.outgoing ++
        ((setup.server.interim w.connection.forwarded).map setup.library.serialize).getD [] } }

/-- The server has a whole request. -/
def serverAnswers : Effect (Round σ) Stop Unit :=
  modify fun w =>
    let response := setup.server.response w.connection.forwarded
    { w with
      connection := { w.connection with
        forwarded := []
        outgoing := w.connection.outgoing ++
          (setup.library.serialize response.header ++ response.body) } }

def expects (raw : RawRequest) : Bool :=
  decide (raw.optional "expect".toList = some "100-continue".toList)

def forwardContinue (raw : RawRequest) : Effect (Round σ) Stop Unit :=
  if expects raw then do
    serverContinues setup
    let h ← readHeader setup
    write [.interim h]
  else pure ()

def contentLength (h : ResponseHeader) : Effect (Round σ) Stop Nat :=
  match setup.library.getContentLength h with
  | some size => pure size
  | none => throw (.thrown (.runtimeError "no content length"))

/-- The chunks of `async_read`, and whether it comes to its end. -/
def readPayload (chunkSize payloadSize : Nat) : Effect (Round σ) Stop (List Text × Bool) :=
  act fun w =>
    let taken := asyncRead chunkSize payloadSize w.connection.buffer w.connection.outgoing
    (.ok (taken.chunks, taken.done), { w with
      connection := { w.connection with buffer := taken.buffer, outgoing := taken.outgoing } })

/-- `disk_sink::put` -/
def sinkPut (id : Nat) (data : Text) : Effect (Round σ) Stop Unit :=
  if data = [] then pure ()
  else do
    let fault ← nextFault
    onDisk fun disk => disk.sinkPut setup.dataView id data fault.isSome
    raiseFault fault

def dataOutput (data : Text) : List Output := if data = [] then [] else [.data data]

def relayChunks : List Text → Effect (Round σ) Stop Unit
  | [] => pure ()
  | data :: chunks => do
    write (dataOutput data)
    relayChunks chunks

def storeChunks (id : Nat) : List Text → Effect (Round σ) Stop Unit
  | [] => pure ()
  | data :: chunks => do
    write (dataOutput data)
    sinkPut setup id data
    storeChunks id chunks

def orWait (done : Bool) : Effect (Round σ) Stop Unit :=
  if done then pure () else throw .waiting

/-- The text of a header that goes to the client and to the storage. -/
def serializeHeader (h : ResponseHeader) : Effect (Round σ) Stop Text :=
  if setup.library.serialize h = [] then
    throw (.thrown (.runtimeError "Could not serialize header"))
  else pure (setup.library.serialize h)

/-- `manager::put` -/
def put (id : Nat) (key : ObjectMetadata) : Effect (Round σ) Stop Unit := do
  onDisk fun disk => disk.put setup.dataView id key
  let w ← get
  match w.disk.puts.find? fun p => decide (p.objh = id) with
  | none => pure ()
  | some p => do
    let fault ← nextFault
    onDisk fun disk => disk.putDone p fault.isSome
    raiseFault fault

/-- The response is written to the client and to the storage. -/
def relayAndStore (raw : RawRequest) (h : ResponseHeader) : Effect (Round σ) Stop Unit := do
  let payloadSize ← contentLength setup h
  let w ← get
  let id := w.disk.created
  onDisk Disk.newSink
  let text ← serializeHeader setup h
  write [.header h]
  sinkPut setup id text
  onDisk fun disk => disk.setHeaderSize id text.length
  let (chunks, done) ← readPayload storeSize payloadSize
  storeChunks setup id chunks
  orWait done
  put setup id (cacheKey raw)

def relayBody (h : ResponseHeader) : Effect (Round σ) Stop Unit := do
  let payloadSize ← contentLength setup h
  write [.header h]
  let (chunks, done) ← readPayload relaySize payloadSize
  relayChunks chunks
  orWait done

def relay (raw : RawRequest) (h : ResponseHeader) : Effect (Round σ) Stop Unit :=
  if raw.method = "HEAD".toList then write [.header h]
  else if isGetObject raw then relayAndStore setup raw h
  else relayBody setup h

def forward (raw : RawRequest) (body : BodyState) : Effect (Round σ) Stop Unit := do
  consume
  forwardContinue setup raw
  drain setup body
  serverAnswers setup
  let h ← readHeader setup
  relay setup raw h

def cached (raw : RawRequest) : Effect (Round σ) Stop (Option DiskSource) :=
  if isGetObject raw then lookup (cacheKey raw) else pure none

def answer (raw : RawRequest) (body : BodyState) : Effect (Round σ) Stop Unit := do
  match ← cached raw with
  | some r => serve setup r body
  | none => forward setup raw body

/-- The body of the loop of `handler::_handle` -/
def handleRequest : Effect (Round σ) Stop Unit := do
  let raw ← onStream setup.services.readRawRequest
  setMode true
  let body ← orStop (makeBody setup.services raw)
  answer setup raw body

end Round

end UhCore.Proxy
