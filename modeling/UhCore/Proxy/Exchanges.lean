import UhCore.Proxy.RequestReading
import UhCore.Proxy.CachedObjects

/-!
The proxy with all its clients. Rounds of the handler follow each other in any
order of the clients, with rounds of the eviction task between them. The log has
the requests as they were read from the clients, and what each client got.
-/

namespace UhCore.Proxy

open Entrypoint (Text Failure)
open Entrypoint.Http
open Effects

/-- `request` has the bytes of the request, `raw` what the proxy read its header
as. -/
structure Exchange where
  raw : Option RawRequest
  request : Text
  output : List Output

structure System (σ : Type) where
  disk : Disk σ
  connections : Nat → Option Connection
  log : List Exchange

/-- The size of the buffer of `forward_stream`. -/
def streamSize : Nat := 4 * 1024 * 1024

namespace Connection

/-- A client that is connected and sends these bytes. -/
def opened (memory : Nat → Char) (incoming : Text) (arrivals ahead : List Nat) : Connection :=
  { incoming := .connected streamSize memory incoming arrivals
    forwarding := false
    forwarded := []
    buffer := []
    outgoing := []
    ahead := ahead }

/-- The bytes that were taken off the stream up to `s`. -/
def requestTo (c : Connection) (s : SocketStream) : Text :=
  c.incoming.unread.take (c.incoming.unread.length - s.unread.length)

end Connection

/-- How many bytes come with the header of the response to a request. -/
def aheadOf (c : Connection) (raw : RawRequest) : Nat :=
  (if Round.expects raw then c.ahead.tail else c.ahead).headD 0

/-- The response has no body if it is to a `HEAD` request; otherwise its header
has the length of its body, and the bytes that come with the header are less
than a chunk of the body, or all of it. -/
def Framed {σ : Type} (setup : Setup σ) (raw : RawRequest) (response : ServerResponse)
    (ahead : Nat) : Prop :=
  if raw.method = "HEAD".toList then response.body = []
  else
    setup.library.getContentLength response.header = some response.body.length ∧
      (ahead < (if isGetObject raw then storeSize else relaySize) ∨ response.body.length ≤ ahead)

instance {σ : Type} (setup : Setup σ) (raw : RawRequest) (response : ServerResponse)
    (ahead : Nat) : Decidable (Framed setup raw response ahead) := by
  unfold Framed
  infer_instance

namespace System

variable {σ : Type} (setup : Setup σ)

def start (storage : σ) (capacity : Nat) : System σ :=
  { disk := .start storage capacity, connections := fun _ => none, log := [] }

/-- The header that the next request of a client is read as. -/
def rawOf (c : Connection) : Option RawRequest :=
  match run setup.services.readRawRequest c.incoming with
  | (.ok raw, _) => some raw
  | (.error _, _) => none

/-- The system behind a round. Its sources end with it. -/
def after (s : System σ) (id : Nat) (w : Round σ) (connection : Option Connection)
    (log : List Exchange) : System σ :=
  { disk := { w.disk with sources := [] }
    connections := Function.update s.connections id connection
    log := log ++ s.log }

/-- One round of the loop of `handler::_handle` for a client. A client that ends
its connection within a request gets no response to it. -/
def round (s : System σ) (id : Nat) (c : Connection) (faults : List (Option Failure)) : System σ :=
  let exchange (w : Round σ) (output : List Output) : Exchange :=
    ⟨rawOf setup c, c.requestTo w.connection.incoming, output⟩
  match run (Round.handleRequest setup) ⟨s.disk, c, faults, []⟩ with
  | (.ok _, w) => s.after id w (some w.connection) [exchange w w.output]
  | (.error (.thrown .endOfFile), w) => s.after id w none []
  | (.error (.thrown (.failure failure)), w) =>
    s.after id w (some w.connection) [exchange w (w.output ++ [.error failure])]
  | (.error .systemError, w) => s.after id w none [exchange w w.output]
  | (.error .waiting, w) => s.after id w none [exchange w w.output]

inductive Action where
  | connect (id : Nat) (memory : Nat → Char) (incoming : Text) (arrivals ahead : List Nat)
  | round (id : Nat) (faults : List (Option Failure))
  | evict
  | evictDone (failed : Bool)

def next (s : System σ) : Action → Option (System σ)
  | .connect id memory incoming arrivals ahead =>
    some { s with
      connections := Function.update s.connections id
        (some (.opened memory incoming arrivals ahead)) }
  | .round id faults =>
    match s.connections id with
    | some c => some (s.round setup id c faults)
    | none => none
  | .evict =>
    match s.disk.next setup.dataView .evict with
    | some disk => some { s with disk := disk }
    | none => none
  | .evictDone failed =>
    match s.disk.next setup.dataView (.evictDone failed) with
    | some disk => some { s with disk := disk }
    | none => none

/-- The client got the response of the server to its request, but for `Via`. -/
def Transparent (e : Exchange) : Prop :=
  (received e.output).map ServerResponse.apartFromVia =
    some (setup.server.response e.request).apartFromVia

instance (e : Exchange) : Decidable (Transparent setup e) := inferInstanceAs (Decidable (_ = _))

/-- The cache has an object for the request. -/
def hit (disk : Disk σ) (raw : RawRequest) : Bool :=
  isGetObject raw && (disk.cache.lookup (cacheKey raw)).isSome

/-- The request was one to get the object of this key, and the key is all that
the cache knows of it. -/
def sameKey (raw : RawRequest) (e : Exchange) : Bool :=
  e.raw.any fun other => isGetObject other && decide (cacheKey other = cacheKey raw)

/-- The server gives to the request the response it gave to all earlier requests
to get an object of this key. -/
def SameAnswer (s : System σ) (raw : RawRequest) (request : Text) : Prop :=
  ∀ e ∈ s.log, sameKey raw e = true →
    (setup.server.response e.request).apartFromVia = (setup.server.response request).apartFromVia

instance (s : System σ) (raw : RawRequest) (request : Text) :
    Decidable (s.SameAnswer setup raw request) :=
  inferInstanceAs (Decidable (∀ e ∈ s.log, _ → _))

/-- The computation returns a result with the property, or the client ends its
connection. -/
def Reads {α : Type} (result : Except Thrown α × SocketStream) (P : α → SocketStream → Prop) :
    Prop :=
  match result with
  | (.ok a, s) => P a s
  | (.error .endOfFile, _) => True
  | (.error (.failure _), _) => False

instance {α : Type} (result : Except Thrown α × SocketStream) (P : α → SocketStream → Prop)
    [∀ a s, Decidable (P a s)] : Decidable (Reads result P) :=
  match result with
  | (.ok a, s) => inferInstanceAs (Decidable (P a s))
  | (.error .endOfFile, _) => .isTrue trivial
  | (.error (.failure _), _) => .isFalse id

/-- What is asked of a request with this header and body. If the cache has an
object for it, the server answers it as it answered the earlier requests of its
key; otherwise the server sends the interim response that is asked for and a
response in the form that is relayed. -/
def BodyAnswerable (s : System σ) (c : Connection) (raw : RawRequest) (s₁ : SocketStream)
    (body : BodyState) : Prop :=
  if hit s.disk raw then
    Reads (run (readBody setup.services.crypto body) s₁) fun _ s₂ =>
      s.SameAnswer setup raw (c.requestTo s₂)
  else
    (Round.expects raw = true → (setup.server.interim (handed s₁)).isSome = true) ∧
      Reads (run (readBody setup.services.crypto body) (consumed s₁)) fun _ s₂ =>
        Framed setup raw (setup.server.response (c.requestTo s₂)) (aheadOf c raw)

instance (s : System σ) (c : Connection) (raw : RawRequest) (s₁ : SocketStream)
    (body : BodyState) : Decidable (s.BodyAnswerable setup c raw s₁ body) := by
  unfold BodyAnswerable
  infer_instance

/-- The result is there and has the property. -/
def Makes {α : Type} (result : Except Exn α) (P : α → Prop) : Prop :=
  match result with
  | .ok a => P a
  | .error _ => False

instance {α : Type} (result : Except Exn α) (P : α → Prop) [DecidablePred P] :
    Decidable (Makes result P) :=
  match result with
  | .ok a => inferInstanceAs (Decidable (P a))
  | .error _ => .isFalse id

def HeaderAnswerable (s : System σ) (c : Connection) (raw : RawRequest) (s₁ : SocketStream) :
    Prop :=
  Makes (makeBody setup.services raw) (s.BodyAnswerable setup c raw s₁)

instance (s : System σ) (c : Connection) (raw : RawRequest) (s₁ : SocketStream) :
    Decidable (s.HeaderAnswerable setup c raw s₁) :=
  inferInstanceAs (Decidable (Makes _ _))

/-- The next request of a client is read without an exception and can be
answered. -/
def Answerable (s : System σ) (c : Connection) : Prop :=
  Reads (run setup.services.readRawRequest c.incoming) (s.HeaderAnswerable setup c)

instance (s : System σ) (c : Connection) : Decidable (s.Answerable setup c) :=
  inferInstanceAs (Decidable (Reads _ _))

/-- The condition on the steps of a run: no call of the storage fails in a round
and the request can be answered. -/
def Undisturbed (s : System σ) : Action → Prop
  | .round id faults => Sound faults ∧ ∀ c ∈ s.connections id, s.Answerable setup c
  | _ => True

instance (s : System σ) (action : Action) : Decidable (s.Undisturbed setup action) := by
  cases action <;> unfold Undisturbed <;> infer_instance

end System

end UhCore.Proxy
