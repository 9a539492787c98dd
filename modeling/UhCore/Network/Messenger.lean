import UhCore.Lib.Effects
import UhCore.Lib.Wire
import UhCore.Types

/-!
The messages between services: a header with the type and the size of the
payload, and the payload. A messenger reads a payload into buffers that were
registered before, and only where their size is that of the header. Allocations
do not fail here, apart from those whose size has wrapped around.
-/

namespace UhCore.Network

open Effects Words Wire

def contextLength : Nat := 55

/-- The encoded trace context of a message. -/
structure Context where
  bytes : List UInt8
  length : bytes.length = contextLength

def headerLength : Nat := 9 + contextLength

def typeSuccess : UInt8 := 0
def typeFailure : UInt8 := 1
def typeReadAddress : UInt8 := 33
def typeRead : UInt8 := 34
def typeWrite : UInt8 := 35
def typeLink : UInt8 := 37
def typeUnlink : UInt8 := 38
def typeUsed : UInt8 := 39
def typeAllocate : UInt8 := 40
def typeGetRefcounts : UInt8 := 41

structure Header where
  type : UInt8
  size : Nat
  deriving DecidableEq, Repr

/-- The class `error`. -/
structure Err where
  code : Nat
  message : List UInt8
  deriving DecidableEq, Repr

/-- What stops a coroutine. -/
inductive Stop where
  | waits
  | error (e : Err)
  | exception (what : String)
  | undefined
  deriving DecidableEq, Repr

/-- One end of a connection: the size of the registered buffers and the bytes that
were received and not read. -/
structure Side where
  readSize : Nat
  input : List UInt8
  deriving DecidableEq, Repr

abbrev Recv (α : Type) := Effect Side Stop α

def readBytes (n : Nat) : Recv (List UInt8) := act fun s =>
  match splitFirst n s.input with
  | none => (.error .waits, s)
  | some (bytes, rest) => (.ok bytes, { s with input := rest })

def registerReadBuffer (n : Nat) : Recv PUnit :=
  modify fun s => { s with readSize := wrap 64 (s.readSize + n) }

def sizeMismatch (size readSize : Nat) : String :=
  "The size of the buffers does not match with the header size: " ++ toString size ++ " != " ++
    toString readSize

/-- Read the payload. `own` is the size that the caller has registered: buffers that
another one has left are gone. -/
def recvBuffers (h : Header) (own : Nat) : Recv (List UInt8) := act fun s =>
  if h.size ≠ s.readSize then (.error (.exception (sizeMismatch h.size s.readSize)), s)
  else if s.readSize ≠ own then (.error .undefined, s)
  else match splitFirst s.readSize s.input with
    | none => (.error .waits, s)
    | some (bytes, rest) => (.ok bytes, ⟨0, rest⟩)

/-- Register a buffer and read the payload into it. -/
def recvInto (h : Header) (size : Nat) : Recv (List UInt8) := do
  registerReadBuffer size
  recvBuffers h size

/-- Below the size of the code the length of the text has wrapped around. -/
def recvError (h : Header) : Recv Err := do
  if h.size < 4 then throw (.exception "basic_string::_M_create")
  let bytes ← recvInto h h.size
  return ⟨ofLe (bytes.take 4), bytes.drop 4⟩

def recvHeader : Recv Header := do
  let bytes ← readBytes headerLength
  let h : Header := ⟨bytes.headD 0, ofLe ((bytes.drop 1).take 8)⟩
  if h.type = typeFailure then throw (.error (← recvError h))
  return h

/-- What is sent for a message. -/
def frame (ctx : Context) (type : UInt8) (payload : List UInt8) : List UInt8 :=
  type :: (le 8 payload.length ++ ctx.bytes) ++ payload

def text (s : String) : List UInt8 := s.toList.map fun c => UInt8.ofNat c.toNat

def Err.payload (e : Err) : List UInt8 := le 4 e.code ++ e.message

section Frames

variable (ctx : Context) (type : UInt8) {payload rest : List UInt8}

theorem splitFirst_frame :
    splitFirst headerLength (frame ctx type payload ++ rest) =
      some (type :: (le 8 payload.length ++ ctx.bytes), payload ++ rest) := by
  have hlen : (type :: (le 8 payload.length ++ ctx.bytes)).length = headerLength := by
    simp only [List.length_cons, List.length_append, length_le, ctx.length, headerLength]
    omega
  rw [frame, List.append_assoc, ← hlen, splitFirst_append]

/-- A header is read from the front of a message, unless it tells an error. -/
theorem run_recvHeader (htype : type ≠ typeFailure) (hsize : payload.length < 2 ^ 64) (n : Nat) :
    run recvHeader ⟨n, frame ctx type payload ++ rest⟩ =
      (.ok ⟨type, payload.length⟩, ⟨n, payload ++ rest⟩) := by
  have hbytes : ofLe (le 8 payload.length) = payload.length :=
    ofLe_le (by simpa using hsize)
  simp only [recvHeader, run_bind, readBytes, run_act, splitFirst_frame]
  simp [htype, run_pure, hbytes]

theorem run_recvInto (hsize : payload.length < 2 ^ 64) :
    run (recvInto ⟨type, payload.length⟩ payload.length) ⟨0, payload ++ rest⟩ =
      (.ok payload, ⟨0, rest⟩) := by
  have hwrap : wrap 64 (0 + payload.length) = payload.length := by
    rw [zero_add]
    exact wrap_of_lt hsize
  simp only [recvInto, run_bind, registerReadBuffer, run_modify, recvBuffers, run_act, hwrap,
    ne_eq, not_true_eq_false, if_false, splitFirst_append]

theorem run_recvHeader_error {e : Err} (hcode : e.code < 2 ^ 32)
    (hsize : e.payload.length < 2 ^ 64) :
    run recvHeader ⟨0, frame ctx typeFailure e.payload ++ rest⟩ =
      (.error (.error e), ⟨0, rest⟩) := by
  have hbytes : ofLe (le 8 e.payload.length) = e.payload.length :=
    ofLe_le (by simpa using hsize)
  have hfour : ¬ e.payload.length < 4 := by simp [Err.payload]
  have hread : run (recvInto ⟨typeFailure, e.payload.length⟩ e.payload.length)
      ⟨0, e.payload ++ rest⟩ = (.ok e.payload, ⟨0, rest⟩) := run_recvInto typeFailure hsize
  have herror : (⟨ofLe (e.payload.take 4), e.payload.drop 4⟩ : Err) = e := by
    have hcode' : ofLe (le 4 e.code) = e.code := ofLe_le (by simpa using hcode)
    rw [Err.payload, List.take_left' (length_le 4 _), List.drop_left' (length_le 4 _),
      hcode']
  simp only [recvHeader, run_bind, readBytes, run_act, splitFirst_frame]
  simp [hbytes, recvError, hfour, run_bind, hread, run_throw, herror]

end Frames

end UhCore.Network
