import UhCore.Lib.Bytes
import UhCore.Network.Messenger

/-!
An iteration of the loop of `storage::handler`, and how a function of
`remote_storage` reads its reply. A request is framed where its handler reads
all of its payload.
-/

namespace UhCore.Network

open Effects Words List Wire

/-- `local_storage`, with a request as its payload. -/
structure LocalStorage (σ : Type) where
  write : List UInt8 → σ → Except Err Unit × σ
  read : List UInt8 → σ → Except Err (List UInt8) × σ
  readAddress : List UInt8 → σ → Except Err (Nat → UInt8) × σ
  link : List UInt8 → σ → Except Err (List Refcount) × σ
  unlink : List UInt8 → σ → Except Err Nat × σ
  getRefcounts : List UInt8 → σ → Except Err (List Refcount) × σ
  getUsedSpace : σ → Except Err Nat × σ
  allocate : List UInt8 → σ → Except Err Allocation × σ

def fragmentSizes : Nat → List UInt8 → List Nat
  | 0, _ => []
  | n + 1, bytes => ofLe ((bytes.drop 8).take 8) :: fragmentSizes n (bytes.drop 16)

def dataSize (payload : List UInt8) : Nat :=
  wrap 64 (fragmentSizes (payload.length / 16) payload).sum

def refcountBytes (rcs : List Refcount) : List UInt8 :=
  rcs.flatMap fun rc => le 8 rc.stripeId ++ le 8 rc.count

def allocationBytes (a : Allocation) : List UInt8 := le 8 a.offset ++ le 8 a.size

/-- `messenger::recv_write`. Below the size of the fixed part the size of the buffer
has wrapped around, and its allocation fails. -/
def recvWrite (h : Header) : Recv (List UInt8) := do
  registerReadBuffer 32
  if h.size < 32 then throw (.exception "std::bad_alloc")
  registerReadBuffer (h.size - 32)
  recvBuffers h h.size

/-- What the handler of a type reads of the payload. -/
def recvRequest (h : Header) : Recv (List UInt8) :=
  if h.type = typeWrite then recvWrite h
  else if h.type = typeRead then recvInto h 32
  else if h.type = typeReadAddress ∨ h.type = typeLink ∨ h.type = typeUnlink then
    recvInto h (h.size / 16 * 16)
  else if h.type = typeGetRefcounts then recvInto h (h.size / 8 * 8)
  else if h.type = typeUsed then pure []
  else if h.type = typeAllocate then recvInto h 16
  else throw (.exception "Invalid message type!")

/-- What a handler sends as the payload of its reply. -/
def LocalStorage.answer {σ : Type} (st : LocalStorage σ) (type : UInt8) (payload : List UInt8)
    (s : σ) : Except Err (List UInt8) × σ :=
  if type = typeWrite then (st.write payload s).map (·.map fun _ => []) id
  else if type = typeRead then st.read payload s
  else if type = typeReadAddress then
    (st.readAddress payload s).map (·.map fun f => Bytes.window f 0 (dataSize payload)) id
  else if type = typeLink then (st.link payload s).map (·.map refcountBytes) id
  else if type = typeUnlink then (st.unlink payload s).map (·.map (le 8)) id
  else if type = typeGetRefcounts then (st.getRefcounts payload s).map (·.map refcountBytes) id
  else if type = typeUsed then (st.getUsedSpace s).map (·.map (le 8)) id
  else (st.allocate payload s).map (·.map allocationBytes) id

structure Server (σ : Type) where
  side : Side
  storage : σ

inductive Served (σ : Type) where
  | waits
  | undefined
  | replied (server : Server σ) (reply : List UInt8)

/-- An iteration of the loop in `handler::handle`. Every exception is answered by an
error. -/
def Server.iterate {σ : Type} (st : LocalStorage σ) (ctx : Context) (srv : Server σ) : Served σ :=
  match run (do
      let h ← recvHeader
      let payload ← recvRequest h
      return (h.type, payload) : Recv (UInt8 × List UInt8)) srv.side with
  | (.error .waits, _) => .waits
  | (.error .undefined, _) => .undefined
  | (.error (.error e), side) => .replied ⟨side, srv.storage⟩ (frame ctx typeFailure e.payload)
  | (.error (.exception what), side) =>
    .replied ⟨side, srv.storage⟩ (frame ctx typeFailure (Err.payload ⟨1, text what⟩))
  | (.ok (type, payload), side) =>
    match st.answer type payload srv.storage with
    | (.error e, s) => .replied ⟨side, s⟩ (frame ctx typeFailure e.payload)
    | (.ok reply, s) => .replied ⟨side, s⟩ (frame ctx typeSuccess reply)

structure Request where
  type : UInt8
  payload : List UInt8
  fits : payload.length < 2 ^ 64
  deriving DecidableEq

def Request.frame (ctx : Context) (req : Request) : List UInt8 :=
  Network.frame ctx req.type req.payload

/-- What a caller registers for the payload of a reply; after a write, and after a
type that has no function in `remote_storage`, it only reads the header. -/
def Request.expected (req : Request) (size : Nat) : Option Nat :=
  if req.type = typeRead then some size
  else if req.type = typeReadAddress then some (dataSize req.payload)
  else if req.type = typeLink ∨ req.type = typeGetRefcounts then some (size / 16 * 16)
  else if req.type = typeUnlink ∨ req.type = typeUsed then some 8
  else if req.type = typeAllocate then some 16
  else none

def recvReply (req : Request) : Recv (List UInt8) := do
  let h ← recvHeader
  match req.expected h.size with
  | none => return []
  | some n => recvInto h n

/-- The handler of the type reads a payload of this size: nothing of it is left, and
no buffer stays registered. A request of a type without handler has none. -/
def Request.Framed (req : Request) : Prop :=
  let n := req.payload.length
  if req.type = typeWrite then 32 ≤ n
  else if req.type = typeRead then n = 32
  else if req.type = typeReadAddress ∨ req.type = typeLink ∨ req.type = typeUnlink then 16 ∣ n
  else if req.type = typeGetRefcounts then 8 ∣ n
  else if req.type = typeAllocate then n = 16
  else if req.type = typeFailure then 4 ≤ n ∨ n = 0
  else n = 0

instance (req : Request) : Decidable req.Framed := by
  unfold Request.Framed
  infer_instance

/-- The numbers of an error have the sizes of their types. -/
def Err.Fits (e : Err) : Prop := e.code < 2 ^ 32 ∧ e.payload.length < 2 ^ 64

instance (e : Err) : Decidable e.Fits := inferInstanceAs (Decidable (_ ∧ _))

/-- Replies have sizes that a `size_t` has. -/
def LocalStorage.Sized {σ : Type} (st : LocalStorage σ) : Prop :=
  ∀ type payload s, match (st.answer type payload s).1 with
    | .error e => e.Fits
    | .ok reply => reply.length < 2 ^ 64

section Framing

variable {σ : Type} {st : LocalStorage σ}

/-- A reply that the caller of a request reads to its end. -/
inductive Answers (req : Request) : List UInt8 → Prop where
  | error (ctx : Context) {e : Err} : e.Fits → Answers req (frame ctx typeFailure e.payload)
  | success (ctx : Context) {bytes : List UInt8} : bytes.length < 2 ^ 64 →
      (match req.expected bytes.length with
        | none => bytes = []
        | some n => n = bytes.length) → Answers req (frame ctx typeSuccess bytes)

variable {req : Request} {reply payload : List UInt8}

theorem Answers.run_recvReply (h : Answers req reply) (rest : List UInt8) :
    ∃ result, run (recvReply req) ⟨0, reply ++ rest⟩ = (result, ⟨0, rest⟩) ∧
      result ≠ .error .waits ∧ result ≠ .error .undefined := by
  cases h with
  | @error ctx e hfits =>
    refine ⟨.error (.error e), ?_, by simp, by simp⟩
    rw [recvReply, run_bind, run_recvHeader_error ctx hfits.1 hfits.2]
  | @success ctx bytes hsize hexp =>
    rw [recvReply, run_bind, run_recvHeader ctx typeSuccess (by decide) hsize]
    cases hcase : req.expected bytes.length with
    | none =>
      rw [hcase] at hexp
      simp only [hcase]
      obtain rfl : bytes = [] := hexp
      exact ⟨.ok [], rfl, by simp, by simp⟩
    | some n =>
      rw [hcase] at hexp
      simp only [hcase, hexp]
      exact ⟨.ok bytes, run_recvInto typeSuccess hsize, by simp, by simp⟩

theorem length_refcountBytes (rcs : List Refcount) : (refcountBytes rcs).length = rcs.length * 16 := by
  induction rcs with
  | nil => rfl
  | cons rc rcs ih =>
    rw [refcountBytes, flatMap_cons, length_append, length_append,
      length_le, length_le, ← refcountBytes, ih, length_cons]
    omega

theorem sixteen_dvd_refcountBytes (rcs : List Refcount) : 16 ∣ (refcountBytes rcs).length :=
  ⟨rcs.length, by rw [length_refcountBytes, mul_comm]⟩

/-- The types that have a handler. -/
def handled : List UInt8 :=
  [typeWrite, typeRead, typeReadAddress, typeLink, typeUnlink, typeGetRefcounts, typeUsed,
    typeAllocate]

theorem of_map_ok {α β : Type} {r : Except Err α × σ} {f : α → β} {b : β}
    (h : (r.map (·.map f) id).1 = .ok b) : ∃ a, f a = b := by
  rcases r with ⟨_ | a, s⟩
  · exact absurd h (by simp [Except.map])
  · exact ⟨a, by simpa [Except.map] using h⟩

/-- The reply of a handler has the size that the caller expects. -/
theorem expected_answer (htype : req.type ∈ handled) {s : σ}
    (h : (st.answer req.type req.payload s).1 = .ok reply) : match req.expected reply.length with
    | none => reply = []
    | some n => n = reply.length := by
  simp only [handled, mem_cons, not_mem_nil, or_false] at htype
  rcases htype with ht | ht | ht | ht | ht | ht | ht | ht <;> rw [ht] at h <;>
    simp only [Request.expected, ht]
  · obtain ⟨_, rfl⟩ := of_map_ok h
    rfl
  · rfl
  · obtain ⟨f, rfl⟩ := of_map_ok h
    exact (Bytes.length_window f 0 _).symm
  · obtain ⟨rcs, rfl⟩ := of_map_ok h
    exact Nat.div_mul_cancel (sixteen_dvd_refcountBytes rcs)
  · obtain ⟨n, rfl⟩ := of_map_ok h
    exact (length_le 8 n).symm
  · obtain ⟨rcs, rfl⟩ := of_map_ok h
    exact Nat.div_mul_cancel (sixteen_dvd_refcountBytes rcs)
  · obtain ⟨n, rfl⟩ := of_map_ok h
    exact (length_le 8 n).symm
  · obtain ⟨a, rfl⟩ := of_map_ok h
    rfl

theorem run_recvWrite {type : UInt8} {rest : List UInt8} (hsize : payload.length < 2 ^ 64)
    (h : 32 ≤ payload.length) :
    run (recvWrite ⟨type, payload.length⟩) ⟨0, payload ++ rest⟩ = (.ok payload, ⟨0, rest⟩) := by
  have hfixed : wrap 64 (0 + 32) = 32 := rfl
  have hwhole : wrap 64 (32 + (payload.length - 32)) = payload.length := by
    rw [Nat.add_sub_cancel' h]
    exact wrap_of_lt hsize
  simp only [recvWrite, run_bind, registerReadBuffer, run_modify, hfixed, not_lt.mpr h,
    if_false, hwhole, recvBuffers, run_act, ne_eq, not_true_eq_false, splitFirst_append]

theorem run_recvRequest (hframe : req.Framed) (htype : req.type ∈ handled) (rest : List UInt8) :
    run (recvRequest ⟨req.type, req.payload.length⟩) ⟨0, req.payload ++ rest⟩ =
      (.ok req.payload, ⟨0, rest⟩) := by
  have hinto : ∀ n, n = req.payload.length → run (recvInto ⟨req.type, req.payload.length⟩ n)
      ⟨0, req.payload ++ rest⟩ = (.ok req.payload, ⟨0, rest⟩) := by
    rintro n rfl
    exact run_recvInto req.type req.fits
  simp only [handled, mem_cons, not_mem_nil, or_false] at htype
  rcases htype with ht | ht | ht | ht | ht | ht | ht | ht <;>
    simp only [Request.Framed, recvRequest, ht] at hframe hinto ⊢
  · exact run_recvWrite req.fits hframe
  · exact hinto 32 (Eq.symm hframe)
  · exact hinto _ (Nat.div_mul_cancel hframe)
  · exact hinto _ (Nat.div_mul_cancel hframe)
  · exact hinto _ (Nat.div_mul_cancel hframe)
  · exact hinto _ (Nat.div_mul_cancel hframe)
  · have hnil : req.payload = [] := length_eq_zero_iff.mp hframe
    rw [hnil]
    rfl
  · exact hinto 16 (Eq.symm hframe)

/-- A type without handler is refused before its payload is read. -/
theorem recvRequest_of_not_handled {h : Header} (htype : h.type ∉ handled) :
    recvRequest h = throw (.exception "Invalid message type!") := by
  simp only [handled, mem_cons, not_mem_nil, or_false, not_or] at htype
  simp [recvRequest, htype]

theorem Request.Framed.payload_nil (hframe : req.Framed) (htype : req.type ∉ handled)
    (hfail : req.type ≠ typeFailure) : req.payload = [] := by
  simp only [handled, mem_cons, not_mem_nil, or_false, not_or] at htype
  simpa [Request.Framed, htype, hfail] using hframe

theorem exists_err (h : 4 ≤ payload.length) (hsize : payload.length < 2 ^ 64) :
    ∃ e : Err, e.Fits ∧ e.payload = payload := by
  have hlen : (payload.take 4).length = 4 := length_take_of_le h
  have hcode : le 4 (ofLe (payload.take 4)) = payload.take 4 := by
    have hround := le_ofLe (payload.take 4)
    rwa [hlen] at hround
  have hpay : Err.payload ⟨ofLe (payload.take 4), payload.drop 4⟩ = payload := by
    rw [Err.payload, hcode, take_append_drop]
  refine ⟨⟨ofLe (payload.take 4), payload.drop 4⟩, ⟨?_, ?_⟩, hpay⟩
  · have hlt := ofLe_lt (payload.take 4)
    rw [hlen] at hlt
    exact hlt.trans_le (by norm_num)
  · rwa [hpay]

theorem run_recvHeader_short (ctx : Context) (rest : List UInt8) :
    run recvHeader ⟨0, frame ctx typeFailure [] ++ rest⟩ =
      (.error (.exception "basic_string::_M_create"), ⟨0, rest⟩) := by
  have hbytes : ofLe (le 8 0) = 0 := rfl
  simp only [recvHeader, run_bind, readBytes, run_act, splitFirst_frame]
  simp [recvError, run_throw, hbytes]

/-- The request of a framed message is read to its end, and one reply is sent which
its caller reads to its end. -/
theorem iterate_framed (hst : st.Sized) (hframe : req.Framed) (ctx ctx' : Context)
    (rest : List UInt8) (s : σ) : ∃ s' reply,
      Server.iterate st ctx' ⟨⟨0, req.frame ctx ++ rest⟩, s⟩ = .replied ⟨⟨0, rest⟩, s'⟩ reply ∧
        Answers req reply := by
  by_cases hfail : req.type = typeFailure
  · have hsize : 4 ≤ req.payload.length ∨ req.payload.length = 0 := by
      simp only [Request.Framed, hfail] at hframe
      exact hframe
    rcases hsize with hfour | hnil
    · obtain ⟨e, hfits, hpay⟩ := exists_err hfour req.fits
      refine ⟨s, _, ?_, Answers.error ctx' hfits⟩
      rw [Server.iterate, Request.frame, hfail, ← hpay, run_bind,
        run_recvHeader_error ctx hfits.1 hfits.2]
    · have hfits : Err.Fits ⟨1, text "basic_string::_M_create"⟩ := by decide
      refine ⟨s, _, ?_, Answers.error ctx' hfits⟩
      rw [Server.iterate, Request.frame, hfail, length_eq_zero_iff.mp hnil, run_bind,
        run_recvHeader_short]
  · have hhead : run recvHeader ⟨0, frame ctx req.type req.payload ++ rest⟩ =
        (.ok ⟨req.type, req.payload.length⟩, ⟨0, req.payload ++ rest⟩) :=
      run_recvHeader ctx req.type hfail req.fits 0
    by_cases htype : req.type ∈ handled
    · have hreq := run_recvRequest hframe htype rest
      have hreply := hst req.type req.payload s
      simp only [Server.iterate, Request.frame, run_bind, hhead, hreq, run_pure]
      rcases hans : st.answer req.type req.payload s with ⟨e | bytes, s'⟩
      · rw [hans] at hreply
        exact ⟨s', _, rfl, Answers.error ctx' hreply⟩
      · rw [hans] at hreply
        exact ⟨s', _, rfl, Answers.success ctx' hreply
          (expected_answer htype (congrArg Prod.fst hans))⟩
    · have hnil := hframe.payload_nil htype hfail
      have hfits : Err.Fits ⟨1, text "Invalid message type!"⟩ := by decide
      rw [hnil] at hhead
      refine ⟨s, _, ?_, Answers.error ctx' hfits⟩
      simp only [Server.iterate, Request.frame, hnil, run_bind, hhead,
        recvRequest_of_not_handled (h := ⟨req.type, _⟩) htype, run_throw]
      rfl

end Framing

end UhCore.Network
