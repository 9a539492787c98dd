import UhCore.Network.StorageHandler

/-!
The payload of a write, as `send_write` puts it together and as `recv_write`
takes it apart: the allocation, two counts, the reference counts, the sizes of
the buffers and the buffers. Counts and sizes are not compared with the size of
the payload.
-/

namespace UhCore.Network

open Effects Words List Wire List

/-- The number of elements of 16 bytes that a `std::vector` has at most. -/
def maxElements : Nat := (2 ^ 63 - 1) / 16

/-- `write_request_view` -/
structure WriteRequest where
  allocation : Allocation
  refcounts : List Refcount
  buffers : List (List UInt8)
  deriving DecidableEq

/-- The payload that `messenger::send_write` sends. -/
def WriteRequest.payload (req : WriteRequest) : List UInt8 :=
  allocationBytes req.allocation ++ (le 8 req.refcounts.length ++
    (le 8 req.buffers.length ++ (refcountBytes req.refcounts ++
      ((req.buffers.map length).flatMap (le 8) ++ req.buffers.flatten))))

/-- Numbers and vectors have the sizes of their types. -/
structure WriteRequest.Sized (req : WriteRequest) : Prop where
  allocation : req.allocation.offset < 2 ^ 64 ∧ req.allocation.size < 2 ^ 64
  refcounts : ∀ rc ∈ req.refcounts, rc.stripeId < 2 ^ 64 ∧ rc.count < 2 ^ 64
  numRefcounts : req.refcounts.length ≤ maxElements
  numBuffers : req.buffers.length ≤ maxElements
  payload : req.payload.length < 2 ^ 64

/-- `write_request_store`. A buffer has a place behind the fixed part of the payload
and a size. -/
structure WriteStore where
  allocation : Allocation
  refcounts : List Refcount
  spans : List (Nat × Nat)
  backing : List UInt8
  deriving DecidableEq

/-- What the storage gets to write. -/
def WriteStore.request (store : WriteStore) : WriteRequest :=
  ⟨store.allocation, store.refcounts,
    store.spans.map fun span => (store.backing.drop span.1).take span.2⟩

def readRefcount (bytes : List UInt8) : Refcount :=
  ⟨ofLe (bytes.take 8), ofLe (bytes.drop 8)⟩

section Payload

variable (payload : List UInt8)

def numRefcounts : Nat := ofLe ((payload.drop 16).take 8)

def numBuffers : Nat := ofLe ((payload.drop 24).take 8)

/-- `num_refcounts * sizeof(refcount_t)`, which may wrap around. -/
def refcountsSize : Nat := wrap 64 (numRefcounts payload * 16)

def bufferSizes : List Nat :=
  table 8 ofLe (numBuffers payload) ((payload.drop 32).drop (refcountsSize payload))

end Payload

/-- The buffers behind a place. -/
def spansFrom : Nat → List Nat → List (Nat × Nat)
  | _, [] => []
  | p, size :: sizes => (p, size) :: spansFrom (wrap 64 (p + size)) sizes

/-- What `messenger::recv_write` does with a payload. It reads behind the payload where
a table does not end in it. -/
def parseWrite (payload : List UInt8) : Except Stop WriteStore :=
  let backing := payload.drop 32
  let sizes := refcountsSize payload
  if maxElements < sizes / 16 then
    .error (.exception "cannot create std::vector larger than max_size()")
  else if backing.length < sizes then .error .undefined
  else if maxElements < numBuffers payload then .error (.exception "vector::reserve")
  else if backing.length < sizes + 8 * numBuffers payload then .error .undefined
  else .ok
    { allocation := ⟨ofLe (payload.take 8), ofLe ((payload.drop 8).take 8)⟩
      refcounts := table 16 readRefcount (sizes / 16) backing
      spans := spansFrom (sizes + 8 * numBuffers payload) (bufferSizes payload)
      backing := backing }

def recvWriteRequest (h : Header) : Recv WriteStore := do
  computed (parseWrite (← recvWrite h))

/-- An error, or buffers that are inside of the payload. -/
def Inside : Except Stop WriteStore → Prop
  | .error stop => stop ≠ .undefined
  | .ok store => ∀ span ∈ store.spans, span.1 + span.2 ≤ store.backing.length

/-- The tables and the buffers end in the payload, up to a count that no vector has. -/
def Contains (payload : List UInt8) : Prop :=
  maxElements < refcountsSize payload / 16 ∨
    32 + refcountsSize payload ≤ payload.length ∧
      (maxElements < numBuffers payload ∨
        32 + refcountsSize payload + 8 * numBuffers payload + (bufferSizes payload).sum ≤
          payload.length)

theorem spansFrom_inside_iff {size p : Nat} {sizes : List Nat} (hp : p ≤ size) (hsize : size < 2 ^ 64) :
    (∀ span ∈ spansFrom p sizes, span.1 + span.2 ≤ size) ↔ p + sizes.sum ≤ size := by
  induction sizes generalizing p with
  | nil => simpa [spansFrom] using hp
  | cons first sizes ih =>
    rw [spansFrom, forall_mem_cons, sum_cons, ← add_assoc]
    constructor
    · rintro ⟨hfirst, hrest⟩
      rw [wrap_of_lt (hfirst.trans_lt hsize)] at hrest
      exact (ih hfirst).mp hrest
    · intro h
      have hfirst : p + first ≤ size := (Nat.le_add_right _ _).trans h
      rw [wrap_of_lt (hfirst.trans_lt hsize)]
      exact ⟨hfirst, (ih hfirst).mpr h⟩

theorem parseWrite_inside_iff {payload : List UInt8} (hfixed : 32 ≤ payload.length)
    (hsize : payload.length < 2 ^ 64) : Inside (parseWrite payload) ↔ Contains payload := by
  have hlen : (payload.drop 32).length = payload.length - 32 := length_drop
  have hspans := @spansFrom_inside_iff (payload.length - 32)
    (refcountsSize payload + 8 * numBuffers payload) (bufferSizes payload)
  simp only [parseWrite, Contains, hlen]
  split_ifs with hvector hcounts hreserve htable <;>
    simp only [Inside, ne_eq, reduceCtorEq, not_true, not_false_iff, false_iff, true_iff]
  · exact Or.inl hvector
  · omega
  · exact Or.inr ⟨by omega, Or.inl hreserve⟩
  · omega
  · rw [hlen, hspans (by omega) (by omega)]
    omega

theorem run_recvWriteRequest {h : Header} (hsize : h.size < 2 ^ 64) (input : List UInt8) :
    (run (recvWriteRequest h) ⟨0, input⟩).1 =
      if h.size < 32 then .error (.exception "std::bad_alloc")
      else if input.length < h.size then .error .waits
      else parseWrite (input.take h.size) := by
  have hfixed : wrap 64 (0 + 32) = 32 := rfl
  simp only [recvWriteRequest, recvWrite, run_bind, registerReadBuffer, run_modify, hfixed]
  split_ifs with hsmall hshort
  · rfl
  all_goals
    have hwhole : wrap 64 (32 + (h.size - 32)) = h.size := by
      rw [Nat.add_sub_cancel' (not_lt.mp hsmall)]
      exact wrap_of_lt hsize
    simp only [run_bind, run_modify, hwhole, recvBuffers, run_act, ne_eq, not_true_eq_false,
      if_false, splitFirst]
  · rw [if_neg (not_le.mpr hshort)]
  · rw [if_pos (not_lt.mp hshort)]
    change (run (computed (parseWrite (input.take h.size))) (Side.mk 0 (input.drop h.size))).1 = _
    generalize parseWrite (input.take h.size) = result
    cases result <;> rfl

section RoundTrip

variable {req : WriteRequest}

theorem readRefcount_bytes {rc : Refcount} (h : rc.stripeId < 2 ^ 64 ∧ rc.count < 2 ^ 64) :
    readRefcount (le 8 rc.stripeId ++ le 8 rc.count) = rc := by
  rw [readRefcount, take_left' (length_le 8 _), drop_left' (length_le 8 _),
    ofLe_le h.1, ofLe_le h.2]

theorem spansFrom_flatten (front : List UInt8) {buffers : List (List UInt8)}
    (h : (front ++ buffers.flatten).length < 2 ^ 64) :
    ((spansFrom front.length (buffers.map length)).map fun span =>
      ((front ++ buffers.flatten).drop span.1).take span.2) = buffers := by
  induction buffers generalizing front with
  | nil => rfl
  | cons first buffers ih =>
    rw [flatten_cons] at h ⊢
    have hlen : wrap 64 (front.length + first.length) = (front ++ first).length := by
      rw [length_append]
      apply wrap_of_lt
      rw [length_append, length_append] at h
      omega
    rw [map_cons, spansFrom, map_cons, drop_left, take_left, hlen,
      ← append_assoc, ih (front ++ first) (by rwa [append_assoc])]

theorem length_sizes (buffers : List (List UInt8)) :
    ((buffers.map length).flatMap (le 8)).length = 8 * buffers.length := by
  simp [length_flatMap, Function.comp_def, mul_comm]

theorem drop_payload : req.payload.drop 32 = refcountBytes req.refcounts ++
    ((req.buffers.map length).flatMap (le 8) ++ req.buffers.flatten) := by
  simp [WriteRequest.payload, allocationBytes, drop_append, drop_of_length_le]

theorem numRefcounts_payload (h : req.Sized) : numRefcounts req.payload = req.refcounts.length := by
  have hlt : req.refcounts.length < 256 ^ 8 := by
    apply lt_of_le_of_lt h.numRefcounts
    decide
  rw [numRefcounts, ← ofLe_le hlt]
  simp [WriteRequest.payload, allocationBytes, drop_append, drop_of_length_le]

theorem numBuffers_payload (h : req.Sized) : numBuffers req.payload = req.buffers.length := by
  have hlt : req.buffers.length < 256 ^ 8 := by
    apply lt_of_le_of_lt h.numBuffers
    decide
  rw [numBuffers, ← ofLe_le hlt]
  simp [WriteRequest.payload, allocationBytes, drop_append, drop_of_length_le]

theorem refcountsSize_payload (h : req.Sized) :
    refcountsSize req.payload = (refcountBytes req.refcounts).length := by
  have hlt : req.refcounts.length * 16 < 2 ^ 64 := by
    have hmax : maxElements = 576460752303423487 := rfl
    have hcount := h.numRefcounts
    omega
  rw [refcountsSize, numRefcounts_payload h, wrap_of_lt hlt, length_refcountBytes]

theorem bufferSizes_payload (h : req.Sized) :
    bufferSizes req.payload = req.buffers.map length := by
  have hsizes : ∀ n ∈ req.buffers.map length, ofLe (le 8 n) = n := by
    intro n hn
    obtain ⟨buffer, hbuf, rfl⟩ := mem_map.mp hn
    apply ofLe_le
    apply lt_of_le_of_lt _ h.payload
    calc buffer.length ≤ req.buffers.flatten.length := (sublist_flatten_of_mem hbuf).length_le
      _ ≤ req.payload.length := by
        simp only [WriteRequest.payload, length_append]
        omega
  rw [bufferSizes, refcountsSize_payload h, drop_payload, drop_left, numBuffers_payload h,
    ← length_map length]
  exact table_append (length_le 8) hsizes _

theorem allocation_payload (h : req.Sized) :
    (⟨ofLe (req.payload.take 8), ofLe ((req.payload.drop 8).take 8)⟩ : Allocation) =
      req.allocation := by
  have hoff := ofLe_le (w := 8) h.allocation.1
  have hsize := ofLe_le (w := 8) h.allocation.2
  simp [WriteRequest.payload, allocationBytes, hoff, hsize]

theorem parseWrite_payload (h : req.Sized) :
    ∃ store, parseWrite req.payload = .ok store ∧ store.request = req := by
  have hlen : (req.payload.drop 32).length < 2 ^ 64 := by
    rw [length_drop]
    exact (Nat.sub_le _ _).trans_lt h.payload
  have hcount : (refcountBytes req.refcounts).length / 16 = req.refcounts.length := by
    rw [length_refcountBytes, Nat.mul_div_cancel _ (by decide)]
  have hsizes := length_sizes req.buffers
  simp only [parseWrite, refcountsSize_payload h, numBuffers_payload h, bufferSizes_payload h, hcount,
    not_lt.mpr h.numRefcounts, not_lt.mpr h.numBuffers, if_false]
  rw [drop_payload] at hlen ⊢
  have htables : (refcountBytes req.refcounts).length + 8 * req.buffers.length =
      (refcountBytes req.refcounts ++ (req.buffers.map length).flatMap (le 8)).length := by
    rw [length_append, hsizes]
  rw [if_neg (by rw [length_append]; omega), if_neg (by simp only [length_append]; omega)]
  refine ⟨_, rfl, ?_⟩
  simp only [WriteStore.request, htables]
  rw [← append_assoc] at hlen ⊢
  rw [spansFrom_flatten _ hlen, append_assoc, allocation_payload h]
  congr 1
  apply table_append
  · intro rc
    rw [length_append, length_le, length_le]
  · exact fun rc hrc => readRefcount_bytes (h.refcounts rc hrc)

end RoundTrip

/-- A reference count and a buffer. -/
def smallWrite : WriteRequest := ⟨⟨4096, 2⟩, [⟨3, 1⟩], [[7, 8]]⟩

theorem smallWrite_sized : smallWrite.Sized :=
  ⟨by decide, by decide, by decide, by decide, by decide⟩

/-- No reference counts and one buffer, of which only the size is sent. -/
def cutWrite : List UInt8 :=
  le 8 4096 ++ le 8 100 ++ le 8 0 ++ le 8 1 ++ le 8 100

end UhCore.Network
