import UhCore.Entrypoint.Command
import UhCore.Entrypoint.Http

/-!
Responses on their way through the proxy: the header as the HTTP library gives
it, what is written to the client, and the loop that takes the body from the
connection to the server, in chunks, while the one before is written.
-/

namespace UhCore.Proxy

open Entrypoint (Text Failure)
open List
open Entrypoint.Http (Field equalsNocase)

structure ResponseHeader where
  status : Nat
  reason : Text
  fields : List Field
  deriving DecidableEq

/-- What the server answers a request with. -/
structure ServerResponse where
  header : ResponseHeader
  body : Text
  deriving DecidableEq

namespace ResponseHeader

def field (h : ResponseHeader) (name : Text) : Option Text :=
  (h.fields.find? fun f => equalsNocase f.name name).map Field.value

def without (h : ResponseHeader) (name : Text) : ResponseHeader :=
  { h with fields := h.fields.filter fun f => !equalsNocase f.name name }

/-- Setting a field takes away all others of its name. -/
def set (h : ResponseHeader) (name value : Text) : ResponseHeader :=
  { h with fields := (h.without name).fields ++ [⟨name, value⟩] }

theorem without_set (h : ResponseHeader) (name value : Text) :
    (h.set name value).without name = h.without name := by
  have hself : equalsNocase name name = true := decide_eq_true rfl
  simp [without, set, hself]

end ResponseHeader

def viaName : Text := "Via".toList

/-- The response but for its `Via` fields. -/
def ServerResponse.apartFromVia (r : ServerResponse) : ServerResponse :=
  { r with header := r.header.without viaName }

/-- The result of parsing a header: the header with the bytes behind it, or
there is no end of it yet, or it is none. -/
inductive Parsed where
  | header (h : ResponseHeader) (rest : Text)
  | incomplete
  | malformed

/-- The part of the HTTP library that handles response headers. A header that
can be sent is parsed to what it was, whatever follows it. -/
structure ResponseLibrary where
  serialize : ResponseHeader → Text
  parse : Text → Parsed
  stoull : Text → Option Nat
  Sendable : ResponseHeader → Prop
  serialize_ne_nil : ∀ h, Sendable h → serialize h ≠ []
  parse_serialize : ∀ h rest, Sendable h → parse (serialize h ++ rest) = .header h rest

/-- `get_content_length` -/
def ResponseLibrary.getContentLength (lib : ResponseLibrary) (h : ResponseHeader) : Option Nat :=
  (h.field "Content-Length".toList).bind lib.stoull

/-- What is written to a client. -/
inductive Output where
  | interim (h : ResponseHeader)
  | header (h : ResponseHeader)
  | data (text : Text)
  | error (failure : Failure)
  deriving DecidableEq

/-- The body, if nothing but parts of it was written. -/
def bodyOf : List Output → Option Text
  | [] => some []
  | .data text :: rest => (bodyOf rest).map (text ++ ·)
  | _ => none

/-- The response, if one was written and nothing else. -/
def received : List Output → Option ServerResponse
  | .interim _ :: rest => received rest
  | .header h :: rest => (bodyOf rest).map fun body => ⟨h, body⟩
  | _ => none

theorem bodyOf_data (chunks : List Text) : bodyOf (chunks.map .data) = some chunks.flatten := by
  induction chunks with
  | nil => rfl
  | cons text chunks ih =>
    change (bodyOf (chunks.map .data)).map (text ++ ·) = _
    rw [ih]
    rfl

/-- What `async_read` takes from the connection: the chunks it writes, whether it
comes to its end or waits for more, and what is left in the buffer and behind. -/
structure Taken where
  chunks : List Text
  done : Bool
  buffer : Text
  outgoing : Text

/-- The loop over two buffers: `wbuf` is written while the other one is filled.
Every round but the last takes bytes off what remains. -/
def asyncReadLoop (chunkSize : Nat) : Nat → Text → Nat → Text → Taken
  | 0, _, _, outgoing => ⟨[], false, [], outgoing⟩
  | rounds + 1, wbuf, remained, outgoing =>
    let n := min remained chunkSize
    if outgoing.length < n then ⟨[wbuf], false, [], outgoing⟩
    else if n = 0 then ⟨[wbuf], true, [], outgoing⟩
    else
      let taken := asyncReadLoop chunkSize rounds (outgoing.take n) (remained - n) (outgoing.drop n)
      { taken with chunks := wbuf :: taken.chunks }

/-- `async_read`. A buffer that already has a chunk or more is not counted as a
part of the payload. -/
def asyncRead (chunkSize payloadSize : Nat) (buffer outgoing : Text) : Taken :=
  if buffer.length ≥ payloadSize then
    ⟨[buffer.take payloadSize], true, buffer.drop payloadSize, outgoing⟩
  else if payloadSize > chunkSize then
    if chunkSize > buffer.length then
      let required := chunkSize - buffer.length
      if outgoing.length < required then ⟨[], false, buffer, outgoing⟩
      else
        asyncReadLoop chunkSize (payloadSize + 1) (buffer ++ outgoing.take required)
          (payloadSize - chunkSize) (outgoing.drop required)
    else asyncReadLoop chunkSize (payloadSize + 1) buffer payloadSize outgoing
  else
    let required := payloadSize - buffer.length
    if outgoing.length < required then ⟨[], false, buffer, outgoing⟩
    else ⟨[buffer ++ outgoing.take required], true, [], outgoing.drop required⟩

/-- The payload was taken from the front of `bytes`, and the rest is left. -/
structure Taken.Whole (taken : Taken) (payloadSize : Nat) (bytes : Text) : Prop where
  done : taken.done = true
  chunks : taken.chunks.flatten = bytes.take payloadSize
  left : taken.buffer ++ taken.outgoing = bytes.drop payloadSize

variable {chunkSize payloadSize : Nat} {buffer outgoing : Text}

theorem asyncReadLoop_whole (hchunk : 0 < chunkSize) (rounds remained : Nat) (wbuf outgoing : Text)
    (hrounds : remained < rounds) (henough : remained ≤ outgoing.length) :
    (asyncReadLoop chunkSize rounds wbuf remained outgoing).Whole (wbuf.length + remained)
      (wbuf ++ outgoing) := by
  induction rounds generalizing remained wbuf outgoing with
  | zero => exact absurd hrounds (Nat.not_lt_zero _)
  | succ rounds ih =>
    unfold asyncReadLoop
    rw [if_neg (by omega)]
    split
    case isTrue hzero =>
      obtain rfl : remained = 0 := by omega
      refine ⟨rfl, ?_, ?_⟩
      · simp
      · simp
    case isFalse hpos =>
      have hnext := ih (remained - min remained chunkSize)
        (outgoing.take (min remained chunkSize)) (outgoing.drop (min remained chunkSize))
        (by omega) (by rw [length_drop]; omega)
      rw [take_append_drop, length_take,
        min_eq_left (show min remained chunkSize ≤ outgoing.length by omega),
        Nat.add_sub_cancel' (min_le_left _ _)] at hnext
      refine ⟨hnext.done, ?_, ?_⟩
      · rw [flatten_cons, hnext.chunks, take_length_add_append]
      · rw [drop_length_add_append]
        exact hnext.left

/-- The payload is taken whole if the server has sent it and the buffer has less
than a chunk, or all of it. -/
theorem asyncRead_whole (hchunk : 0 < chunkSize)
    (henough : payloadSize ≤ (buffer ++ outgoing).length)
    (hbuf : buffer.length < chunkSize ∨ payloadSize ≤ buffer.length) :
    (asyncRead chunkSize payloadSize buffer outgoing).Whole payloadSize (buffer ++ outgoing) := by
  rw [length_append] at henough
  unfold asyncRead
  split
  case isTrue hall =>
    refine ⟨rfl, ?_, ?_⟩
    · rw [take_append_of_le_length hall]
      exact append_nil _
    · rw [drop_append_of_le_length hall]
  case isFalse hpart =>
    split
    case isTrue hlarge =>
      rw [if_pos (by omega)]
      rw [if_neg (by omega)]
      have hloop := asyncReadLoop_whole hchunk (payloadSize + 1) (payloadSize - chunkSize)
        (buffer ++ outgoing.take (chunkSize - buffer.length))
        (outgoing.drop (chunkSize - buffer.length)) (by omega) (by rw [length_drop]; omega)
      have hlen : (buffer ++ outgoing.take (chunkSize - buffer.length)).length +
          (payloadSize - chunkSize) = payloadSize := by
        rw [length_append, length_take]
        omega
      rwa [hlen, append_assoc, take_append_drop] at hloop
    case isFalse hsmall =>
      rw [if_neg (by omega)]
      have hsplit : payloadSize = buffer.length + (payloadSize - buffer.length) := by omega
      refine ⟨rfl, ?_, ?_⟩
      · rw [hsplit, take_length_add_append]
        simp
      · rw [hsplit, drop_length_add_append]
        simp

/-- The sink has the payload, and no byte behind it was taken. -/
structure Taken.Exact (taken : Taken) (payloadSize : Nat) (buffer outgoing : Text) : Prop where
  done : taken.done = true
  chunks : taken.chunks.flatten = (buffer ++ outgoing).take payloadSize
  buffered : taken.buffer = buffer.drop payloadSize
  unread : taken.outgoing = outgoing.drop (payloadSize - buffer.length)

theorem Taken.Whole.exact {taken : Taken} (h : taken.Whole payloadSize (buffer ++ outgoing))
    (hbuf : taken.buffer = buffer.drop payloadSize) : taken.Exact payloadSize buffer outgoing := by
  refine ⟨h.done, h.chunks, hbuf, ?_⟩
  have hleft := h.left
  rw [hbuf, drop_append] at hleft
  exact append_cancel_left hleft

/-- The loop leaves nothing in the buffer, and comes to its end only when the
server has sent what remains. -/
theorem asyncReadLoop_end (hchunk : 0 < chunkSize) (rounds remained : Nat) (wbuf outgoing : Text) :
    (asyncReadLoop chunkSize rounds wbuf remained outgoing).buffer = [] ∧
      ((asyncReadLoop chunkSize rounds wbuf remained outgoing).done = true →
        remained ≤ outgoing.length) := by
  fun_induction asyncReadLoop chunkSize rounds wbuf remained outgoing with
  | case1 => exact ⟨rfl, nofun⟩
  | case2 => exact ⟨rfl, nofun⟩
  | case3 rounds wbuf remained outgoing n hlen hzero => exact ⟨rfl, fun _ => by omega⟩
  | case4 rounds wbuf remained outgoing n hlen hpos taken ih =>
    refine ⟨ih.1, fun hdone => ?_⟩
    have hle := ih.2 hdone
    rw [length_drop] at hle
    omega

/-- A buffer with a chunk or more, but not the whole payload, is what the relay
goes wrong with. -/
theorem asyncRead_exact_iff {chunkSize payloadSize : Nat} (hchunk : 0 < chunkSize)
    {buffer outgoing : Text} (henough : payloadSize ≤ (buffer ++ outgoing).length) :
    (asyncRead chunkSize payloadSize buffer outgoing).Exact payloadSize buffer outgoing ↔
      buffer.length < chunkSize ∨ payloadSize ≤ buffer.length := by
  constructor
  · intro hexact
    by_contra hpart
    have hall : ¬ buffer.length ≥ payloadSize := by omega
    have hlarge : payloadSize > chunkSize := by omega
    have hloop : asyncRead chunkSize payloadSize buffer outgoing =
        asyncReadLoop chunkSize (payloadSize + 1) buffer payloadSize outgoing := by
      rw [asyncRead, if_neg hall, if_pos hlarge, if_neg (by omega)]
    rw [hloop] at hexact
    have hsent := (asyncReadLoop_end hchunk _ _ _ _).2 hexact.done
    have htaken := (asyncReadLoop_whole hchunk (payloadSize + 1) payloadSize buffer outgoing
      (Nat.lt_succ_self _) hsent).chunks
    have hlen := congrArg length (hexact.chunks.symm.trans htaken)
    rw [length_take, length_take, length_append] at hlen
    omega
  · intro hbuf
    apply (asyncRead_whole hchunk henough hbuf).exact
    unfold asyncRead
    split
    · rfl
    · rw [drop_of_length_le (by omega)]
      split
      · rw [if_pos (by omega)]
        rw [length_append] at henough
        rw [if_neg (by omega)]
        exact (asyncReadLoop_end hchunk _ _ _ _).1
      · rw [length_append] at henough
        rw [if_neg (by omega)]

theorem asyncRead_exact_sample :
    (asyncRead 2 3 ['a'] ['b', 'c', 'd']).Exact 3 ['a'] ['b', 'c', 'd'] ∧
      (asyncRead 2 3 ['a'] ['b', 'c', 'd']).outgoing = ['d'] :=
  ⟨(asyncRead_exact_iff (by decide) (by decide)).mpr (.inl (by decide)), rfl⟩

/-- With a whole chunk in the buffer the relay takes the first byte of the next
response. -/
theorem asyncRead_takes_next_response :
    (asyncRead 1 2 ['a'] ['b', 'c']).chunks.flatten = ['a', 'b', 'c'] ∧
      ¬ (asyncRead 1 2 ['a'] ['b', 'c']).Exact 2 ['a'] ['b', 'c'] := by
  refine ⟨rfl, fun h => ?_⟩
  exact absurd h.chunks (by decide)

end UhCore.Proxy
