import UhCore.Entrypoint.Command
import UhCore.Entrypoint.Http
import UhCore.Lib.Bytes
import UhCore.Lib.Delimited
import UhCore.Lib.Effects

/-!
The stream a connection is read through. A buffer of fixed size holds what came
from the socket; the bytes up to the read position were handed out and stay
until they are consumed.
-/

namespace UhCore.Entrypoint.Http

open Effects Bytes Delimited List

/-- What ends the handling of a request without a response of its own: the error
of a socket that is closed, or another exception. -/
inductive Thrown where
  | endOfFile
  | failure (failure : Failure)
  deriving DecidableEq

def Thrown.runtimeError (what : String) : Thrown := .failure (.exception (.runtimeError what))

/-- `memory` starts with the buffer and goes on behind it. The peer sends
`incoming` and closes the connection; `arrivals` says how much of it is there
each time the socket is read, all of it once the list is at its end. -/
structure SocketStream where
  bufferSize : Nat
  memory : Nat → Char
  getPtr : Nat
  putPtr : Nat
  incoming : Text
  arrivals : List Nat
  get_le_put : getPtr ≤ putPtr
  put_le_size : putPtr ≤ bufferSize

namespace SocketStream

/-- The bytes of the buffer that were not handed out. -/
def current (s : SocketStream) : Text := window s.memory s.getPtr (s.putPtr - s.getPtr)

def unread (s : SocketStream) : Text := s.current ++ s.incoming

/-- The stream of a new connection. -/
def connected (bufferSize : Nat) (memory : Nat → Char) (incoming : Text) (arrivals : List Nat) :
    SocketStream :=
  { bufferSize, memory, getPtr := 0, putPtr := 0, incoming, arrivals
    get_le_put := le_refl 0, put_le_size := Nat.zero_le bufferSize }

/-- The number of bytes the next read of the socket finds. -/
def arriving (s : SocketStream) : Nat :=
  min (min (s.bufferSize - s.putPtr) s.incoming.length)
    (max 1 (s.arrivals.headD s.incoming.length))

/-- A read of the socket into a buffer without space returns at once. -/
def fill : Effect SocketStream Thrown Unit :=
  attempt fun s =>
    if s.bufferSize = s.putPtr then .ok ((), s)
    else if s.incoming = [] then .error .endOfFile
    else .ok ((),
      { s with
        memory := splice s.memory s.putPtr (s.incoming.take s.arriving)
        putPtr := s.putPtr + s.arriving
        incoming := s.incoming.drop s.arriving
        arrivals := s.arrivals.tail
        get_le_put := Nat.le_add_right_of_le s.get_le_put
        put_le_size := by
          have hspace : s.arriving ≤ s.bufferSize - s.putPtr :=
            (min_le_left _ _).trans (min_le_left _ _)
          have hput := s.put_le_size
          omega })

/-- Hand out the next bytes of the buffer, as many as there are of `count`. -/
def take (count : Nat) : Effect SocketStream Thrown Text :=
  attempt fun s =>
    .ok (s.current.take count,
      { s with
        getPtr := s.getPtr + min count (s.putPtr - s.getPtr)
        get_le_put := by
          have hget := s.get_le_put
          omega })

/-- The socket is read at most once for a read of the stream. -/
def fillFor (count : Nat) : Effect SocketStream Thrown Unit := do
  let s ← get
  if count > s.putPtr - s.getPtr then fill else pure ()

def read (count : Nat) : Effect SocketStream Thrown Text := do
  fillFor count
  take count

def readUntilLoop (delimiter : Text) : Nat → Effect SocketStream Thrown Text
  | 0 => pure []
  | n + 1 => do
    let s ← get
    match upTo delimiter s.current with
    | some (found, _) => take found.length
    | none => do
      fill
      let filled ← get
      if filled.putPtr ≠ s.putPtr then readUntilLoop delimiter n else pure []

/-- Every round but the last adds to the buffer. -/
def readUntil (delimiter : Text) : Effect SocketStream Thrown Text := do
  let s ← get
  readUntilLoop delimiter (s.bufferSize + 1)

def consume : Effect SocketStream Thrown Unit :=
  modify fun s =>
    { s with
      memory := splice s.memory 0 s.current
      getPtr := 0
      putPtr := s.putPtr - s.getPtr
      get_le_put := Nat.zero_le _
      put_le_size := (Nat.sub_le _ _).trans s.put_le_size }

@[simp] theorem length_current (s : SocketStream) : s.current.length = s.putPtr - s.getPtr :=
  length_window _ _ _

/-- From `s` to `s'` the bytes `data` were handed out. -/
structure Advance (s : SocketStream) (data : Text) (s' : SocketStream) : Prop where
  unread : s.unread = data ++ s'.unread
  getPtr : s'.getPtr = s.getPtr + data.length
  bufferSize : s'.bufferSize = s.bufferSize

theorem Advance.refl (s : SocketStream) : Advance s [] s := ⟨rfl, rfl, rfl⟩

theorem Advance.trans {s mid s' : SocketStream} {d₁ d₂ : Text} (h₁ : Advance s d₁ mid)
    (h₂ : Advance mid d₂ s') : Advance s (d₁ ++ d₂) s' where
  unread := by rw [h₁.unread, h₂.unread, append_assoc]
  getPtr := by rw [h₂.getPtr, h₁.getPtr, length_append, add_assoc]
  bufferSize := h₂.bufferSize.trans h₁.bufferSize

variable {s s' : SocketStream} {e : Thrown} {count : Nat} {data : Text} {u : Unit}

theorem Advance.length (h : Advance s data s') :
    s.unread.length = data.length + s'.unread.length := by
  rw [h.unread, length_append]

theorem arriving_pos {s : SocketStream} (hspace : s.bufferSize ≠ s.putPtr)
    (hin : s.incoming ≠ []) : 0 < s.arriving := by
  have hlen := length_pos_iff.mpr hin
  have hput := s.put_le_size
  unfold arriving
  omega

theorem arriving_le_incoming (s : SocketStream) : s.arriving ≤ s.incoming.length :=
  (min_le_left _ _).trans (min_le_right _ _)

/-- A fill hands out nothing. It leaves the buffer as it is only when it is
full. -/
theorem returns_fill (h : Returns fill s u s') : Advance s [] s' ∧ s.putPtr ≤ s'.putPtr ∧
      (s'.putPtr = s.putPtr → s.putPtr = s.bufferSize) := by
  unfold fill at h
  rw [returns_attempt] at h
  split at h
  case isTrue hfull =>
    cases h
    exact ⟨.refl s, le_refl _, fun _ => hfull.symm⟩
  case isFalse hspace =>
    split at h
    case isTrue => simp at h
    case isFalse hin =>
      cases h
      have hpos := arriving_pos hspace hin
      have hget := s.get_le_put
      have hlen : (s.incoming.take s.arriving).length = s.arriving := by
        rw [length_take, min_eq_left s.arriving_le_incoming]
      refine ⟨⟨?_, rfl, rfl⟩, Nat.le_add_right _ _, fun hput => by dsimp at hput; omega⟩
      have hwin := window_splice_end s.memory s.getPtr (s.putPtr - s.getPtr)
        (s.incoming.take s.arriving)
      rw [hlen, Nat.add_sub_cancel' hget] at hwin
      have hrange : s.putPtr + s.arriving - s.getPtr = s.putPtr - s.getPtr + s.arriving := by omega
      simp only [unread, current, hrange, hwin, nil_append, append_assoc, take_append_drop]

theorem throws_fill (h : Throws fill s e s') :
    e = .endOfFile ∧ s' = s ∧ s.incoming = [] ∧ s.putPtr < s.bufferSize := by
  simp only [Throws, fill, attempt, run_act] at h
  split at h
  case h_1 => simp at h
  case h_2 e' hthrown =>
    obtain ⟨he, rfl⟩ := Prod.mk.inj h
    split at hthrown
    case isTrue => simp at hthrown
    case isFalse hspace =>
      split at hthrown
      case isTrue hin =>
        refine ⟨by rw [← Except.error.inj he, ← Except.error.inj hthrown], rfl, hin, ?_⟩
        exact lt_of_le_of_ne s.put_le_size (Ne.symm hspace)
      case isFalse => simp at hthrown

theorem take_current (s : SocketStream) (count : Nat) :
    s.current.take count = window s.memory s.getPtr (min count (s.putPtr - s.getPtr)) := by
  rw [take_eq_take_min, length_current, current, take_window _ _ (min_le_right _ _)]

theorem returns_take :
    Returns (take count) s data s' → Advance s data s' ∧ data = s.current.take count ∧
      s'.putPtr = s.putPtr ∧ s'.memory = s.memory := by
  intro h
  unfold take at h
  rw [returns_attempt] at h
  cases h
  have hget := s.get_le_put
  have hlen : (s.current.take count).length = min count (s.putPtr - s.getPtr) := by
    rw [length_take, length_current]
  refine ⟨⟨?_, by rw [hlen], rfl⟩, rfl, rfl, rfl⟩
  have hrange : s.putPtr - (s.getPtr + min count (s.putPtr - s.getPtr)) =
      s.putPtr - s.getPtr - min count (s.putPtr - s.getPtr) := by omega
  rw [unread, unread, ← append_assoc, take_current, current, current, hrange,
    ← window_append, Nat.add_sub_cancel' (min_le_right _ _)]

theorem not_throws_take : ¬ Throws (take count) s e s' := by
  simp [Throws, take, attempt, run_act]

/-- A read hands out the next bytes. It hands out none only when it is asked for
none or the read position is at the end of the buffer. -/
theorem returns_read (h : Returns (read count) s data s') :
    Advance s data s' ∧ data.length ≤ count ∧
      (data = [] → count = 0 ∨ s.getPtr = s.bufferSize) ∧
      data = window s'.memory s.getPtr data.length := by
  have hget := s.get_le_put
  obtain ⟨_, mid, hfill, htake⟩ := returns_bind.mp h
  unfold fillFor at hfill
  rw [returns_get_bind] at hfill
  obtain ⟨hadvance, hdata, hput, hmemo⟩ := returns_take htake
  have hlen : data.length = min count (mid.putPtr - mid.getPtr) := by
    rw [hdata, length_take, length_current]
  have hmid : Advance s [] mid ∧ (mid.putPtr - s.getPtr = 0 → count = 0 ∨ s.getPtr = s.bufferSize) := by
    split at hfill
    case isTrue hmore =>
      obtain ⟨hadv, hle, hsame⟩ := returns_fill hfill
      refine ⟨hadv, fun hnone => .inr ?_⟩
      have hputs : mid.putPtr = s.putPtr := by omega
      rw [← hsame hputs]
      omega
    case isFalse henough =>
      obtain ⟨_, rfl⟩ := returns_pure.mp hfill
      exact ⟨.refl s, fun hnone => .inl (by omega)⟩
  obtain ⟨hmid, hnone⟩ := hmid
  have hpos : mid.getPtr = s.getPtr := hmid.getPtr
  refine ⟨hmid.trans hadvance, by omega, ?_, ?_⟩
  · intro hempty
    rw [hempty, length_nil, hpos] at hlen
    by_cases hcount : count = 0
    · exact .inl hcount
    · exact hnone (by omega)
  · rw [hmemo, hlen, hdata, take_current, hpos]

theorem throws_read (h : Throws (read count) s e s') :
    e = .endOfFile ∧ s' = s ∧ s.unread.length < count ∧ s.getPtr < s.bufferSize := by
  rcases throws_bind.mp h with hfill | ⟨_, mid, _, htake⟩
  · unfold fillFor at hfill
    rw [throws_get_bind] at hfill
    split at hfill
    case isTrue hmore =>
      obtain ⟨he, hs, hin, hspace⟩ := throws_fill hfill
      refine ⟨he, hs, ?_, lt_of_le_of_lt s.get_le_put hspace⟩
      rw [unread, hin, append_nil, length_current]
      exact hmore
    case isFalse => exact absurd hfill throws_pure
  · exact absurd htake not_throws_take


section ReadUntil

variable {delimiter : Text}

/-- Where the delimiter is not among the bytes of the buffer, its first
occurrence ends behind them. -/
theorem putPtr_lt_of_upTo {s : SocketStream} {front rest : Text}
    (hnone : upTo delimiter s.current = none) (h : upTo delimiter s.unread = some (front, rest)) :
    s.putPtr < s.getPtr + front.length := by
  have hget := s.get_le_put
  by_contra hle
  have hfound := upTo_of_append h (by rw [length_current]; omega)
  rw [hnone] at hfound
  exact absurd hfound (by simp)

variable {s s' : SocketStream} {n : Nat} {data : Text}

theorem returns_readUntilLoop (hn : s.bufferSize - s.putPtr < n)
    (h : Returns (readUntilLoop delimiter n) s data s') :
    Advance s data s' ∧ ((∃ rest, upTo delimiter s.unread = some (data, rest)) ∨
      data = [] ∧ s.bufferSize ≤ s.getPtr + s.unread.length ∧
        ∀ front rest, upTo delimiter s.unread = some (front, rest) →
          s.bufferSize < s.getPtr + front.length) := by
  induction n generalizing s with
  | zero => omega
  | succ n ih =>
    unfold readUntilLoop at h
    rw [returns_get_bind] at h
    split at h
    case h_1 found rest hfound =>
      obtain ⟨hadv, hdata, _⟩ := returns_take h
      have hcur := (upTo_eq_some hfound).1
      rw [hcur, take_left] at hdata
      subst hdata
      exact ⟨hadv, .inl ⟨_, upTo_append hfound s.incoming⟩⟩
    case h_2 hnone =>
      obtain ⟨_, mid, hfill, hrest⟩ := returns_bind.mp h
      rw [returns_get_bind] at hrest
      obtain ⟨hmid, hput, hfull⟩ := returns_fill hfill
      have hsize := mid.put_le_size
      rw [hmid.bufferSize] at hsize
      split at hrest
      case isTrue hmore =>
        obtain ⟨hadv, hfound⟩ := ih (by rw [hmid.bufferSize]; omega) hrest
        have hunread : s.unread = mid.unread := hmid.unread
        rw [hunread]
        rw [hmid.getPtr, hmid.bufferSize] at hfound
        exact ⟨hmid.trans hadv, hfound⟩
      case isFalse hsame =>
        obtain ⟨rfl, rfl⟩ := returns_pure.mp hrest
        rw [← hfull (not_not.mp hsame)]
        refine ⟨hmid, .inr ⟨rfl, ?_, fun front rest hfront => putPtr_lt_of_upTo hnone hfront⟩⟩
        rw [unread, length_append, length_current]
        omega

/-- What is read ends with the first occurrence of the delimiter; nothing is
read when the buffer is full before that. -/
theorem returns_readUntil (h : Returns (readUntil delimiter) s data s') :
    Advance s data s' ∧ ((∃ rest, upTo delimiter s.unread = some (data, rest)) ∨
      data = [] ∧ s.bufferSize ≤ s.getPtr + s.unread.length ∧
        ∀ front rest, upTo delimiter s.unread = some (front, rest) →
          s.bufferSize < s.getPtr + front.length) := by
  unfold readUntil at h
  rw [returns_get_bind] at h
  exact returns_readUntilLoop (by omega) h

theorem throws_readUntilLoop {e : Thrown} (h : Throws (readUntilLoop delimiter n) s e s') :
    Advance s [] s' ∧ e = .endOfFile ∧ upTo delimiter s.unread = none := by
  induction n generalizing s with
  | zero => exact absurd h throws_pure
  | succ n ih =>
    unfold readUntilLoop at h
    rw [throws_get_bind] at h
    split at h
    case h_1 => exact absurd h not_throws_take
    case h_2 hnone =>
      rcases throws_bind.mp h with hfill | ⟨_, mid, hfill, hrest⟩
      · obtain ⟨he, rfl, hin, _⟩ := throws_fill hfill
        refine ⟨.refl _, he, ?_⟩
        rw [unread, hin, append_nil, hnone]
      · obtain ⟨hmid, _, _⟩ := returns_fill hfill
        rw [throws_get_bind] at hrest
        split at hrest
        case isTrue =>
          obtain ⟨hadv, he, hmissing⟩ := ih hrest
          have hunread : s.unread = mid.unread := hmid.unread
          rw [hunread]
          exact ⟨hmid.trans hadv, he, hmissing⟩
        case isFalse => exact absurd hrest throws_pure

theorem throws_readUntil {e : Thrown} (h : Throws (readUntil delimiter) s e s') :
    Advance s [] s' ∧ e = .endOfFile ∧ upTo delimiter s.unread = none := by
  unfold readUntil at h
  rw [throws_get_bind] at h
  exact throws_readUntilLoop h

end ReadUntil

theorem returns_consume (h : Returns consume s u s') :
    s'.unread = s.unread ∧ s'.getPtr = 0 ∧ s'.bufferSize = s.bufferSize := by
  obtain rfl := returns_modify.mp h
  refine ⟨?_, rfl, rfl⟩
  have hwin : window (splice s.memory 0 s.current) 0 (s.putPtr - s.getPtr) = s.current := by
    have happ := window_splice_end s.memory 0 0 s.current
    simpa using happ
  simp only [unread, current, Nat.sub_zero] at hwin ⊢
  rw [hwin]

theorem not_throws_consume : ¬ Throws consume s e s' := throws_modify

section Buffered

/-- From `s` to `s'` the bytes `data` of the buffer were handed out, and the
socket was not read. -/
structure Moves (s : SocketStream) (data : Text) (s' : SocketStream) : Prop where
  current : s.current = data ++ s'.current
  incoming : s'.incoming = s.incoming
  bufferSize : s'.bufferSize = s.bufferSize

theorem exists_take (s : SocketStream) (count : Nat) :
    ∃ s', Returns (take count) s (s.current.take count) s' ∧ Moves s (s.current.take count) s' ∧
      s'.memory = s.memory := by
  rcases returns_or_throws (take count) s with ⟨data, s', htake⟩ | ⟨e, s', htake⟩
  · obtain ⟨hadv, rfl, hput, hmemo⟩ := returns_take htake
    have hin : s'.incoming = s.incoming := by
      unfold take at htake
      rw [returns_attempt] at htake
      cases htake
      rfl
    refine ⟨s', htake, ⟨?_, hin, hadv.bufferSize⟩, hmemo⟩
    have hunread := hadv.unread
    rw [unread, unread, hin, ← append_assoc] at hunread
    exact append_cancel_right hunread
  · exact absurd htake not_throws_take

theorem exists_read {s : SocketStream} {count : Nat} (h : count ≤ s.current.length) :
    ∃ s', Returns (read count) s (s.current.take count) s' ∧ Moves s (s.current.take count) s' ∧
      s'.memory = s.memory := by
  obtain ⟨s', htake, hmoves⟩ := exists_take s count
  refine ⟨s', returns_bind.mpr ⟨(), s, ?_, htake⟩, hmoves⟩
  unfold fillFor
  rw [returns_get_bind, if_neg (by rw [length_current] at h; omega)]
  exact rfl

theorem exists_readUntil {s : SocketStream} {delimiter front rest : Text}
    (h : upTo delimiter s.current = some (front, rest)) :
    ∃ s', Returns (readUntil delimiter) s front s' ∧ Moves s front s' := by
  have hfront : s.current.take front.length = front := by rw [(upTo_eq_some h).1, take_left]
  obtain ⟨s', htake, hmoves, _⟩ := exists_take s front.length
  rw [hfront] at htake hmoves
  refine ⟨s', ?_, hmoves⟩
  unfold readUntil readUntilLoop
  rw [returns_get_bind, returns_get_bind, h]
  exact htake

theorem exists_consume (s : SocketStream) : ∃ s', Returns consume s () s' ∧ Moves s [] s' := by
  rcases returns_or_throws consume s with ⟨_, s', hconsu⟩ | ⟨e, s', hconsu⟩
  · refine ⟨s', hconsu, ?_⟩
    obtain ⟨hunread, _, hsize⟩ := returns_consume hconsu
    have hin : s'.incoming = s.incoming := by
      rw [← returns_modify.mp hconsu]
    rw [unread, unread, hin] at hunread
    exact ⟨(append_cancel_right hunread).symm, hin, hsize⟩
  · exact absurd hconsu not_throws_consume

/-- A stream with the bytes of `text` in a buffer of that size. -/
def buffered (text : Text) : SocketStream :=
  { bufferSize := text.length, memory := fun i => text.getD i ' ', getPtr := 0
    putPtr := text.length, incoming := [], arrivals := []
    get_le_put := Nat.zero_le _, put_le_size := le_refl _ }

theorem current_buffered (text : Text) : (buffered text).current = text := by
  apply Bytes.window_eq_of_getElem? rfl
  intro i hi
  have hlen : i < text.length := hi
  simp [buffered, hlen]

theorem unread_buffered (text : Text) : (buffered text).unread = text := by
  rw [unread, current_buffered]
  exact append_nil _

end Buffered

section AtHand

variable {delimiter : Text}

theorem upTo_nil (h : delimiter ≠ []) : upTo delimiter ([] : Text) = none := by
  unfold upTo
  rw [if_neg h]

/-- What is in the buffer, or comes with the next read of the socket when the
buffer is empty. -/
def atHand (s : SocketStream) : Text :=
  if s.current = [] then
    s.incoming.take (min s.bufferSize (max 1 (s.arrivals.headD s.incoming.length)))
  else s.current

variable {s s' : SocketStream} {u : Unit} {data : Text}

theorem putPtr_fill (h : Returns fill s u s') :
    s'.getPtr = s.getPtr ∧ s'.putPtr = s.putPtr + s.arriving := by
  unfold fill at h
  rw [returns_attempt] at h
  split at h
  case isTrue hfull =>
    cases h
    refine ⟨rfl, ?_⟩
    have hzero : s.arriving = 0 := by
      unfold arriving
      omega
    rw [hzero, add_zero]
  case isFalse =>
    split at h
    · simp at h
    · cases h
      exact ⟨rfl, rfl⟩

theorem current_le_of_readUntilLoop {n : Nat} (h : Returns (readUntilLoop delimiter n) s data s')
    (hdata : data ≠ []) : s.current.length ≤ data.length + s'.current.length := by
  induction n generalizing s with
  | zero => exact absurd (returns_pure.mp h).1.symm hdata
  | succ n ih =>
    unfold readUntilLoop at h
    rw [returns_get_bind] at h
    have hget := s.get_le_put
    split at h
    case h_1 found rest hfound =>
      obtain ⟨hadv, _, hput, _⟩ := returns_take h
      have hpos := hadv.getPtr
      simp only [length_current]
      omega
    case h_2 hnone =>
      obtain ⟨_, mid, hfill, h⟩ := returns_bind.mp h
      obtain ⟨hpos, hput⟩ := putPtr_fill hfill
      rw [returns_get_bind] at h
      split at h
      case isTrue =>
        have hmid := ih h
        rw [length_current] at hmid
        rw [length_current]
        omega
      case isFalse => exact absurd (returns_pure.mp h).1.symm hdata

theorem atHand_le_of_readUntil (hdelimiter : delimiter ≠ []) (hpos : s.getPtr = 0)
    (h : Returns (readUntil delimiter) s data s') (hdata : data ≠ []) :
    s.atHand.length ≤ data.length + s'.current.length := by
  unfold readUntil at h
  rw [returns_get_bind] at h
  unfold atHand
  split
  case isFalse => exact current_le_of_readUntilLoop h hdata
  case isTrue hempty =>
    have hput : s.putPtr = 0 := by
      have hlen := s.length_current
      rw [hempty, length_nil] at hlen
      omega
    unfold readUntilLoop at h
    rw [returns_get_bind, hempty, upTo_nil hdelimiter] at h
    obtain ⟨_, mid, hfill, h⟩ := returns_bind.mp h
    obtain ⟨hpos', hput'⟩ := putPtr_fill hfill
    rw [returns_get_bind] at h
    split at h
    case isTrue =>
      have hmid := current_le_of_readUntilLoop h hdata
      rw [length_current, hput', hpos', hpos, hput] at hmid
      rw [length_take]
      unfold arriving at hmid
      omega
    case isFalse => exact absurd (returns_pure.mp h).1.symm hdata

theorem atHand_consume (h : Returns consume s u s') : s'.atHand = s.atHand := by
  have hcur : s'.current = s.current := by
    obtain ⟨s'', h', hmoves⟩ := exists_consume s
    obtain ⟨_, rfl⟩ := Prod.mk.inj (h.symm.trans h')
    exact hmoves.current.symm
  unfold atHand
  rw [hcur]
  obtain rfl := returns_modify.mp h
  rfl

end AtHand

end SocketStream

end UhCore.Entrypoint.Http
