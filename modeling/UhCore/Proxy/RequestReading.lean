import UhCore.Proxy.Handler

/-!
What the proxy hands on of a request. Reading hands out the bytes of the stream
in order, and consuming passes what was handed out to the server, so the server
gets the bytes of the request as they are.
-/

namespace UhCore.Proxy

open Entrypoint (Text Failure)
open Entrypoint.Http SocketStream
open Effects Bytes

/-- All bytes of the stream that were not consumed. -/
def contents (s : SocketStream) : Text := window s.memory 0 s.putPtr ++ s.incoming

theorem handed_append_unread (s : SocketStream) : handed s ++ s.unread = contents s := by
  unfold handed contents unread current
  have hwin := window_append s.memory 0 s.getPtr (s.putPtr - s.getPtr)
  rw [Nat.add_sub_cancel' s.get_le_put, zero_add] at hwin
  rw [hwin, List.append_assoc]

/-- The computation consumes nothing. -/
def Keeps {α : Type} (m : Effect SocketStream Thrown α) : Prop :=
  ∀ s, contents (run m s).2 = contents s

section Keeps

variable {α β : Type}

theorem keeps_pure (a : α) : Keeps (pure a : Effect SocketStream Thrown α) := fun _ => rfl

theorem keeps_throw (e : Thrown) : Keeps (throw e : Effect SocketStream Thrown α) := fun _ => rfl

theorem keeps_get : Keeps (get : Effect SocketStream Thrown SocketStream) := fun _ => rfl

theorem keeps_orThrow (x : Except Exn α) : Keeps (orThrow x) := by
  cases x <;> exact fun _ => rfl

theorem Keeps.bind {m : Effect SocketStream Thrown α} {f : α → Effect SocketStream Thrown β}
    (hm : Keeps m) (hf : ∀ a, Keeps (f a)) : Keeps (m >>= f) := by
  intro s
  have hfirst := hm s
  rw [run_bind]
  rcases h : run m s with ⟨r, mid⟩
  rw [h] at hfirst
  cases r with
  | ok a => exact (hf a mid).trans hfirst
  | error e => exact hfirst

theorem Keeps.ite {p : Prop} [Decidable p] {m m' : Effect SocketStream Thrown α} (hm : Keeps m)
    (hm' : Keeps m') : Keeps (if p then m else m') := by
  split
  · exact hm
  · exact hm'

theorem keeps_take (count : Nat) : Keeps (take count) := fun _ => rfl

theorem keeps_fill : Keeps fill := by
  intro s
  unfold SocketStream.fill
  rw [attempt, run_act]
  by_cases hfull : s.bufferSize = s.putPtr
  · simp [hfull]
  · by_cases hin : s.incoming = []
    · simp [hfull, hin]
    · have hlen : (s.incoming.take s.arriving).length = s.arriving := by
        rw [List.length_take, min_eq_left s.arriving_le_incoming]
      have hwin := window_splice_end s.memory 0 s.putPtr (s.incoming.take s.arriving)
      rw [hlen, zero_add] at hwin
      simp only [hfull, hin, if_false, contents, hwin, List.append_assoc, List.take_append_drop]

theorem keeps_read (count : Nat) : Keeps (SocketStream.read count) := by
  exact (keeps_get.bind fun _ => keeps_fill.ite (keeps_pure ())).bind fun _ => keeps_take count

theorem keeps_readUntilLoop (delimiter : Text) (n : Nat) :
    Keeps (readUntilLoop delimiter n) := by
  induction n with
  | zero => exact keeps_pure []
  | succ n ih =>
    refine keeps_get.bind fun s => ?_
    split
    · exact keeps_take _
    · exact keeps_fill.bind fun _ => keeps_get.bind fun filled => ih.ite (keeps_pure [])

theorem keeps_readUntil (delimiter : Text) : Keeps (readUntil delimiter) :=
  keeps_get.bind fun s => keeps_readUntilLoop delimiter (s.bufferSize + 1)

theorem keeps_readRawRequest (services : Services) : Keeps services.readRawRequest := by
  refine (keeps_readUntil _).bind fun buffer => ?_
  split
  · exact keeps_throw _
  · exact keeps_orThrow _

theorem keeps_chunkedRead {σ : Type} (hooks : Hooks σ) (count : Nat) (body : ChunkedBody σ) :
    Keeps (body.read hooks count) := by
  have hnewline : Keeps readNewline :=
    keeps_get.bind fun _ => (keeps_read 2).bind fun _ => keeps_get.bind fun _ =>
      (keeps_throw _).ite (keeps_pure ())
  have hdata : ∀ body : ChunkedBody σ, Keeps (body.readData hooks count) := by
    intro body
    refine (keeps_read _).bind fun data => ?_
    exact ((keeps_orThrow _).bind fun _ => hnewline.bind fun _ => keeps_pure _).ite (keeps_pure _)
  have hend : ∀ body : ChunkedBody σ, Keeps (body.readEnd hooks) := fun body =>
    (keeps_orThrow _).bind fun _ => (keeps_readUntil _).bind fun _ => keeps_pure _
  have hhead : Keeps readChunkHeader := (keeps_readUntil crlf).bind fun _ => keeps_orThrow _
  refine (keeps_pure _).ite (Keeps.ite ?_ (hdata _))
  exact hhead.bind fun header => (hend _).ite (hdata _)

theorem keeps_bodyRead (crypto : Crypto) (count : Nat) (body : BodyState) :
    Keeps (body.read crypto count) := by
  cases body with
  | string size rest => exact keeps_pure _
  | raw length =>
    exact ((keeps_read _).bind fun _ => keeps_pure _).bind fun _ => keeps_pure _
  | rawSha256 length signature hashed =>
    refine ((keeps_read _).bind fun _ => keeps_pure _).bind fun read => ?_
    exact (keeps_throw _).ite (keeps_pure _)
  | chunked body => exact (keeps_chunkedRead _ count body).bind fun _ => keeps_pure _
  | chunkSha256 body => exact (keeps_chunkedRead _ count body).bind fun _ => keeps_pure _

end Keeps

section Drain

/-- The loop of `drainLoop`, on the stream alone. -/
def drainStream (crypto : Crypto) (count : Nat) :
    Nat → BodyState → Effect SocketStream Thrown Unit
  | 0, _ => pure ()
  | n + 1, body => do
    let (data, body) ← body.read crypto count
    consume
    if data = [] then pure () else drainStream crypto count n body

def readBody (crypto : Crypto) (body : BodyState) : Effect SocketStream Thrown Unit := do
  let s ← get
  drainStream crypto s.bufferSize (s.unread.length + 1) body

def consumed (s : SocketStream) : SocketStream := (run consume s).2

variable (s : SocketStream)

theorem returns_consumed : Returns consume s () (consumed s) := rfl

theorem handed_of_getPtr {s : SocketStream} (h : s.getPtr = 0) : handed s = [] := by
  unfold handed
  rw [h]
  rfl

theorem handed_consumed : handed (consumed s) = [] :=
  handed_of_getPtr (returns_consume (returns_consumed s)).2.1

theorem contents_consumed : contents (consumed s) = s.unread := by
  rw [← handed_append_unread, handed_consumed,
    (returns_consume (returns_consumed s)).1]
  rfl

/-- What was handed out on the way to `s'` went to the server, or nowhere. -/
structure Passed (c : Connection) (s' : SocketStream) (forwarded : Text) : Prop where
  forwarding : c.forwarding = true → forwarded ++ contents s' = c.forwarded ++ contents c.incoming
  deleting : c.forwarding = false → forwarded = c.forwarded

/-- The connection behind a read of the client. -/
def Connection.at (c : Connection) (s : SocketStream) (forwarded : Text) : Connection :=
  { c with incoming := s, forwarded := forwarded }

theorem Connection.passed_consume (c : Connection) {s : SocketStream}
    (hs : contents s = contents c.incoming) :
    ∃ forwarded, (c.at s c.forwarded).consume = c.at (consumed s) forwarded ∧
      Passed c (consumed s) forwarded := by
  refine ⟨if c.forwarding then c.forwarded ++ handed s else c.forwarded, rfl, ?_, ?_⟩
  · intro hforwarding
    rw [hforwarding, if_pos rfl, contents_consumed, List.append_assoc, handed_append_unread, hs]
  · intro hdeleting
    rw [hdeleting]
    rfl

theorem Passed.trans {c : Connection} {s₁ s₂ : SocketStream} {forwarded₁ forwarded₂ : Text}
    (h₁ : Passed c s₁ forwarded₁) (h₂ : Passed (c.at s₁ forwarded₁) s₂ forwarded₂) :
    Passed c s₂ forwarded₂ where
  forwarding h := (h₂.forwarding h).trans (h₁.forwarding h)
  deleting h := (h₂.deleting h).trans (h₁.deleting h)

namespace Round

variable {σ : Type} {setup : Setup σ} {w : Round σ} {α : Type}

variable {s : SocketStream} {body : BodyState} {m : Effect SocketStream Thrown α} {e : Thrown}
  {count n : Nat}

theorem returns_onStream {a : α} (h : Returns m w.connection.incoming a s) :
    Returns (onStream m) w a
      { w with connection := w.connection.at s w.connection.forwarded } := by
  unfold Returns onStream
  rw [run_act, h]
  rfl

theorem throws_onStream (h : Throws m w.connection.incoming e s) : Throws (onStream m) w (.thrown e)
      { w with connection := w.connection.at s w.connection.forwarded } := by
  unfold Throws onStream
  rw [run_act, h]
  rfl

theorem returns_consume (hs : contents s = contents w.connection.incoming) : ∃ forwarded,
      Returns consume { w with connection := w.connection.at s w.connection.forwarded } ()
        { w with connection := w.connection.at (consumed s) forwarded } ∧
      Passed w.connection (consumed s) forwarded := by
  obtain ⟨forwarded, hconsu, hpass⟩ := w.connection.passed_consume hs
  refine ⟨forwarded, returns_modify.mpr ?_, hpass⟩
  rw [hconsu]

/-- A body that the loop reads on the stream alone is read by the loop of the
round, and what is handed out on the way goes to the server, or nowhere. -/
theorem returns_drainLoop
    (h : Returns (drainStream setup.services.crypto count n body) w.connection.incoming () s) :
    ∃ forwarded, Returns (drainLoop setup count n body) w ()
        { w with connection := w.connection.at s forwarded } ∧
      Passed w.connection s forwarded ∧
      (handed w.connection.incoming = [] ∨ 0 < n → handed s = []) := by
  induction n generalizing w body with
  | zero =>
    obtain ⟨-, rfl⟩ := returns_pure.mp h
    refine ⟨w.connection.forwarded, rfl, ⟨fun _ => rfl, fun _ => rfl⟩, ?_⟩
    exact fun hhanded => hhanded.resolve_right (lt_irrefl 0)
  | succ n ih =>
    obtain ⟨⟨data, body'⟩, s₁, hread, hrest⟩ := returns_bind.mp h
    obtain ⟨_, s₂, hconsu, hrest⟩ := returns_bind.mp hrest
    obtain rfl : consumed s₁ = s₂ := (Prod.mk.inj hconsu).2
    have hconts : contents s₁ = contents w.connection.incoming := by
      have hkeeps := keeps_bodyRead setup.services.crypto count body w.connection.incoming
      rwa [hread] at hkeeps
    obtain ⟨forwarded₁, hret, hpass⟩ := returns_consume hconts
    by_cases hdata : data = []
    · rw [if_pos hdata] at hrest
      obtain ⟨-, rfl⟩ := returns_pure.mp hrest
      refine ⟨forwarded₁, ?_, hpass, fun _ => handed_consumed s₁⟩
      apply Returns.bind (returns_onStream hread)
      apply hret.bind
      rw [if_pos hdata]
      exact rfl
    · rw [if_neg hdata] at hrest
      obtain ⟨forwarded₂, hloop, hpass₂, hhanded⟩ := ih
        (w := { w with connection := w.connection.at (consumed s₁) forwarded₁ }) hrest
      refine ⟨forwarded₂, ?_, hpass.trans hpass₂,
        fun _ => hhanded (.inl (handed_consumed s₁))⟩
      apply Returns.bind (returns_onStream hread)
      apply hret.bind
      rw [if_neg hdata]
      exact hloop

theorem throws_drainLoop
    (h : Throws (drainStream setup.services.crypto count n body) w.connection.incoming e s) :
    ∃ c, Throws (drainLoop setup count n body) w (.thrown e) { w with connection := c } := by
  induction n generalizing w body with
  | zero => exact absurd h throws_pure
  | succ n ih =>
    rcases throws_bind.mp h with hread | ⟨⟨data, body'⟩, s₁, hread, hrest⟩
    · exact ⟨_, throws_bind.mpr (.inl (throws_onStream hread))⟩
    · rcases throws_bind.mp hrest with hconsu | ⟨_, s₂, hconsu, hrest⟩
      · exact absurd hconsu not_throws_consume
      · obtain rfl : consumed s₁ = s₂ := (Prod.mk.inj hconsu).2
        have hconts : contents s₁ = contents w.connection.incoming := by
          have hkeeps := keeps_bodyRead setup.services.crypto count body w.connection.incoming
          rwa [hread] at hkeeps
        obtain ⟨forwarded₁, hret, _⟩ := returns_consume hconts
        by_cases hdata : data = []
        · rw [if_pos hdata] at hrest
          exact absurd hrest throws_pure
        · rw [if_neg hdata] at hrest
          obtain ⟨c, hloop⟩ := ih
            (w := { w with connection := w.connection.at (consumed s₁) forwarded₁ }) hrest
          refine ⟨c, throws_bind.mpr (.inr ⟨_, _, returns_onStream hread, ?_⟩)⟩
          refine throws_bind.mpr (.inr ⟨(), _, hret, ?_⟩)
          rw [if_neg hdata]
          exact hloop

theorem returns_drain (h : Returns (readBody setup.services.crypto body) w.connection.incoming () s)
    : ∃ forwarded, Returns (drain setup body) w ()
        { w with connection := w.connection.at s forwarded } ∧
      Passed w.connection s forwarded ∧ handed s = [] := by
  obtain ⟨forwarded, hret, hpass, hhanded⟩ := returns_drainLoop (returns_get_bind.mp h)
  exact ⟨forwarded, returns_get_bind.mpr hret, hpass, hhanded (.inr (Nat.succ_pos _))⟩

theorem throws_drain (h : Throws (readBody setup.services.crypto body) w.connection.incoming e s) :
    ∃ c, Throws (drain setup body) w (.thrown e) { w with connection := c } := by
  obtain ⟨c, hthrows⟩ := throws_drainLoop (throws_get_bind.mp h)
  exact ⟨c, throws_get_bind.mpr hthrows⟩

end Round

end Drain

end UhCore.Proxy
