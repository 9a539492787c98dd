import UhCore.Entrypoint.ChunkedBody

/-!
The format of a body in chunks and the ways to read it. `Framed` reads the
chunks off the bytes of a stream, without buffers; a reading of the body goes
through the buffer in pieces of any size.
-/

namespace UhCore.Entrypoint.Http

open Effects Delimited List SocketStream ChunkHeader

section Format

structure Frame where
  header : ChunkHeader
  content : Text

/-- What follows a chunk, without the line end; a reader may have seen only a
part of it. -/
def dropNewline : Text → Text
  | '\r' :: '\n' :: rest => rest
  | '\r' :: rest => rest
  | rest => rest

/-- A stream starts with these chunks and the header of an empty one. -/
inductive Framed : Text → List Frame → ChunkHeader → Prop where
  | last {stream line rest : Text} {header : ChunkHeader}
      (hline : upTo crlf stream = some (line, rest))
      (hheader : parse line = .ok header) (hsize : header.size = 0) :
      Framed stream [] header
  | chunk {stream line content rest : Text} {header last : ChunkHeader} {frames : List Frame}
      (hline : upTo crlf stream = some (line, content ++ rest))
      (hheader : parse line = .ok header) (hsize : header.size = content.length)
      (hcontent : content ≠ []) (hrest : Framed (dropNewline rest) frames last) :
      Framed stream (⟨header, content⟩ :: frames) last

/-- A chunk of the stream has a header that ends where the buffer ends, when
the first one is read from position `pos` and the others from its start. -/
inductive Overfull (size : Nat) : Nat → Text → Prop where
  | here {pos : Nat} {stream line rest : Text} {header : ChunkHeader}
      (hline : upTo crlf stream = some (line, rest))
      (hheader : parse line = .ok header) (hsize : header.size ≠ 0)
      (hfull : pos + line.length = size) : Overfull size pos stream
  | later {pos : Nat} {stream line content rest : Text} {header : ChunkHeader}
      (hline : upTo crlf stream = some (line, content ++ rest))
      (hheader : parse line = .ok header) (hsize : header.size = content.length)
      (hcontent : content ≠ []) (hrest : Overfull size 0 (dropNewline rest)) :
      Overfull size pos stream

theorem fromChars_cons {s : Text} {r : Nat × Nat} (h : fromChars s = .ok r) :
    ∃ c rest, s = c :: rest ∧ (hexDigit c).isSome := by
  cases s with
  | nil => simp [fromChars] at h
  | cons c rest =>
    refine ⟨c, rest, rfl, ?_⟩
    by_contra hdigit
    simp [fromChars, hdigit] at h

variable {line stream rest : Text} {header : ChunkHeader}

theorem ChunkHeader.parse_cons (h : parse line = .ok header) :
    ∃ c rest, line = c :: rest ∧ (hexDigit c).isSome := by
  cases hchars : fromChars line.dropLast with
  | error e =>
    unfold parse at h
    rw [hchars] at h
    split at h <;> simp [bind, Except.bind] at h
  | ok r =>
    obtain ⟨c, rest, hline, hdigit⟩ := fromChars_cons hchars
    cases line with
    | nil => simp at hline
    | cons d tail =>
      cases tail with
      | nil => simp at hline
      | cons d' tail' =>
        exact ⟨d, d' :: tail', rfl, by rw [(cons.inj hline).1]; exact hdigit⟩

/-- Where a header can be read, the stream does not start with a line end. -/
theorem dropNewline_append {newline : Text} (hnewline : newline <+: crlf)
    (hline : upTo crlf stream = some (line, rest)) (hhead : parse line = .ok header) :
    dropNewline (newline ++ stream) = stream := by
  obtain ⟨c, tail, rfl, hdigit⟩ := parse_cons hhead
  have hcr : c ≠ '\r' := by rintro rfl; simp [hexDigit] at hdigit
  have hlf : c ≠ '\n' := by rintro rfl; simp [hexDigit] at hdigit
  have hnewlines : newline = [] ∨ newline = ['\r'] ∨ newline = crlf := by
    rcases prefix_cons_iff.mp hnewline with rfl | ⟨t, rfl, ht⟩
    · exact .inl rfl
    · rcases prefix_cons_iff.mp ht with rfl | ⟨t', rfl, ht'⟩
      · exact .inr (.inl rfl)
      · rw [prefix_nil.mp ht']
        exact .inr (.inr rfl)
  rw [(upTo_eq_some hline).1]
  rcases hnewlines with rfl | rfl | rfl <;> simp [dropNewline, crlf, hcr, hlf]
theorem not_overfull_last {size pos : Nat} (hline : upTo crlf stream = some (line, rest))
    (hhead : parse line = .ok header) (hsize : header.size = 0) : ¬ Overfull size pos stream := by
  intro hover
  cases hover with
  | here hline' hhead' hsize' _ =>
    obtain ⟨rfl, _⟩ := Prod.mk.inj (Option.some.inj (hline.symm.trans hline'))
    obtain rfl := Except.ok.inj (hhead.symm.trans hhead')
    exact hsize' hsize
  | later hline' hhead' hsize' hcont _ =>
    obtain ⟨rfl, _⟩ := Prod.mk.inj (Option.some.inj (hline.symm.trans hline'))
    obtain rfl := Except.ok.inj (hhead.symm.trans hhead')
    exact hcont (eq_nil_of_length_eq_zero (by omega))

end Format

section Reading

variable {σ : Type} {hooks : Hooks σ} {s s' : SocketStream}

/-- The body is read piece by piece, in reads of any sizes, until one returns
nothing or throws; what was read is consumed before the next read. -/
inductive Reading (hooks : Hooks σ) :
    ChunkedBody σ → SocketStream → List Text → Except Thrown Unit → Prop where
  | ended {body body' : ChunkedBody σ} {s s' : SocketStream} {count : Nat} (hcount : 0 < count)
      (hread : Returns (body.read hooks count) s ([], body') s') : Reading hooks body s [] (.ok ())
  | failed {body : ChunkedBody σ} {s s' : SocketStream} {count : Nat} {e : Thrown}
      (hcount : 0 < count) (hread : Throws (body.read hooks count) s e s') :
      Reading hooks body s [] (.error e)
  | more {body body' : ChunkedBody σ} {s s₁ s₂ : SocketStream} {count : Nat} {data : Text}
      {pieces : List Text} {result : Except Thrown Unit} (hcount : 0 < count)
      (hread : Returns (body.read hooks count) s (data, body') s₁) (hdata : data ≠ [])
      (hconsume : Returns consume s₁ () s₂)
      (hrest : Reading hooks body' s₂ pieces result) : Reading hooks body s (data :: pieces) result

theorem returns_orThrow {α : Type} {x : Except Exn α} {a : α} (h : Returns (orThrow x) s a s') :
    x = .ok a ∧ s' = s := by
  obtain ⟨hx, hs⟩ := returns_computed.mp h
  cases x with
  | error e => simp [Except.mapError] at hx
  | ok b => exact ⟨congrArg Except.ok (Except.ok.inj hx), hs.symm⟩

theorem returns_readNewline {u : Unit} (h : Returns readNewline s u s') :
    ∃ newline, newline <+: crlf ∧ SocketStream.Advance s newline s' := by
  unfold readNewline at h
  rw [returns_get_bind] at h
  obtain ⟨newline, mid, hread, hcheck⟩ := returns_bind.mp h
  rw [returns_get_bind] at hcheck
  obtain ⟨hadv, hlen, _, hwin⟩ := returns_read hread
  split at hcheck
  case isTrue => exact absurd hcheck returns_throw
  case isFalse hbytes =>
    obtain ⟨_, rfl⟩ := returns_pure.mp hcheck
    obtain ⟨hcr, hlf⟩ := not_or.mp hbytes
    have hall : Bytes.window mid.memory s.getPtr 2 = crlf := by
      simp [Bytes.window, List.range_succ, crlf, not_not.mp hcr, not_not.mp hlf]
    refine ⟨newline, ?_, hadv⟩
    rw [hwin, ← hall, ← Bytes.take_window _ _ hlen]
    exact take_prefix _ _

theorem returns_readChunkHeader {header : ChunkHeader} (h : Returns readChunkHeader s header s') :
    ∃ line rest, upTo crlf s.unread = some (line, rest) ∧ parse line = .ok header ∧
      SocketStream.Advance s line s' := by
  obtain ⟨line, mid, hread, hthrow⟩ := returns_bind.mp h
  obtain ⟨hparse, rfl⟩ := returns_orThrow hthrow
  obtain ⟨hadv, ⟨rest, hline⟩ | ⟨rfl, _⟩⟩ := returns_readUntil hread
  · exact ⟨line, rest, hline, hparse, hadv⟩
  · exact absurd (parse_cons hparse) (by simp)

variable {body body' : ChunkedBody σ} {count : Nat} {data : Text}

/-- What a read within a chunk does. It returns nothing only when the buffer has
neither data nor space. -/
theorem returns_readData (hcount : 0 < count) (hleft : body.chunkBytesLeft ≠ 0)
    (h : Returns (body.readData hooks count) s (data, body') s') :
    (data = [] → s.getPtr = s.bufferSize) ∧ s.getPtr + data.length ≤ s.bufferSize ∧
    ((data.length < body.chunkBytesLeft ∧ SocketStream.Advance s data s' ∧
        body' = { body with
          chunkBytesLeft := body.chunkBytesLeft - data.length
          state := hooks.onChunkData data body.state }) ∨
      ∃ state newline, data.length = body.chunkBytesLeft ∧
        hooks.onChunkDone (hooks.onChunkData data body.state) = .ok state ∧
        newline <+: crlf ∧ SocketStream.Advance s (data ++ newline) s' ∧
        body' = { body with chunkBytesLeft := 0, state := state }) := by
  obtain ⟨read, mid, hread, hrest⟩ := returns_bind.mp h
  obtain ⟨hadv, hlen, hempty, _⟩ := returns_read hread
  have hnone : read = [] → s.getPtr = s.bufferSize := by
    intro hread
    rcases hempty hread with hzero | hfull
    · omega
    · exact hfull
  have hroom : s.getPtr + read.length ≤ s.bufferSize := by
    rw [← hadv.getPtr, ← hadv.bufferSize]
    exact mid.get_le_put.trans mid.put_le_size
  dsimp only at hrest
  split at hrest
  case isTrue hall =>
    obtain ⟨state, _, hthrow, hafter⟩ := returns_bind.mp hrest
    obtain ⟨hdone, rfl⟩ := returns_orThrow hthrow
    obtain ⟨_, _, hnewline, hpure⟩ := returns_bind.mp hafter
    obtain ⟨hpair, rfl⟩ := returns_pure.mp hpure
    cases hpair
    obtain ⟨newline, hcrlf, hadv'⟩ := returns_readNewline hnewline
    exact ⟨hnone, hroom, .inr ⟨state, newline, by omega, hdone, hcrlf, hadv.trans hadv', rfl⟩⟩
  case isFalse hmore =>
    obtain ⟨hpair, rfl⟩ := returns_pure.mp hrest
    cases hpair
    exact ⟨hnone, hroom, .inl ⟨by omega, hadv, rfl⟩⟩

/-- What a read between two chunks does: it reads a header, and then the end of
the body or a part of the chunk. -/
theorem returns_read_between (hended : body.ended = false) (hleft : body.chunkBytesLeft = 0)
    (h : Returns (body.read hooks count) s (data, body') s') :
    ∃ line header mid, upTo crlf s.unread = some (line, mid.unread) ∧
      parse line = .ok header ∧ SocketStream.Advance s line mid ∧
      ((header.size = 0 ∧ data = [] ∧
          ∃ state, hooks.onBodyDone (hooks.onChunkHeader header body.state) = .ok state) ∨
        header.size ≠ 0 ∧ Returns (ChunkedBody.readData hooks count { body with
          chunkBytesLeft := header.size
          state := hooks.onChunkHeader header body.state }) mid (data, body') s') := by
  unfold ChunkedBody.read at h
  rw [if_neg (by rw [hended]; exact Bool.false_ne_true), if_pos hleft] at h
  obtain ⟨header, mid, hhead, hrest⟩ := returns_bind.mp h
  obtain ⟨line, rest, hline, hparse, hadv⟩ := returns_readChunkHeader hhead
  have hunread : rest = mid.unread :=
    append_cancel_left ((upTo_eq_some hline).1.symm.trans hadv.unread)
  refine ⟨line, header, mid, hunread ▸ hline, hparse, hadv, ?_⟩
  split at hrest
  case isTrue hzero =>
    obtain ⟨state, _, hthrow, hafter⟩ := returns_bind.mp hrest
    obtain ⟨hdone, rfl⟩ := returns_orThrow hthrow
    obtain ⟨_, _, _, hpure⟩ := returns_bind.mp hafter
    obtain ⟨hpair, _⟩ := returns_pure.mp hpure
    exact .inl ⟨hzero, (Prod.mk.inj hpair).1.symm, state, hdone⟩
  case isFalse hsize => exact .inr ⟨hsize, hrest⟩

theorem unread_lt_of_read {σ : Type} {hooks : Hooks σ} {body body' : ChunkedBody σ}
    (hcount : 0 < count) (h : Returns (body.read hooks count) s (data, body') s')
    (hdata : data ≠ []) : s'.unread.length < s.unread.length := by
  have hpos := length_pos_iff.mpr hdata
  have hread : ∀ {b b' : ChunkedBody σ} {mid : SocketStream}, b.chunkBytesLeft ≠ 0 →
      Returns (b.readData hooks count) mid (data, b') s' →
      s'.unread.length < mid.unread.length := by
    intro b b' mid hleft hdata'
    obtain ⟨_, _, ⟨_, hadv, _⟩ | ⟨_, newline, _, _, _, hadv, _⟩⟩ :=
      returns_readData hcount hleft hdata'
    · have hlen := hadv.length
      omega
    · have hlen := hadv.length
      rw [length_append] at hlen
      omega
  by_cases hended : body.ended
  · unfold ChunkedBody.read at h
    rw [if_pos hended] at h
    obtain ⟨hpair, _⟩ := returns_pure.mp h
    exact absurd (Prod.mk.inj hpair).1.symm hdata
  · by_cases hleft : body.chunkBytesLeft = 0
    · obtain ⟨line, header, mid, _, _, hadv, ⟨_, hnone, _⟩ | ⟨hsize, hchunk⟩⟩ :=
        returns_read_between (Bool.eq_false_iff.mpr hended) hleft h
      · exact absurd hnone hdata
      · have hlen := hadv.length
        have hless := hread hsize hchunk
        omega
    · unfold ChunkedBody.read at h
      rw [if_neg hended, if_neg hleft] at h
      exact hread hleft h

/-- Reading a body comes to an end, whatever the size of the reads is. -/
theorem exists_reading {σ : Type} (hooks : Hooks σ) (hcount : 0 < count) (body : ChunkedBody σ)
    (s : SocketStream) : ∃ pieces result, Reading hooks body s pieces result := by
  induction hn : s.unread.length using Nat.strong_induction_on generalizing body s with
  | _ n ih =>
    rcases returns_or_throws (body.read hooks count) s with ⟨⟨data, body'⟩, s₁, hread⟩ | ⟨e, s₁, hread⟩
    · by_cases hdata : data = []
      · subst hdata
        exact ⟨[], .ok (), .ended hcount hread⟩
      · rcases returns_or_throws consume s₁ with ⟨_, s₂, hconsu⟩ | ⟨e, s₂, hconsu⟩
        · have hless := unread_lt_of_read hcount hread hdata
          rw [← (returns_consume hconsu).1] at hless
          obtain ⟨pieces, result, hrest⟩ := ih s₂.unread.length (hn ▸ hless) body' s₂ rfl
          exact ⟨data :: pieces, result, .more hcount hread hdata hconsu hrest⟩
        · exact absurd hconsu not_throws_consume
    · exact ⟨[], .error e, .failed hcount hread⟩

end Reading

section Sent

/-- What ends a body in chunks, behind the header of the empty one. -/
def endOfBody (trailing : Bool) : Text := if trailing then crlf ++ crlf else crlf

/-- A body in chunks as it is sent, with `tail` behind it. -/
inductive Sent (trailing : Bool) : Text → List Frame → ChunkHeader → Text → Prop where
  | last {stream line rest ending tail : Text} {header : ChunkHeader}
      (hline : upTo crlf stream = some (line, rest))
      (hheader : parse line = .ok header) (hsize : header.size = 0)
      (hend : upTo (endOfBody trailing) rest = some (ending, tail)) :
      Sent trailing stream [] header tail
  | chunk {stream line content rest tail : Text} {header last : ChunkHeader} {frames : List Frame}
      (hline : upTo crlf stream = some (line, content ++ (crlf ++ rest)))
      (hheader : parse line = .ok header) (hsize : header.size = content.length)
      (hcontent : content ≠ []) (hrest : Sent trailing rest frames last tail) :
      Sent trailing stream (⟨header, content⟩ :: frames) last tail

variable {trailing : Bool} {stream tail line rest : Text} {frames : List Frame}
  {last header : ChunkHeader} {s : SocketStream}

theorem Sent.framed (h : Sent trailing stream frames last tail) : Framed stream frames last := by
  induction h with
  | last hline hhead hsize _ => exact .last hline hhead hsize
  | chunk hline hhead hsize hcont _ ih => exact .chunk hline hhead hsize hcont ih

theorem Sent.append (h : Sent trailing stream frames last tail) (more : Text) :
    Sent trailing (stream ++ more) frames last (tail ++ more) := by
  induction h with
  | last hline hhead hsize hend =>
    exact .last (upTo_append hline more) hhead hsize (upTo_append hend more)
  | chunk hline hhead hsize hcont _ ih =>
    have hline' := upTo_append hline more
    rw [append_assoc, append_assoc] at hline'
    exact .chunk hline' hhead hsize hcont ih

/-- The hooks throw at no chunk that is read as a whole. -/
def Hooks.Pass {σ : Type} (hooks : Hooks σ) : σ → List Frame → ChunkHeader → Prop
  | state, [], last => ∃ state', hooks.onBodyDone (hooks.onChunkHeader last state) = .ok state'
  | state, frame :: frames, last =>
    ∃ state', hooks.onChunkDone
        (hooks.onChunkData frame.content (hooks.onChunkHeader frame.header state)) = .ok state' ∧
      hooks.Pass state' frames last

theorem returns_orThrow_of_ok {α : Type} {x : Except Exn α} {a : α} (h : x = .ok a)
    (s : SocketStream) : Returns (orThrow x) s a s := by
  subst h
  exact rfl

theorem exists_readChunkHeader (hline : upTo crlf s.current = some (line, rest))
    (hhead : parse line = .ok header) :
    ∃ s', Returns readChunkHeader s header s' ∧ SocketStream.Moves s line s' := by
  obtain ⟨s', hread, hmoves⟩ := exists_readUntil hline
  exact ⟨s', hread.bind (returns_orThrow_of_ok hhead s'), hmoves⟩

theorem exists_readNewline (h : s.current = crlf ++ rest) :
    ∃ s', Returns readNewline s () s' ∧ SocketStream.Moves s crlf s' := by
  have htake : s.current.take 2 = crlf := by
    rw [h]
    rfl
  have hlen : 2 ≤ s.current.length := by
    rw [h, length_append]
    exact Nat.le_add_right _ _
  obtain ⟨s', hread, hmoves, hmemo⟩ := exists_read hlen
  rw [htake] at hread hmoves
  rw [take_current, min_eq_left (by rwa [length_current] at hlen)]
    at htake
  refine ⟨s', ?_, hmoves⟩
  unfold readNewline
  apply hread.bind
  rw [returns_get_bind, hmemo, if_neg]
  · exact rfl
  · simpa [Bytes.window, List.range_succ, crlf] using htake

variable {σ : Type} {hooks : Hooks σ}

variable {body : ChunkedBody σ} {count : Nat}

theorem exists_read_last (hended : body.ended = false) (hleft : body.chunkBytesLeft = 0)
    (hsent : Sent body.trailing s.current [] last tail) (hpass : hooks.Pass body.state [] last) :
    ∃ body' s', Returns (body.read hooks count) s ([], body') s' ∧ s'.current = tail ∧
      s'.incoming = s.incoming ∧ s'.bufferSize = s.bufferSize := by
  obtain ⟨state, hstate⟩ := hpass
  cases hsent with
  | last hline hhead hsize hend =>
    obtain ⟨mid, hread, hmoves⟩ := exists_readChunkHeader hline hhead
    have hmid := append_cancel_left ((upTo_eq_some hline).1.symm.trans hmoves.current)
    rw [hmid] at hend
    obtain ⟨s', hend', hmoves'⟩ := exists_readUntil hend
    have htail := append_cancel_left ((upTo_eq_some hend).1.symm.trans hmoves'.current)
    refine ⟨{ body with chunkBytesLeft := last.size, ended := true, state := state }, s', ?_,
      htail.symm, hmoves'.incoming.trans hmoves.incoming,
      hmoves'.bufferSize.trans hmoves.bufferSize⟩
    unfold ChunkedBody.read
    rw [if_neg (by rw [hended]; exact Bool.false_ne_true), if_pos hleft]
    apply hread.bind
    rw [if_pos hsize]
    apply Returns.bind (returns_orThrow_of_ok hstate mid)
    exact hend'.bind rfl

theorem exists_read_chunk {frame : Frame} (hcount : s.bufferSize ≤ count)
    (hended : body.ended = false) (hleft : body.chunkBytesLeft = 0)
    (hsent : Sent body.trailing s.current (frame :: frames) last tail)
    (hpass : hooks.Pass body.state (frame :: frames) last) :
    ∃ body' s', Returns (body.read hooks count) s (frame.content, body') s' ∧
      frame.content ≠ [] ∧ body'.ended = false ∧ body'.chunkBytesLeft = 0 ∧
      Sent body'.trailing s'.current frames last tail ∧ hooks.Pass body'.state frames last ∧
      s'.incoming = s.incoming ∧ s'.bufferSize = s.bufferSize := by
  obtain ⟨state, hstate, hpass'⟩ := hpass
  cases hsent with
  | @chunk _ line content rest _ header _ _ hline hhead hsize hcont hrest =>
    obtain ⟨mid, hread, hmoves⟩ := exists_readChunkHeader hline hhead
    have hmid := (append_cancel_left ((upTo_eq_some hline).1.symm.trans hmoves.current)).symm
    have hlen : content.length ≤ mid.current.length := by
      rw [hmid, length_append]
      omega
    have hcount' : min header.size count = content.length := by
      have hput := mid.put_le_size
      rw [length_current] at hlen
      rw [hmoves.bufferSize] at hput
      omega
    have htake : mid.current.take content.length = content := by rw [hmid, take_left]
    obtain ⟨mid', hdata, hmoves', _⟩ := exists_read hlen
    rw [htake] at hdata hmoves'
    have hmid' : mid'.current = crlf ++ rest := append_cancel_left (hmoves'.current.symm.trans hmid)
    obtain ⟨s', hnewline, hmoves''⟩ := exists_readNewline hmid'
    have hs' : s'.current = rest := append_cancel_left (hmoves''.current.symm.trans hmid')
    refine ⟨{ body with chunkBytesLeft := 0, state := state }, s', ?_, hcont, hended, rfl,
      hs' ▸ hrest, hpass', hmoves''.incoming.trans (hmoves'.incoming.trans hmoves.incoming),
      hmoves''.bufferSize.trans (hmoves'.bufferSize.trans hmoves.bufferSize)⟩
    unfold ChunkedBody.read
    rw [if_neg (by rw [hended]; exact Bool.false_ne_true), if_pos hleft]
    apply hread.bind
    rw [if_neg (by rw [hsize]; exact fun hzero => hcont (eq_nil_of_length_eq_zero hzero))]
    refine returns_bind.mpr ⟨content, mid', ?_, ?_⟩
    · rw [hcount']
      exact hdata
    · dsimp only
      rw [if_pos (by omega)]
      apply Returns.bind (returns_orThrow_of_ok hstate mid')
      exact hnewline.bind rfl

theorem Reading.of_full {σ : Type} {hooks : Hooks σ} {body : ChunkedBody σ}
    (hended : body.ended = false) (hleft : body.chunkBytesLeft = 0)
    (hline : upTo crlf s.current = some (line, rest)) (hhead : parse line = .ok header)
    (hsize : header.size ≠ 0) (hfull : s.getPtr + line.length = s.bufferSize) :
    Reading hooks body s [] (.ok ()) := by
  obtain ⟨mid, hread, _⟩ := exists_readChunkHeader hline hhead
  obtain ⟨line', rest', hline', _, hadv⟩ := returns_readChunkHeader hread
  obtain ⟨rfl, _⟩ := Prod.mk.inj
    (Option.some.inj (hline'.symm.trans (upTo_append hline s.incoming)))
  have hpos : mid.getPtr = mid.bufferSize := by rw [hadv.getPtr, hadv.bufferSize, hfull]
  have hdata : ∃ s', Returns (read (min header.size 1)) mid [] s' := by
    rcases returns_or_throws (read (min header.size 1)) mid with
      ⟨data, s', hdata⟩ | ⟨e, s', hdata⟩
    · obtain ⟨hadv', _⟩ := returns_read hdata
      have hget := hadv'.getPtr
      have hle := s'.get_le_put.trans s'.put_le_size
      rw [hadv'.bufferSize] at hle
      obtain rfl := eq_nil_of_length_eq_zero (by omega : data.length = 0)
      exact ⟨s', hdata⟩
    · obtain ⟨_, _, _, hspace⟩ := throws_read hdata
      omega
  obtain ⟨s', hdata⟩ := hdata
  have hrest : Returns (body.read hooks 1) s ([], { body with
      chunkBytesLeft := header.size
      state := hooks.onChunkData [] (hooks.onChunkHeader header body.state) }) s' := by
    unfold ChunkedBody.read
    rw [if_neg (by rw [hended]; exact Bool.false_ne_true), if_pos hleft]
    apply hread.bind
    rw [if_neg hsize]
    apply hdata.bind
    rw [length_nil, Nat.sub_zero, if_neg hsize]
    exact rfl
  exact .ended Nat.one_pos hrest

end Sent

end UhCore.Entrypoint.Http
