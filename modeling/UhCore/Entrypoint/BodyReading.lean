import UhCore.Entrypoint.Handler

/-!
What the reads of a body leave in the stream. A body of which nothing is in the
stream leaves the stream as it is; one that is read to its end leaves what
follows it, also where the last read throws.
-/

namespace UhCore.Entrypoint

open Effects Http Delimited List SocketStream

section Quiet

variable {α β : Type}

/-- The connection was not found closed, and these bytes are unread. -/
def Rests (rest : Text) (size : Nat) (result : Except Thrown α) (s : SocketStream) : Prop :=
  result ≠ .error .endOfFile ∧ s.unread = rest ∧ s.bufferSize = size

/-- The stream is not used. -/
def Quiet (m : Effect SocketStream Thrown α) : Prop :=
  ∀ s, (∃ a, Returns m s a s) ∨ ∃ failure, Throws m s (.failure failure) s

theorem quiet_pure (a : α) : Quiet (pure a : Effect SocketStream Thrown α) :=
  fun _ => .inl ⟨a, rfl⟩

theorem quiet_throw (failure : Failure) :
    Quiet (throw (.failure failure) : Effect SocketStream Thrown α) :=
  fun _ => .inr ⟨failure, rfl⟩

theorem quiet_orFail (x : Except Failure α) : Quiet (orFail x) := by
  intro s
  cases x with
  | ok a => exact .inl ⟨a, rfl⟩
  | error failure => exact .inr ⟨failure, rfl⟩

theorem quiet_orThrow (x : Except Exn α) : Quiet (orThrow x) := by
  intro s
  cases x with
  | ok a => exact .inl ⟨a, rfl⟩
  | error exn => exact .inr ⟨.exception exn, rfl⟩

theorem quiet_raise (x : Option Failure) :
    Quiet (raise (x.map .failure) : Effect SocketStream Thrown Unit) := by
  intro s
  cases x with
  | none => exact .inl ⟨(), rfl⟩
  | some failure => exact .inr ⟨failure, rfl⟩

variable {m : Effect SocketStream Thrown α} {f : α → Effect SocketStream Thrown β} {e : Thrown}

theorem Quiet.returns (h : Quiet m) {s s' : SocketStream} {a : α} (hret : Returns m s a s') :
    s' = s := by
  rcases h s with ⟨b, hb⟩ | ⟨failure, hb⟩
  · exact (Prod.mk.inj (hret.symm.trans hb)).2
  · exact absurd (Prod.mk.inj (hret.symm.trans hb)).1 (by simp)

theorem Quiet.throws (h : Quiet m) {s s' : SocketStream} (hthrows : Throws m s e s') :
    (∃ failure, e = .failure failure) ∧ s' = s := by
  rcases h s with ⟨b, hb⟩ | ⟨failure, hb⟩
  · exact absurd (Prod.mk.inj (hthrows.symm.trans hb)).1 (by simp)
  · obtain ⟨he, hs⟩ := Prod.mk.inj (hthrows.symm.trans hb)
    exact ⟨⟨failure, Except.error.inj he⟩, hs⟩

theorem Quiet.bind (hm : Quiet m) (hf : ∀ a, Quiet (f a)) : Quiet (m >>= f) := by
  intro s
  rcases hm s with ⟨a, ha⟩ | ⟨failure, hfail⟩
  · rcases hf a s with ⟨b, hb⟩ | ⟨failure, hb⟩
    · exact .inl ⟨b, ha.bind hb⟩
    · exact .inr ⟨failure, throws_bind.mpr (.inr ⟨a, s, ha, hb⟩)⟩
  · exact .inr ⟨failure, throws_bind.mpr (.inl hfail)⟩

variable {rest : Text} {size : Nat} {s : SocketStream}

theorem Rests.of_error (h : Rests rest size (.error e : Except Thrown α) s) :
    Rests rest size (.error e : Except Thrown β) s :=
  ⟨fun heq => h.1 (congrArg Except.error (Except.error.inj heq)), h.2⟩

theorem Quiet.after (h : Quiet m) (hrest : s.unread = rest) (hsize : s.bufferSize = size) :
    After m s (Rests rest size) := by
  refine .intro (fun a s' hret => ?_) fun e s' hthrows => ?_
  · rw [h.returns hret]
    exact ⟨by simp, hrest, hsize⟩
  · obtain ⟨⟨failure, rfl⟩, rfl⟩ := h.throws hthrows
    exact ⟨by simp, hrest, hsize⟩

theorem after_rests_bind (hm : After m s (Rests rest size))
    (hf : ∀ a mid, Returns m s a mid → mid.unread = rest → mid.bufferSize = size →
      After (f a) mid (Rests rest size)) : After (m >>= f) s (Rests rest size) := by
  refine hm.bind (fun a mid h hmid => ?_) fun e mid h => h.of_error
  exact hf a mid h hmid.2.1 hmid.2.2

theorem Quiet.after_bind (hm : Quiet m) (hrest : s.unread = rest) (hsize : s.bufferSize = size)
    (hf : ∀ a, Returns m s a s → After (f a) s (Rests rest size)) :
    After (m >>= f) s (Rests rest size) := by
  refine after_rests_bind (hm.after hrest hsize) fun a mid h _ _ => ?_
  obtain rfl := hm.returns h
  exact hf a h

end Quiet

section Idle

variable {rest : Text} {size : Nat} {s : SocketStream} {body : BodyState}

/-- The next `n` bytes of the stream are the body as it is. -/
inductive Plain (n : Nat) : BodyState → Prop where
  | raw : Plain n (.raw n)
  | rawSha256 (signature hashed : Text) : Plain n (.rawSha256 n signature hashed)

/-- Nothing of the body is in the stream. -/
inductive Idle : BodyState → Prop where
  | string (total : Nat) (rest : Text) : Idle (.string total rest)
  | plain {body : BodyState} (h : Plain 0 body) : Idle body

theorem after_consume (hrest : s.unread = rest) (hsize : s.bufferSize = size) :
    After consume s (Rests rest size) := by
  refine .intro (fun u s' h => ?_) fun e s' h => absurd h not_throws_consume
  obtain ⟨hunread, _, hsame⟩ := returns_consume h
  exact ⟨by simp, hunread.trans hrest, hsame.trans hsize⟩

theorem after_bodyConsume (body : BodyState) (hrest : s.unread = rest)
    (hsize : s.bufferSize = size) : After body.consume s (Rests rest size) := by
  cases body with
  | string => exact (quiet_pure ()).after hrest hsize
  | _ => exact after_consume hrest hsize

theorem after_read_zero (hrest : s.unread = rest) (hsize : s.bufferSize = size) :
    After (read 0) s fun result s' => Rests rest size result s' ∧ result = .ok [] := by
  refine .intro (fun data s' h => ?_) fun e s' h => ?_
  · obtain ⟨hadv, hlen, _⟩ := returns_read h
    obtain rfl := eq_nil_of_length_eq_zero (Nat.le_zero.mp hlen)
    exact ⟨⟨by simp, hadv.unread.symm.trans hrest, hadv.bufferSize.trans hsize⟩, rfl⟩
  · obtain ⟨_, _, hlen, _⟩ := throws_read h
    exact absurd hlen (Nat.not_lt_zero _)

theorem after_readRaw_zero (count : Nat) (hrest : s.unread = rest) (hsize : s.bufferSize = size) :
    After (BodyState.readRaw count 0) s fun result s' =>
      Rests rest size result s' ∧ result = .ok ([], 0) := by
  have hread : After (read (min count 0)) s fun result s' =>
      Rests rest size result s' ∧ result = .ok [] := by
    rw [Nat.min_zero]
    exact after_read_zero hrest hsize
  refine hread.bind ?_ fun e mid h => absurd h.2 (by simp)
  rintro data mid - ⟨⟨_, hunread, hsame⟩, ⟨⟩⟩
  exact .of_returns rfl ⟨⟨by simp, hunread, hsame⟩, rfl⟩

theorem Plain.after_read_zero (h : Plain 0 body) (crypto : Crypto) (count : Nat)
    (hrest : s.unread = rest) (hsize : s.bufferSize = size) :
    After (body.read crypto count) s fun result s' => Rests rest size result s' ∧
      ∀ data body', result = .ok (data, body') → data = [] ∧ Plain 0 body' := by
  have hread := after_readRaw_zero count hrest hsize
  cases h with
  | raw =>
    refine hread.bind ?_ fun e mid h => absurd h.2 (by simp)
    rintro read mid - ⟨⟨_, hunread, hsame⟩, ⟨⟩⟩
    refine .of_returns rfl ⟨⟨by simp, hunread, hsame⟩, ?_⟩
    intro data body' heq
    cases heq
    exact ⟨rfl, .raw⟩
  | rawSha256 signature hashed =>
    refine hread.bind ?_ fun e mid h => absurd h.2 (by simp)
    rintro read mid - ⟨⟨_, hunread, hsame⟩, ⟨⟩⟩
    dsimp only
    split
    · exact .of_throws rfl
        ⟨⟨by simp [Thrown.runtimeError], hunread, hsame⟩, by simp⟩
    · refine .of_returns rfl ⟨⟨by simp, hunread, hsame⟩, ?_⟩
      intro data body' heq
      cases heq
      exact ⟨rfl, .rawSha256 _ _⟩

theorem Idle.after_read (h : Idle body) (crypto : Crypto) (count : Nat) (hrest : s.unread = rest)
    (hsize : s.bufferSize = size) :
    After (body.read crypto count) s fun result s' =>
      Rests rest size result s' ∧ ∀ data body', result = .ok (data, body') → Idle body' := by
  cases h with
  | string total text =>
    refine .of_returns rfl ⟨⟨by simp, hrest, hsize⟩, ?_⟩
    intro data body' heq
    rw [← (Prod.mk.inj (Except.ok.inj heq)).2]
    exact .string _ _
  | plain hplain =>
    obtain ⟨hrests, hplain'⟩ := hplain.after_read_zero crypto count hrest hsize
    exact ⟨hrests, fun data body' heq => .plain (hplain' data body' heq).2⟩

end Idle

section Loops

variable {rest : Text} {size : Nat} {s : SocketStream} {crypto : Crypto} {count : Nat}

variable {body : BodyState} {bare : Bool} {pieces : List Text} {n : Nat} {bytes : Text}

theorem Idle.after_copyLoop (h : Idle body) (n : Nat) (hrest : s.unread = rest)
    (hsize : s.bufferSize = size) : After (body.copyLoop crypto count n) s (Rests rest size) := by
  induction n generalizing body s with
  | zero => exact (quiet_pure []).after hrest hsize
  | succ n ih =>
    refine (h.after_read crypto count hrest hsize).bind ?_ fun e mid h => h.1.of_error
    rintro ⟨data, body'⟩ mid - ⟨⟨_, hunread, hsame⟩, hidle⟩
    refine after_rests_bind (after_bodyConsume body' hunread hsame) fun _ mid' _ hunread' hsame' => ?_
    split
    · exact (quiet_pure []).after hunread' hsame'
    · have hrest := ih (hidle data body' rfl) hunread' hsame'
      refine after_rests_bind hrest fun text mid'' _ hunread'' hsame'' => ?_
      exact (quiet_pure _).after hunread'' hsame''

theorem Idle.after_deduplicateLoop (h : Idle body) (dedupe : List Text → Option Failure) (n : Nat)
    (pieces : List Text) (hrest : s.unread = rest) (hsize : s.bufferSize = size) :
    After (BodyState.deduplicateLoop crypto dedupe count n pieces body) s (Rests rest size) := by
  induction n generalizing body s pieces with
  | zero => exact (quiet_pure ()).after hrest hsize
  | succ n ih =>
    refine after_rests_bind (after_bodyConsume body hrest hsize) fun _ s₀ _ hunread₀ hsame₀ => ?_
    refine (h.after_read crypto count hunread₀ hsame₀).bind ?_ fun e mid h => h.1.of_error
    rintro ⟨data, body'⟩ mid - ⟨⟨_, hunread, hsame⟩, hidle⟩
    have hidle' := hidle data body' rfl
    dsimp only
    split
    · exact (quiet_pure ()).after hunread hsame
    · exact (quiet_raise _).after_bind hunread hsame fun _ _ => ih hidle' _ hunread hsame

/-- The body is read to its end in these pieces, and the stream is then left at
`rest`; the last read may throw. A body that is `bare` has nothing behind its
last piece. -/
inductive Drained (crypto : Crypto) (count : Nat) (rest : Text) (size : Nat) (bare : Bool) :
    List Text → BodyState → SocketStream → Prop where
  | last {body : BodyState} {s : SocketStream}
      (hread : After (body.read crypto count) s fun result s' =>
        Rests rest size result s' ∧ ∀ data body', result = .ok (data, body') → data = []) :
      Drained crypto count rest size bare [] body s
  | more {pieces : List Text} {data : Text} {body body' : BodyState} {s s₁ s₂ : SocketStream}
      (hread : Returns (body.read crypto count) s (data, body') s₁) (hdata : data ≠ [])
      (hconsume : Returns body'.consume s₁ () s₂)
      (hbare : bare = true → pieces = [] → s₁.unread = rest ∧ s₁.bufferSize = size)
      (hrest : Drained crypto count rest size bare pieces body' s₂) :
      Drained crypto count rest size bare (data :: pieces) body s

theorem Drained.after_copyLoop (h : Drained crypto count rest size bare pieces body s)
    (hn : pieces.length < n) : After (body.copyLoop crypto count n) s (Rests rest size) := by
  induction h generalizing n with
  | @last body s hread =>
    cases n with
    | zero => exact absurd hn (Nat.not_lt_zero _)
    | succ n =>
      refine hread.bind ?_ fun e mid h => h.1.of_error
      rintro ⟨data, body'⟩ mid - ⟨⟨_, hunread, hsame⟩, hdata⟩
      refine after_rests_bind (after_bodyConsume body' hunread hsame)
        fun _ mid' _ hunread' hsame' => ?_
      rw [if_pos (hdata data body' rfl)]
      exact (quiet_pure []).after hunread' hsame'
  | @more pieces data body body' s s₁ s₂ hread hdata hconsu _ _ ih =>
    cases n with
    | zero => exact absurd hn (Nat.not_lt_zero _)
    | succ n =>
      refine .bind_of_returns hread (.bind_of_returns hconsu ?_)
      rw [if_neg hdata]
      refine after_rests_bind (ih (Nat.lt_of_succ_lt_succ hn)) fun text mid _ hunread hsame => ?_
      exact (quiet_pure _).after hunread hsame

/-- Where the deduplicator fails with no piece, but for the last of a bare body,
the body is read to its end. -/
theorem Drained.after_deduplicateLoop {s₀ : SocketStream}
    (h : Drained crypto count rest size bare pieces body s₀) {dedupe : List Text → Option Failure}
    {done : List Text}
    (hdedupe : ∀ front, front <+: pieces → front ≠ [] → (front ≠ pieces ∨ bare = false) → dedupe (done ++ front) = none)
    (hconsu : Returns body.consume s () s₀) (hn : pieces.length < n) :
    After (BodyState.deduplicateLoop crypto dedupe count n done body) s (Rests rest size) := by
  induction h generalizing n s done with
  | @last body s₀ hread =>
    cases n with
    | zero => exact absurd hn (Nat.not_lt_zero _)
    | succ n =>
      refine .bind_of_returns hconsu ?_
      refine hread.bind ?_ fun e mid h => h.1.of_error
      rintro ⟨data, body'⟩ mid - ⟨⟨_, hunread, hsame⟩, hdata⟩
      dsimp only
      rw [if_pos (hdata data body' rfl)]
      exact (quiet_pure ()).after hunread hsame
  | @more pieces data body body' s₀ s₁ s₂ hread hdata hconsu' hbare _ ih =>
    cases n with
    | zero => exact absurd hn (Nat.not_lt_zero _)
    | succ n =>
      have hnext : After (BodyState.deduplicateLoop crypto dedupe count n (done ++ [data]) body')
          s₁ (Rests rest size) := by
        refine ih (fun front hfront hne hlast => ?_) hconsu' (Nat.lt_of_succ_lt_succ hn)
        rw [append_assoc]
        refine hdedupe (data :: front) (cons_prefix_cons.mpr ⟨rfl, hfront⟩) (cons_ne_nil _ _) ?_
        rcases hlast with hlast | hlast
        · exact .inl fun heq => hlast (cons.inj heq).2
        · exact .inr hlast
      refine .bind_of_returns hconsu (.bind_of_returns hread ?_)
      dsimp only
      rw [if_neg hdata]
      by_cases hend : bare = true ∧ pieces = []
      · obtain ⟨hunread, hsame⟩ := hbare hend.1 hend.2
        exact (quiet_raise _).after_bind hunread hsame fun _ _ => hnext
      · have hnone : dedupe (done ++ [data]) = none := by
          refine hdedupe [data] (cons_prefix_cons.mpr ⟨rfl, nil_prefix⟩) (cons_ne_nil _ _) ?_
          by_cases hpieces : pieces = []
          · exact .inr (Bool.eq_false_iff.mpr fun hb => hend ⟨hb, hpieces⟩)
          · exact .inl fun heq => hpieces (cons.inj heq).2.symm
        have hraise : Returns (raise (Option.map Thrown.failure none)) s₁ () s₁ :=
          rfl
        rw [hnone]
        exact .bind_of_returns hraise hnext

theorem Plain.exists_read (h : Plain bytes.length body) (crypto : Crypto) (hbytes : bytes ≠ [])
    (hcount : 0 < count) (hspace : s.getPtr < s.bufferSize) (hunread : s.unread = bytes ++ rest) :
    ∃ data bytes' body' s', Returns (body.read crypto count) s (data, body') s' ∧ data ≠ [] ∧
      bytes = data ++ bytes' ∧ Plain bytes'.length body' ∧ s'.unread = bytes' ++ rest ∧
      s'.bufferSize = s.bufferSize := by
  have hpos := length_pos_iff.mpr hbytes
  have hraw : ∃ data bytes' s', Returns (BodyState.readRaw count bytes.length) s
      (data, bytes'.length) s' ∧ data ≠ [] ∧ bytes = data ++ bytes' ∧ s'.unread = bytes' ++ rest ∧
      s'.bufferSize = s.bufferSize := by
    rcases returns_or_throws (read (min count bytes.length)) s with
      ⟨data, s', hread⟩ | ⟨e, s', hread⟩
    · obtain ⟨hadv, hlen, hempty, _⟩ := returns_read hread
      have hdata : data ≠ [] := by
        intro hnone
        rcases hempty hnone with hzero | hfull
        · omega
        · omega
      have happ := hadv.unread
      rw [hunread] at happ
      obtain ⟨bytes', rfl⟩ :=
        prefix_of_prefix_length_le ⟨s'.unread, happ.symm⟩ ⟨rest, rfl⟩ (by omega)
      rw [append_assoc] at happ
      refine ⟨data, bytes', s', hread.bind (returns_pure.mpr ⟨?_, rfl⟩), hdata,
        rfl, (append_cancel_left happ).symm, hadv.bufferSize⟩
      rw [length_append, Nat.add_sub_cancel_left]
    · obtain ⟨_, _, hless, _⟩ := throws_read hread
      rw [hunread, length_append] at hless
      omega
  obtain ⟨data, bytes', s', hread, hdata, hsplit, hrest', hsize⟩ := hraw
  cases h with
  | raw =>
    exact ⟨data, bytes', _, s', hread.bind rfl, hdata,
      hsplit, .raw, hrest', hsize⟩
  | rawSha256 signature hashed =>
    refine ⟨data, bytes', _, s', hread.bind ?_, hdata, hsplit,
      .rawSha256 signature (hashed ++ data), hrest', hsize⟩
    dsimp only
    rw [if_neg fun hnone => hdata hnone.1]
    exact rfl

theorem Plain.returns_consume (h : Plain n body) (s : SocketStream) :
    ∃ s', Returns body.consume s () s' ∧ s'.unread = s.unread ∧ s'.bufferSize = s.bufferSize ∧
      s'.getPtr = 0 := by
  have hconsu : body.consume = consume := by cases h <;> rfl
  rcases returns_or_throws SocketStream.consume s with ⟨_, s', hret⟩ | ⟨e, s', hthrows⟩
  · obtain ⟨hunread, hpos, hsize⟩ := SocketStream.returns_consume hret
    exact ⟨s', hconsu ▸ hret, hunread, hsize, hpos⟩
  · exact absurd hthrows SocketStream.not_throws_consume

/-- A body that is in the stream as it is is read to its end. -/
theorem Plain.drained (h : Plain bytes.length body) (hcount : 0 < count)
    (hspace : s.getPtr < s.bufferSize) (hunread : s.unread = bytes ++ rest) :
    ∃ pieces, Drained crypto count rest s.bufferSize true pieces body s ∧ pieces.flatten = bytes ∧
      ∀ piece ∈ pieces, piece ≠ [] := by
  induction hn : bytes.length using Nat.strong_induction_on generalizing body bytes s with
  | _ n ih =>
    by_cases hbytes : bytes = []
    · subst hbytes
      obtain ⟨hrests, hdata⟩ := Plain.after_read_zero h crypto count hunread rfl
      exact ⟨[], .last ⟨hrests, fun data body' heq => (hdata data body' heq).1⟩, rfl, by simp⟩
    · obtain ⟨data, bytes', body', s₁, hread, hdata, rfl, hplain, hunread₁, hsize₁⟩ :=
        h.exists_read crypto hbytes hcount hspace hunread
      obtain ⟨s₂, hconsu, hunread₂, hsize₂, hpos₂⟩ := hplain.returns_consume s₁
      have hless : bytes'.length < n := by
        have hpos := length_pos_iff.mpr hdata
        rw [← hn, length_append]
        omega
      obtain ⟨pieces, hdrained, hflat, hpieces⟩ := ih bytes'.length hless hplain
        (by rw [hpos₂, hsize₂, hsize₁]; omega) (hunread₂.trans hunread₁) rfl
      rw [hsize₂, hsize₁] at hdrained
      refine ⟨data :: pieces, .more hread hdata hconsu (fun _ hnil => ?_) hdrained, ?_, ?_⟩
      · subst hnil
        rw [hunread₁, ← hflat]
        exact ⟨rfl, hsize₁⟩
      · rw [flatten_cons, hflat]
      · exact forall_mem_cons.mpr ⟨hdata, hpieces⟩

theorem Sent.drained {σ : Type} {hooks : Hooks σ} {wrap : ChunkedBody σ → BodyState}
    (hread : ∀ body, (wrap body).read crypto count = do
      let (data, body) ← body.read hooks count
      return (data, wrap body))
    (hconsu : ∀ body, (wrap body).consume = consume) {body : ChunkedBody σ}
    {frames : List Frame} {last : ChunkHeader} {tail : Text} (hcount : s.bufferSize ≤ count)
    (hended : body.ended = false) (hleft : body.chunkBytesLeft = 0)
    (hsent : Sent body.trailing s.current frames last tail)
    (hpass : hooks.Pass body.state frames last) :
    Drained crypto count (tail ++ s.incoming) s.bufferSize false (frames.map Frame.content)
      (wrap body) s := by
  induction frames generalizing body s with
  | nil =>
    obtain ⟨body', s', hlast, htail, hin, hsize⟩ := exists_read_last hended hleft hsent hpass
    refine .last ?_
    rw [hread]
    refine .of_returns (hlast.bind rfl) ⟨⟨by simp, ?_,
      hsize⟩, fun data body' heq => (Prod.mk.inj (Except.ok.inj heq)).1.symm⟩
    rw [unread, htail, hin]
  | cons frame frames ih =>
    obtain ⟨body', s₁, hchunk, hcont, hended', hleft', hsent', hpass', hin, hsize⟩ :=
      exists_read_chunk hcount hended hleft hsent hpass
    obtain ⟨s₂, hconsu', hmoves⟩ := exists_consume s₁
    have hcur : s₁.current = s₂.current := hmoves.current
    rw [hcur] at hsent'
    have hrest := ih (by rw [hmoves.bufferSize, hsize]; exact hcount) hended' hleft' hsent' hpass'
    rw [hmoves.incoming, hin, hmoves.bufferSize, hsize] at hrest
    have hret : Returns ((wrap body).read crypto count) s (frame.content, wrap body') s₁ := by
      rw [hread]
      exact hchunk.bind rfl
    exact .more hret hcont (by rw [hconsu]; exact hconsu')
      (fun hbare => absurd hbare Bool.false_ne_true) hrest

end Loops

end UhCore.Entrypoint
