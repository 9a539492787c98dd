import UhCore.Entrypoint.BodyReading

/-!
What the commands leave in the stream. A round that gets to the point where its
body is read ends behind the body; where nothing of the body is in the stream,
every round does.
-/

namespace UhCore.Entrypoint

open Effects Http Delimited List Command Answers

section Commands

variable {ρ : Type} {rest : Text} {size : Nat} {s : SocketStream} {body : BodyState}

theorem quiet_bufferSize (body : BodyState) : Quiet body.bufferSize := by
  intro s
  cases body <;> exact .inl ⟨_, rfl⟩

theorem quiet_remaining (body : BodyState) : Quiet body.remaining := by
  intro s
  cases body <;> exact .inl ⟨_, rfl⟩

theorem quiet_choose (commands : List Command) (req : Request) :
    Quiet (Command.choose commands req) := by
  unfold Command.choose
  split
  · exact quiet_pure _
  · exact quiet_throw _

variable {req : Request} {command : Command} {answers : Answers ρ} {s' : SocketStream} {limit : Nat}
  {services : Services}

theorem returns_choose {commands : List Command}
    (h : Returns (Command.choose commands req) s command s') : command ∈ commands := by
  unfold Command.choose at h
  split at h
  case h_1 found hfound =>
    obtain ⟨rfl, _⟩ := returns_pure.mp h
    exact mem_of_find?_eq_some hfound
  case h_2 => exact absurd h returns_throw

theorem quiet_checkPolicy (answers : Answers ρ) (command : Command) (req : Request) :
    Quiet (answers.checkPolicy command req) := by
  unfold checkPolicy
  split
  · exact quiet_pure ()
  · refine (quiet_orFail _).bind fun effect => ?_
    have hraise := quiet_raise (if effect = .deny then some (accessDenied command req) else none)
    rwa [apply_ite (Option.map Thrown.failure)] at hraise

theorem quiet_prepare (answers : Answers ρ) (command : Command) (req : Request) :
    Quiet (answers.prepare command req) := by
  unfold prepare
  split
  · split
    · exact quiet_throw _
    · exact (quiet_orThrow _).bind fun _ => quiet_pure ()
  · exact quiet_orFail _
  · exact quiet_pure ()

/-- The deduplicator fails with nothing that has fewer bytes than `limit`. -/
def DedupesBelow (answers : Answers ρ) (limit : Nat) : Prop :=
  ∀ pieces, pieces.flatten.length < limit → answers.dedupe pieces = none

/-- The body is read in either way up to `rest`. -/
structure LeavesRest (answers : Answers ρ) (rest : Text) (size limit : Nat) (body : BodyState)
    (s : SocketStream) : Prop where
  copied : After (body.copyToBuffer answers.services.crypto) s (Rests rest size)
  deduplicated : DedupesBelow answers limit →
    After (body.deduplicate answers.services.crypto answers.dedupe) s (Rests rest size)

def Command.readsBody : Command → Bool
  | .putObject | .multipart | .putBucketVersioning | .deleteObjects | .putBucketPolicy
  | .putBucketCors | .completeMultipart => true
  | _ => false

theorem LeavesRest.after_readBody (h : LeavesRest answers rest size limit body s)
    (hreads : command.readsBody = true)
    (hdedupe : command = .putObject ∨ command = .multipart → DedupesBelow answers limit) :
    After (answers.readBody command body) s (Rests rest size) := by
  have hpieces (hcmd : command = .putObject ∨ command = .multipart) :
      After (do
        body.deduplicate answers.services.crypto answers.dedupe
        return ([] : Text)) s (Rests rest size) :=
    after_rests_bind (h.deduplicated (hdedupe hcmd)) fun _ mid _ hunread hsize =>
      (quiet_pure []).after hunread hsize
  cases command with
  | putObject => exact hpieces (.inl rfl)
  | multipart => exact hpieces (.inr rfl)
  | putBucketVersioning => exact h.copied
  | deleteObjects => exact h.copied
  | putBucketPolicy => exact h.copied
  | putBucketCors => exact h.copied
  | completeMultipart => exact h.copied
  | _ => exact absurd hreads Bool.false_ne_true

theorem quiet_readBody (answers : Answers ρ) (hreads : command.readsBody = false) (body : BodyState)
    : Quiet (answers.readBody command body) := by
  cases command <;> first
    | exact quiet_pure []
    | simp [readsBody] at hreads

theorem after_execute (h : After (answers.readBody command body) s (Rests rest size))
    (hprepare : Returns (answers.prepare command req) s () s) :
    After (answers.execute command req body) s (Rests rest size) := by
  refine .bind_of_returns hprepare (after_rests_bind h fun text mid _ hunread hsize => ?_)
  exact (quiet_orFail _).after hunread hsize

/-- A command whose reads of the body leave the stream at `rest`, in a state in
which it is there. -/
theorem after_command (h : After (answers.readBody command body) s (Rests rest size))
    (hrest : s.unread = rest) (hsize : s.bufferSize = size) : After (do
      answers.checkPolicy command req
      orFail (answers.validateCommand command req)
      answers.execute command req body) s (Rests rest size) := by
  refine (quiet_checkPolicy answers command req).after_bind hrest hsize fun _ _ => ?_
  refine (quiet_orFail _).after_bind hrest hsize fun _ _ => ?_
  exact (quiet_prepare answers command req).after_bind hrest hsize fun _ _ =>
    after_rests_bind h fun text mid _ hunread hsame => (quiet_orFail _).after hunread hsame

theorem readsBody_of_mem_actions (h : command ∈ actions) : command.readsBody = false := by
  simp only [actions, mem_cons, not_mem_nil, or_false] at h
  rcases h with rfl | rfl | rfl | rfl | rfl | rfl | rfl | rfl <;> rfl

theorem returns_actionCommand {req req' : Request}
    (h : Returns (actionCommand services req body) s (command, req') s') : command ∈ actions := by
  obtain ⟨length, s₁, _, h⟩ := returns_bind.mp h
  split at h
  case isTrue => exact absurd h returns_throw
  case isFalse =>
    split at h
    case isTrue => exact absurd h returns_throw
    case isFalse =>
      obtain ⟨postQuery, s₂, _, h⟩ := returns_bind.mp h
      obtain ⟨params, s₃, _, h⟩ := returns_bind.mp h
      obtain ⟨found, s₄, hchoose, h⟩ := returns_bind.mp h
      obtain ⟨hpair, _⟩ := returns_pure.mp h
      rw [← (Prod.mk.inj hpair).1]
      exact returns_choose hchoose

theorem after_actionCommand
    (h : (∃ n, services.getLength req.raw = .ok n ∧ n ≠ 0 ∧ n ≤ maxPostQueryLength) ∨ s.unread = rest ∧ s.bufferSize = size)
    (hcopy : After (body.copyToBuffer services.crypto) s (Rests rest size)) :
    After (actionCommand services req body) s (Rests rest size) := by
  have hread : After (do
      let postQuery ← body.copyToBuffer services.crypto
      let params ← orThrow (services.url.params postQuery)
      let req := { req with raw := { req.raw with params := mapOf params } }
      let command ← choose actions req
      return (command, req)) s (Rests rest size) := by
    refine after_rests_bind hcopy fun postQuery mid _ hunread hsize => ?_
    refine (quiet_orThrow _).after_bind hunread hsize fun params _ => ?_
    exact ((quiet_choose _ _).bind fun command => quiet_pure _).after hunread hsize
  rcases h with ⟨n, hlen, hpos, hmax⟩ | ⟨hunread, hsize⟩
  · refine .bind_of_returns (returns_orThrow_of_ok hlen s) ?_
    rw [if_neg hpos, if_neg (not_lt.mpr hmax)]
    exact hread
  · refine (quiet_orThrow _).after_bind hunread hsize fun length _ => ?_
    split
    · exact (quiet_throw _).after hunread hsize
    · split
      · exact (quiet_throw _).after hunread hsize
      · exact hread

/-- What a command needs before it reads the body. -/
def Prepared (answers : Answers ρ) (req : Request) : Command → Prop
  | .putObject => ∃ value n, req.header "Content-Length".toList = some value ∧
      answers.services.stoul value = .ok n
  | .deleteObjects => answers.bucketExists req = .ok ()
  | _ => True

theorem Prepared.returns (h : Prepared answers req command) (s : SocketStream) :
    Returns (answers.prepare command req) s () s := by
  unfold prepare
  split
  · obtain ⟨value, n, hvalue, hn⟩ := h
    rw [hvalue]
    exact Returns.bind (returns_orThrow_of_ok hn s) rfl
  · have hok := h
    rw [hok]
    exact rfl
  · exact rfl

/-- The request gets to the point where its body is read. -/
inductive ReadsBody (answers : Answers ρ) (req : Request) (limit : Nat) : Prop where
  | action (n : Nat) (hpost : method req "POST" = true ∧ req.raw.path = ['/'])
      (hlength : answers.services.getLength req.raw = .ok n) (hpos : n ≠ 0)
      (hmax : n ≤ maxPostQueryLength)
  | command (command : Command) (hpost : ¬ (method req "POST" = true ∧ req.raw.path = ['/']))
      (hcommand : onPaths.find? (canHandle req) = some command)
      (hreads : command.readsBody = true)
      (hpolicy : req.user.superUser = true ∨ answers.policy req command = .ok .allow)
      (hvalid : answers.validateCommand command req = .ok ())
      (hprepared : Prepared answers req command)
      (hdedupe : command = .putObject ∨ command = .multipart → DedupesBelow answers limit)

theorem returns_checkPolicy
    (h : req.user.superUser = true ∨ answers.policy req command = .ok .allow) (s : SocketStream) :
    Returns (answers.checkPolicy command req) s () s := by
  unfold checkPolicy
  split
  case isTrue => exact rfl
  case isFalse huser =>
    have hallow := h.resolve_left huser
    rw [hallow]
    exact Returns.bind rfl rfl

theorem after_perform_action (hpost : method req "POST" = true ∧ req.raw.path = ['/'])
    (h : After (actionCommand answers.services req body) s (Rests rest size)) :
    After (answers.perform req body) s (Rests rest size) := by
  unfold perform create
  rw [if_pos hpost]
  refine after_rests_bind h fun found mid hret hunread hsize => ?_
  obtain ⟨command, req'⟩ := found
  have hquiet := quiet_readBody answers (readsBody_of_mem_actions (returns_actionCommand hret)) body
  exact after_command (hquiet.after hunread hsize) hunread hsize

theorem ReadsBody.after_respond (h : ReadsBody answers req limit)
    (hcors : answers.cors req = .ok none) (hleaves : LeavesRest answers rest size limit body s) :
    After (answers.respond req body) s (Rests rest size) := by
  unfold respond
  rw [hcors]
  refine .bind_of_returns (rfl : Returns (orFail (.ok none)) s none s) ?_
  cases h with
  | action n hpost hlen hpos hmax =>
    exact after_perform_action hpost
      (after_actionCommand (.inl ⟨n, hlen, hpos, hmax⟩) hleaves.copied)
  | command command hpost hcmd hreads hpolicy hvalid hprepared hdedupe =>
    have hcreate : Returns (Command.create answers.services req body) s (command, req) s := by
      unfold Command.create Command.choose
      rw [if_neg hpost, hcmd]
      exact Returns.bind rfl rfl
    have hchecked : Returns (orFail (answers.validateCommand command req)) s () s := by
      rw [hvalid]
      exact rfl
    refine .bind_of_returns hcreate (.bind_of_returns (returns_checkPolicy hpolicy s)
      (.bind_of_returns hchecked ?_))
    exact after_execute (hleaves.after_readBody hreads hdedupe) (hprepared.returns s)

/-- A body that is not in the stream: every end of the round leaves the stream. -/
theorem Idle.after_respond (h : Idle body) (answers : Answers ρ) (req : Request)
    (hrest : s.unread = rest) (hsize : s.bufferSize = size) :
    After (answers.respond req body) s (Rests rest size) := by
  have hcopied {mid : SocketStream} (hunread : mid.unread = rest) (hsame : mid.bufferSize = size) :
      After (body.copyToBuffer answers.services.crypto) mid (Rests rest size) :=
    (quiet_bufferSize body).after_bind hunread hsame fun count _ =>
      (quiet_remaining body).after_bind hunread hsame fun rounds _ =>
        h.after_copyLoop _ hunread hsame
  have hdeduplicated :
      After (body.deduplicate answers.services.crypto answers.dedupe) s (Rests rest size) :=
    (quiet_bufferSize body).after_bind hrest hsize fun count _ =>
      (quiet_remaining body).after_bind hrest hsize fun rounds _ =>
        h.after_deduplicateLoop _ _ _ hrest hsize
  refine (quiet_orFail _).after_bind hrest hsize fun response _ => ?_
  cases response with
  | some response => exact (quiet_pure response).after hrest hsize
  | none =>
    by_cases hpost : method req "POST" = true ∧ req.raw.path = ['/']
    · exact after_perform_action hpost
        (after_actionCommand (.inr ⟨hrest, hsize⟩) (hcopied hrest hsize))
    · unfold perform create
      rw [if_neg hpost]
      refine ((quiet_choose _ _).bind fun command => quiet_pure (command, req)).after_bind
        hrest hsize fun found _ => ?_
      refine after_command ?_ hrest hsize
      cases hreads : found.1.readsBody with
      | false => exact (quiet_readBody answers hreads body).after hrest hsize
      | true =>
        have hleaves : LeavesRest answers rest size 0 body s :=
          ⟨hcopied hrest hsize, fun _ => hdeduplicated⟩
        exact hleaves.after_readBody hreads fun _ pieces hless => absurd hless (Nat.not_lt_zero _)

end Commands

section Bodies

variable {ρ : Type} {rest : Text} {s : SocketStream} {body : BodyState}

theorem length_le_flatten {pieces : List Text} (h : ∀ piece ∈ pieces, piece ≠ []) :
    pieces.length ≤ pieces.flatten.length := by
  induction pieces with
  | nil => exact le_refl _
  | cons piece pieces ih =>
    obtain ⟨hpiece, hpieces⟩ := forall_mem_cons.mp h
    have hpos := length_pos_iff.mpr hpiece
    have hle := ih hpieces
    rw [flatten_cons, length_append, length_cons]
    omega

theorem Plain.leavesRest {bytes : Text} (h : Plain bytes.length body) (answers : Answers ρ)
    (hspace : s.getPtr < s.bufferSize) (hunread : s.unread = bytes ++ rest) :
    LeavesRest answers rest s.bufferSize bytes.length body s := by
  have hsize : Returns body.bufferSize s s.bufferSize s := by
    cases h <;> exact rfl
  have hrem : Returns body.remaining s s.unread.length s := by
    cases h <;> exact rfl
  have hrounds {pieces : List Text} (hflat : pieces.flatten = bytes)
      (hpieces : ∀ piece ∈ pieces, piece ≠ []) : pieces.length < s.unread.length + 1 := by
    have hle := length_le_flatten hpieces
    rw [hunread, length_append]
    rw [hflat] at hle
    omega
  have hcount : 0 < s.bufferSize := by omega
  constructor
  · obtain ⟨pieces, hdrained, hflat, hpieces⟩ := Plain.drained h hcount hspace hunread
    refine .bind_of_returns hsize (.bind_of_returns hrem ?_)
    exact hdrained.after_copyLoop (hrounds hflat hpieces)
  · intro hdedupe
    obtain ⟨s₀, hconsu, hunread₀, hsize₀, hpos₀⟩ := h.returns_consume s
    obtain ⟨pieces, hdrained, hflat, hpieces⟩ := Plain.drained h hcount
      (by rw [hpos₀, hsize₀]; exact hcount) (hunread₀.trans hunread)
    rw [hsize₀] at hdrained
    refine .bind_of_returns hsize (.bind_of_returns hrem ?_)
    refine hdrained.after_deduplicateLoop (fun front hfront _ hlast => ?_) hconsu
      (hrounds hflat hpieces)
    obtain ⟨back, rfl⟩ := hfront
    have hback : back ≠ [] := by
      rintro rfl
      rcases hlast with hlast | hlast
      · exact hlast (append_nil _).symm
      · exact absurd hlast (by simp)
    have hpos := length_le_flatten fun piece hpiece =>
      hpieces piece (mem_append_right front hpiece)
    have hback' := length_pos_iff.mpr hback
    apply hdedupe
    rw [← hflat, nil_append, flatten_append, length_append]
    omega

variable {trailing : Bool} {frames : List Frame} {last : ChunkHeader} {tail : Text}

theorem Sent.length_le {stream : Text} (h : Sent trailing stream frames last tail) :
    frames.length ≤ stream.length := by
  induction h with
  | last => exact Nat.zero_le _
  | chunk hline _ _ _ _ ih =>
    have hstream := congrArg List.length (upTo_eq_some hline).1
    simp only [length_append, length_cons] at hstream ⊢
    have hcrlf : crlf.length = 2 := rfl
    omega

/-- A body in chunks that was not read yet and takes these. -/
inductive TakesChunks (crypto : Crypto) (trailing : Bool) (frames : List Frame)
    (last : ChunkHeader) : BodyState → Prop where
  | chunked (body : ChunkedBody Unit) (htrailing : body.trailing = trailing)
      (hended : body.ended = false) (hleft : body.chunkBytesLeft = 0)
      (hpass : Hooks.none.Pass body.state frames last) :
      TakesChunks crypto trailing frames last (.chunked body)
  | chunkSha256 (body : ChunkedBody ChunkSigner) (htrailing : body.trailing = trailing)
      (hended : body.ended = false) (hleft : body.chunkBytesLeft = 0)
      (hpass : (ChunkSigner.hooks crypto).Pass body.state frames last) :
      TakesChunks crypto trailing frames last (.chunkSha256 body)

theorem TakesChunks.drained {crypto : Crypto} {count : Nat}
    (h : TakesChunks crypto trailing frames last body) (hcount : s.bufferSize ≤ count)
    (hsent : Sent trailing s.current frames last tail) :
    Drained crypto count (tail ++ s.incoming) s.bufferSize false (frames.map Frame.content) body s := by
  cases h with
  | chunked body htrailing hended hleft hpass =>
    subst htrailing
    exact Sent.drained (fun _ => rfl) (fun _ => rfl) hcount hended hleft hsent hpass
  | chunkSha256 body htrailing hended hleft hpass =>
    subst htrailing
    exact Sent.drained (fun _ => rfl) (fun _ => rfl) hcount hended hleft hsent hpass

theorem TakesChunks.leavesRest {answers : Answers ρ}
    (h : TakesChunks answers.services.crypto trailing frames last body)
    (hsent : Sent trailing s.current frames last tail) :
    LeavesRest answers (tail ++ s.incoming) s.bufferSize
      ((frames.map Frame.content).flatten.length + 1) body s := by
  have hsize : Returns body.bufferSize s s.bufferSize s := by
    cases h <;> exact rfl
  have hrem : Returns body.remaining s s.unread.length s := by
    cases h <;> exact rfl
  have hrounds : (frames.map Frame.content).length < s.unread.length + 1 := by
    have hle := Sent.length_le hsent
    rw [length_map, SocketStream.unread, length_append]
    omega
  constructor
  · refine .bind_of_returns hsize (.bind_of_returns hrem ?_)
    exact (h.drained (le_refl _) hsent).after_copyLoop hrounds
  · intro hdedupe
    obtain ⟨s₀, hconsu, hmoves⟩ := SocketStream.exists_consume s
    have hcur : s.current = s₀.current := hmoves.current
    rw [hcur] at hsent
    have hdrained := h.drained (le_of_eq hmoves.bufferSize) hsent
    rw [hmoves.incoming, hmoves.bufferSize] at hdrained
    have hconsu' : Returns body.consume s () s₀ := by cases h <;> exact hconsu
    refine .bind_of_returns hsize (.bind_of_returns hrem ?_)
    refine hdrained.after_deduplicateLoop (fun front hfront _ _ => ?_) hconsu' hrounds
    obtain ⟨back, hback⟩ := hfront
    apply hdedupe
    rw [← hback, nil_append, flatten_append, length_append]
    omega

end Bodies

end UhCore.Entrypoint
