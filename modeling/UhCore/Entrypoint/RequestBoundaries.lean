import UhCore.Entrypoint.CommandBodies

/-!
Where the requests of a connection begin and end. A round starts at the first
byte that the round before did not read, so a request is parsed from its first
byte when the round before has read its body to the end.
-/

namespace UhCore.Entrypoint

open Effects Http Delimited List SocketStream Services

section Authentication

variable {rest : Text} {size : Nat} {s : SocketStream} {services : Services} {req : RawRequest}

/-- The content hashes that stand for a body in chunks. -/
def streaming : List Text :=
  ["STREAMING-AWS4-HMAC-SHA256-PAYLOAD", "STREAMING-UNSIGNED-PAYLOAD-TRAILER",
    "STREAMING-AWS4-HMAC-SHA256-PAYLOAD-TRAILER"].map String.toList

theorem unsigned_notMem_streaming : "UNSIGNED-PAYLOAD".toList ∉ streaming := by decide

/-- The header announces no body. -/
structure NoBody (services : Services) (req : RawRequest) : Prop where
  length : services.getLength req = .ok 0
  transfer : req.optional "Transfer-Encoding".toList = none
  content : ∀ sha ∈ req.optional "x-amz-content-sha256".toList, sha ∉ streaming

variable {body : BodyState} {info : SignatureInfo} {signingKey signature form : Text}

theorem NoBody.idle_plainBody (h : NoBody services req) (hbody : services.plainBody req = .ok body)
    : Idle body := by
  unfold plainBody rawBody at hbody
  rw [h.transfer, h.length] at hbody
  cases hbody
  exact .plain .raw

theorem idle_makeBody (hlen : services.getLength req = .ok 0) (hsha : info.contentSha ∉ streaming)
    (hbody : services.makeBody req info signingKey signature = .ok body) : Idle body := by
  simp only [streaming, map_cons, map_nil, mem_cons, not_mem_nil, or_false, not_or] at hsha
  unfold makeBody rawBody at hbody
  rw [if_neg hsha.1, if_neg hsha.2.1, if_neg hsha.2.2, hlen] at hbody
  split at hbody
  · cases hbody
    exact .plain .raw
  · cases hbody
    exact .plain (.rawSha256 _ _)

/-- The form was read, or there is no body. -/
def Settled (services : Services) (req : RawRequest) (form : Option Text) : Prop :=
  form.isSome = true ∨ NoBody services req

theorem Settled.idle_bodyOf {form : Option Text} (h : Settled services req form)
    (hsha : form = none → info.contentSha ∉ streaming)
    (hbody : services.bodyOf req info signingKey signature form = .ok body) : Idle body := by
  cases form with
  | some form =>
    cases hbody
    exact .string _ _
  | none =>
    have hnone := h.resolve_left (by simp)
    exact idle_makeBody hnone.length (hsha rfl) hbody

/-- The stream is at `rest`, and a body that was made has nothing in it. -/
def Authenticated (rest : Text) (size : Nat) (result : Except Thrown (Request × BodyState))
    (s : SocketStream) : Prop :=
  Rests rest size result s ∧ ∀ req body, result = .ok (req, body) → Idle body

theorem Authenticated.of_failure (failure : Failure) (hrest : s.unread = rest)
    (hsize : s.bufferSize = size) : Authenticated rest size (.error (.failure failure)) s :=
  ⟨⟨by simp, hrest, hsize⟩, by simp⟩

theorem Quiet.after_authenticated {α : Type} {m : Effect SocketStream Thrown α}
    {f : α → Effect SocketStream Thrown (Request × BodyState)} (hm : Quiet m)
    (hrest : s.unread = rest) (hsize : s.bufferSize = size)
    (hf : ∀ a, Returns m s a s → After (f a) s (Authenticated rest size)) :
    After (m >>= f) s (Authenticated rest size) := by
  rcases hm s with ⟨a, h⟩ | ⟨failure, h⟩
  · exact .bind_of_returns h (hf a h)
  · exact .of_throws (throws_bind.mpr (.inl h)) (.of_failure failure hrest hsize)

theorem after_made {x : Except Exn BodyState} {user : User} (hrest : s.unread = rest)
    (hsize : s.bufferSize = size) (hidle : ∀ body, x = .ok body → Idle body) :
    After (orThrow x >>= fun body => pure ((⟨req, user⟩ : Request), body)) s
      (Authenticated rest size) := by
  refine (quiet_orThrow x).after_authenticated hrest hsize fun body h => ?_
  refine .of_returns rfl ⟨⟨by simp, hrest, hsize⟩, ?_⟩
  rintro _ _ ⟨⟩
  exact hidle body (returns_orThrow h).1

theorem after_createAws4 {auth : Text}
    (hform : ∀ checked, services.checkKey auth = .ok checked →
      After (services.readFormBody req) s fun result s' =>
        Rests rest size result s' ∧ ∀ form, result = .ok form → Settled services req form)
    (hkey : ∀ failure, services.checkKey auth = .error failure →
      s.unread = rest ∧ s.bufferSize = size) :
    After (services.createAws4 req auth) s (Authenticated rest size) := by
  unfold createAws4
  cases hchecked : services.checkKey auth with
  | error failure =>
    obtain ⟨hrest, hsize⟩ := hkey failure hchecked
    exact .of_throws rfl (.of_failure failure hrest hsize)
  | ok checked =>
    refine .bind_of_returns rfl ?_
    refine (hform _ hchecked).bind ?_ fun e mid h => ⟨h.1.of_error, by simp⟩
    rintro form mid - ⟨⟨_, hrest, hsize⟩, hsettled⟩
    refine (quiet_orThrow _).after_authenticated hrest hsize fun amzDate _ => ?_
    dsimp only
    split
    · exact .of_throws rfl (.of_failure _ hrest hsize)
    · refine after_made hrest hsize fun body hbody => ?_
      refine (hsettled form rfl).idle_bodyOf (fun hnone hmem => ?_) hbody
      subst hnone
      have hno := (hsettled none rfl).resolve_left (by simp)
      cases hsha : req.optional "x-amz-content-sha256".toList with
      | none =>
        rw [Aws4HmacSha256.Authorization.info, Aws4HmacSha256.Surroundings.contentSha, hsha] at hmem
        exact unsigned_notMem_streaming hmem
      | some sha =>
        refine hno.content sha (by rw [hsha]; rfl) ?_
        rwa [Aws4HmacSha256.Authorization.info, Aws4HmacSha256.Surroundings.contentSha, hsha] at hmem

theorem checkUrl_eq_ok {url : Services.AcceptedUrl} (h : services.checkUrl req = .ok url) :
    url.req = { req with params := url.req.params } ∧
      url.info.contentSha = "UNSIGNED-PAYLOAD".toList := by
  unfold checkUrl at h
  split at h
  case h_2 => simp at h
  case h_1 =>
    simp only [bind, Except.bind] at h
    split at h
    · simp at h
    · split at h
      · simp [throw, throwThe, MonadExceptOf.throw] at h
      · split at h
        · simp at h
        · split at h
          · simp [throw, throwThe, MonadExceptOf.throw] at h
          · cases h
            exact ⟨rfl, rfl⟩

theorem after_createFromUrl
    (hform : ∀ url, services.checkUrl req = .ok url →
      After (services.readFormBody url.req) s fun result s' =>
        Rests rest size result s' ∧ ∀ form, result = .ok form → Settled services url.req form)
    (hurl : ∀ failure, services.checkUrl req = .error failure →
      s.unread = rest ∧ s.bufferSize = size) :
    After (services.createFromUrl req) s (Authenticated rest size) := by
  unfold createFromUrl
  cases hchecked : services.checkUrl req with
  | error failure =>
    obtain ⟨hrest, hsize⟩ := hurl failure hchecked
    exact .of_throws rfl (.of_failure failure hrest hsize)
  | ok url =>
    refine .bind_of_returns rfl ?_
    refine (hform _ hchecked).bind ?_ fun e mid h => ⟨h.1.of_error, by simp⟩
    rintro form mid - ⟨⟨_, hrest, hsize⟩, hsettled⟩
    refine after_made hrest hsize fun body hbody => ?_
    refine (hsettled form rfl).idle_bodyOf (fun _ => ?_) hbody
    rw [(checkUrl_eq_ok hchecked).2]
    exact unsigned_notMem_streaming

theorem NoBody.after_readFormBody (h : NoBody services req) (hrest : s.unread = rest)
    (hsize : s.bufferSize = size) :
    After (services.readFormBody req) s fun result s' =>
      Rests rest size result s' ∧ ∀ form, result = .ok form → Settled services req form := by
  have hread : After (services.readFormBody req) s (Rests rest size) := by
    unfold readFormBody
    split
    · exact (quiet_pure none).after hrest hsize
    · split
      · refine .bind_of_returns (returns_orThrow_of_ok h.length s) ?_
        have hzero : After (read 0) s (Rests rest size) :=
          (after_read_zero hrest hsize).1
        refine after_rests_bind hzero fun data mid _ hunread hsame => ?_
        split
        · exact (quiet_throw _).after hunread hsame
        · exact (quiet_pure _).after hunread hsame
      · exact (quiet_pure none).after hrest hsize
  exact ⟨hread, fun _ _ => .inr h⟩

theorem NoBody.after_authenticate (h : NoBody services req) (hrest : s.unread = rest)
    (hsize : s.bufferSize = size) :
    After (services.authenticate req) s (Authenticated rest size) := by
  unfold authenticate
  split
  · exact after_createAws4 (fun _ _ => h.after_readFormBody hrest hsize)
      fun _ _ => ⟨hrest, hsize⟩
  · rename_i auth _
    unfold createBasic
    split
    · refine (quiet_orFail _).after_authenticated hrest hsize fun user _ => ?_
      exact after_made hrest hsize fun body => h.idle_plainBody
    · exact .of_throws rfl (.of_failure _ hrest hsize)
  · refine after_createFromUrl (fun url hurl => ?_) fun _ _ => ⟨hrest, hsize⟩
    have hno : NoBody services url.req := by
      rw [(checkUrl_eq_ok hurl).1]
      exact ⟨h.length, h.transfer, h.content⟩
    exact hno.after_readFormBody hrest hsize
  · exact after_made hrest hsize fun body => h.idle_plainBody

inductive ReadsForm (services : Services) (req : RawRequest) : Prop where
  | aws4 {auth : Text} {checked : Aws4HmacSha256.Authorization × User × Text}
      (hscheme : schemeOf req = .aws4 auth) (hkey : services.checkKey auth = .ok checked)
  | url {url : Services.AcceptedUrl} (hscheme : schemeOf req = .url)
      (hurl : services.checkUrl req = .ok url)

/-- The header says that the body is a form. -/
def IsForm (req : RawRequest) : Prop :=
  ∃ contentType, req.optional "content-type".toList = some contentType ∧
    Aws4HmacSha256.Surroundings.formType.isPrefixOf contentType = true

theorem IsForm.after_readFormBody (h : IsForm req) (hlen : services.getLength req = .ok form.length)
    (hcur : form <+: s.current) (hrest : s.unread = form ++ rest) (hsize : s.bufferSize = size) :
    After (services.readFormBody req) s fun result s' =>
      Rests rest size result s' ∧ ∀ form, result = .ok form → Settled services req form := by
  obtain ⟨contentType, htype, hform⟩ := h
  have hall : s.current.take form.length = form := by
    obtain ⟨back, hback⟩ := hcur
    rw [← hback, take_left]
  obtain ⟨s', hread, hmoves, _⟩ := exists_read hcur.length_le
  rw [hall] at hread
  obtain ⟨hadv, _⟩ := returns_read hread
  have hunread := append_cancel_left (hadv.unread.symm.trans hrest)
  unfold readFormBody
  rw [htype]
  dsimp only
  rw [if_pos hform]
  refine .bind_of_returns (returns_orThrow_of_ok hlen s) (.bind_of_returns hread ?_)
  rw [if_neg (not_not.mpr rfl)]
  refine .of_returns rfl
    ⟨⟨by simp, hunread, hadv.bufferSize.trans hsize⟩, fun form' heq => .inl ?_⟩
  rw [← Except.ok.inj heq]
  rfl

theorem ReadsForm.after_authenticate (h : ReadsForm services req) (hform : IsForm req)
    (hlen : services.getLength req = .ok form.length) (hcur : form <+: s.current)
    (hrest : s.unread = form ++ rest) (hsize : s.bufferSize = size) :
    After (services.authenticate req) s (Authenticated rest size) := by
  unfold authenticate
  cases h with
  | aws4 hscheme hkey =>
    rw [hscheme]
    exact after_createAws4 (fun _ _ => hform.after_readFormBody hlen hcur hrest hsize)
      fun failure hfail => absurd (hkey.symm.trans hfail) (by simp)
  | url hscheme hurl =>
    rw [hscheme]
    refine after_createFromUrl (fun url' hurl' => ?_)
      fun failure hfail => absurd (hurl.symm.trans hfail) (by simp)
    have hreq := (checkUrl_eq_ok hurl').1
    have hform' : IsForm url'.req := by
      rw [hreq]
      exact hform
    have hlen' : services.getLength url'.req = .ok form.length := by
      rw [hreq]
      exact hlen
    exact hform'.after_readFormBody hlen' hcur hrest hsize

end Authentication

section Rounds

variable {ρ : Type} {rest : Text} {s : SocketStream}

structure WireRequest where
  header : Text
  body : Text

def WireRequest.bytes (r : WireRequest) : Text := r.header ++ r.body

def Parses (services : Services) (header : Text) (raw : RawRequest) : Prop :=
  ∃ parsed, services.parseHeader header = some parsed ∧
    RawRequest.fromString services.url parsed.version parsed.method parsed.target services.peer
      parsed.headers = .ok raw

structure WellFormed (services : Services) (r : WireRequest) (raw : RawRequest) : Prop where
  header : upTo (crlf ++ crlf) r.header = some (r.header, [])
  parses : Parses services r.header raw
  length : services.getLength raw = .ok r.body.length
  transfer : raw.optional "Transfer-Encoding".toList = none

/-- The sender is authenticated without a look at the body. -/
def Signs (services : Services) (raw : RawRequest) (req : Request) (body : BodyState) : Prop :=
  ∀ s, Returns (services.authenticate raw) s (req, body) s

/-- A round that takes all of its request off the stream. -/
inductive TakesAll (answers : Answers ρ) (r : WireRequest) (raw : RawRequest) (s : SocketStream) :
    Prop where
  | empty (hbody : r.body = [])
      (hcontent : ∀ sha ∈ raw.optional "x-amz-content-sha256".toList, sha ∉ streaming)
  | form (hform : IsForm raw) (hreads : ReadsForm answers.services raw)
      (hhand : r.bytes <+: s.atHand)
  | plain {req : Request} {body : BodyState} (hsigns : Signs answers.services raw req body)
      (hplain : Plain r.body.length body) (hcors : answers.cors req = .ok none)
      (hreads : ReadsBody answers req r.body.length)
  | chunks {req : Request} {body : BodyState} {trailing : Bool} {frames : List Frame}
      {last : ChunkHeader} (hsigns : Signs answers.services raw req body)
      (hsent : Sent trailing r.body frames last [])
      (htakes : TakesChunks answers.services.crypto trailing frames last body)
      (hhand : r.bytes <+: s.atHand) (hcors : answers.cors req = .ok none)
      (hreads : ReadsBody answers req ((frames.map Frame.content).flatten.length + 1))

variable {r : WireRequest} {raw : RawRequest} {answers : Answers ρ}

theorem exists_readRawRequest {services : Services} (h : WellFormed services r raw)
    (hpos : s.getPtr = 0) (hsize : r.header.length < s.bufferSize)
    (hunread : s.unread = r.bytes ++ rest) :
    ∃ s', Returns services.readRawRequest s raw s' ∧ SocketStream.Advance s r.header s' ∧
      s.atHand.length ≤ r.header.length + s'.current.length := by
  have hfound : upTo (crlf ++ crlf) s.unread = some (r.header, r.body ++ rest) := by
    rw [hunread, WireRequest.bytes, append_assoc]
    exact upTo_append h.header (r.body ++ rest)
  rcases returns_or_throws (readUntil (crlf ++ crlf)) s with
    ⟨data, s', hread⟩ | ⟨e, s', hread⟩
  · obtain ⟨hadv, ⟨back, hback⟩ | ⟨_, _, hlong⟩⟩ := returns_readUntil hread
    · obtain ⟨rfl, _⟩ := Prod.mk.inj (Option.some.inj (hback.symm.trans hfound))
      obtain ⟨parsed, hparsed, hraw⟩ := h.parses
      have hdelimiter : crlf ++ crlf ≠ [] := by decide
      have hhead : r.header ≠ [] := by
        intro hnil
        have hnone := h.header
        rw [hnil, upTo_nil hdelimiter] at hnone
        exact absurd hnone (by simp)
      refine ⟨s', hread.bind ?_, hadv,
        atHand_le_of_readUntil hdelimiter hpos hread hhead⟩
      rw [hparsed]
      exact returns_orThrow_of_ok hraw s'
    · have hless := hlong r.header (r.body ++ rest) hfound
      omega
  · obtain ⟨_, _, hnone⟩ := throws_readUntil hread
    exact absurd (hnone.symm.trans hfound) (by simp)

theorem exists_header (h : WellFormed answers.services r raw)
    (hsize : r.header.length < s.bufferSize) (hunread : s.unread = r.bytes ++ rest) :
    ∃ s', s'.unread = r.body ++ rest ∧ s'.getPtr < s'.bufferSize ∧
      s'.bufferSize = s.bufferSize ∧ (r.bytes <+: s.atHand → r.body <+: s'.current) ∧
      ∀ post, After (do
        let (req, body) ← answers.services.authenticate raw
        answers.respond req body) s' post → After answers.handleRequest s post := by
  obtain ⟨s₁, hconsu₁, _⟩ := exists_consume s
  obtain ⟨s₂, hconsu₂, _⟩ := exists_consume s₁
  obtain ⟨hunread₁, _, hsize₁⟩ := returns_consume hconsu₁
  obtain ⟨hunread₂, hpos₂, hsize₂⟩ := returns_consume hconsu₂
  have hatHand : s₂.atHand = s.atHand :=
    (atHand_consume hconsu₂).trans (atHand_consume hconsu₁)
  have hsame := hsize₂.trans hsize₁
  have hbytes := (hunread₂.trans hunread₁).trans hunread
  obtain ⟨s', hread, hadv, hbuf⟩ :=
    exists_readRawRequest h hpos₂ (by rw [hsame]; exact hsize) hbytes
  have hrest : s'.unread = r.body ++ rest := by
    have happ := hadv.unread
    rw [hbytes, WireRequest.bytes, append_assoc] at happ
    exact (append_cancel_left happ).symm
  refine ⟨s', hrest, ?_, hadv.bufferSize.trans hsame, fun hhand => ?_, fun post hpost => ?_⟩
  · rw [hadv.getPtr, hpos₂, hadv.bufferSize, hsame]
    omega
  · refine prefix_of_prefix_length_le ⟨rest, hrest.symm⟩ ⟨s'.incoming, rfl⟩ ?_
    have hlen := hhand.length_le
    rw [WireRequest.bytes, length_append, ← hatHand] at hlen
    omega
  · have hcreate : run answers.services.create s₁ = run (answers.services.authenticate raw) s' := by
      unfold create
      rw [run_bind, hconsu₂]
      dsimp only
      rw [run_bind, hread]
    refine .bind_of_returns hconsu₁ ?_
    unfold After at hpost ⊢
    rw [run_bind] at hpost ⊢
    rw [hcreate]
    exact hpost

theorem after_respond_of_authenticated {size : Nat}
    (h : After (answers.services.authenticate raw) s (Authenticated rest size)) : After (do
      let (req, body) ← answers.services.authenticate raw
      answers.respond req body) s (Rests rest size) := by
  refine h.bind ?_ fun e mid h => h.1.of_error
  rintro made mid - ⟨⟨_, hunread, hsize⟩, hidle⟩
  exact (hidle made.1 made.2 rfl).after_respond answers made.1 hunread hsize

theorem TakesAll.after_handleRequest (h : TakesAll answers r raw s)
    (hformed : WellFormed answers.services r raw) (hsize : r.header.length < s.bufferSize)
    (hunread : s.unread = r.bytes ++ rest) :
    After answers.handleRequest s (Rests rest s.bufferSize) := by
  obtain ⟨s', hunread', hspace, hsize', hhand', hafter⟩ := exists_header hformed hsize hunread
  apply hafter _
  cases h with
  | empty hbody hcont =>
    have hlen := hformed.length
    rw [hbody] at hlen hunread'
    have hno : NoBody answers.services raw := ⟨hlen, hformed.transfer, hcont⟩
    exact after_respond_of_authenticated (hno.after_authenticate hunread' hsize')
  | form hform hreads hhand =>
    exact after_respond_of_authenticated
      (hreads.after_authenticate hform hformed.length (hhand' hhand) hunread' hsize')
  | plain hsigns hplain hcors hreads =>
    refine .bind_of_returns (hsigns s') (hreads.after_respond hcors ?_)
    rw [← hsize']
    exact hplain.leavesRest answers hspace hunread'
  | chunks hsigns hsent htakes hhand hcors hreads =>
    refine .bind_of_returns (hsigns s') (hreads.after_respond hcors ?_)
    obtain ⟨back, hback⟩ := hhand' hhand
    have hmore := hsent.append back
    rw [hback, nil_append] at hmore
    have hrest : back ++ s'.incoming = rest := by
      rw [unread, ← hback, append_assoc] at hunread'
      exact append_cancel_left hunread'
    have hleaves := htakes.leavesRest hmore
    rwa [hrest, hsize'] at hleaves

/-- A round of a connection: the request that is sent for it, and what answers. -/
structure Round (ρ : Type) where
  answers : Answers ρ
  request : WireRequest
  raw : RawRequest
  formed : WellFormed answers.services request raw

def wires : List (Round ρ) → Text
  | [] => []
  | round :: rounds => round.request.bytes ++ wires rounds

/-- What is unread at the first byte of each request. -/
def starts : List (Round ρ) → List Text
  | [] => []
  | round :: rounds => wires (round :: rounds) :: starts rounds

/-- In the state before it, every round has a header that fits into the buffer
and is one that takes all of its request. -/
def AllTaken : List (Round ρ) → SocketStream → Prop
  | [], _ => True
  | round :: rounds, s =>
    (round.request.header.length < s.bufferSize ∧
      TakesAll round.answers round.request round.raw s) ∧
    AllTaken rounds (run round.answers.handleRequest s).2

end Rounds

section Samples

def putHeader : Text := "PUT /b/k HTTP/1.1\r\nContent-Length: 18\r\n\r\n".toList

def getHeader : Text := "GET / HTTP/1.1\r\n\r\n".toList

/-- A library that knows these two headers. -/
def parseSample (header : Text) : Option ParsedHeader :=
  if header = putHeader then
    some ⟨11, "PUT".toList, "/b/k".toList, [⟨"Content-Length".toList, "18".toList⟩]⟩
  else if header = getHeader then some ⟨11, "GET".toList, "/".toList, []⟩
  else none

def sampleServices : Services :=
  { crypto := ⟨id, fun _ text => text⟩
    url := ⟨.ok, id, fun _ => .ok []⟩
    parseHeader := parseSample
    stoul := fun _ => .ok 18
    base64Decode := id
    expired := fun _ _ => .ok false
    findByKey := fun _ => .error (.exception (.runtimeError "no user"))
    findAndCheck := fun _ _ => .error (.exception (.runtimeError "no user"))
    peer := [] }

def sampleAnswers (effect : Policies.Effect) : Answers Unit :=
  { services := sampleServices
    cors := fun _ => .ok none
    policy := fun _ _ => .ok effect
    validate := fun _ _ => .ok ()
    bucketExists := fun _ => .ok ()
    dedupe := fun _ => none
    finish := fun _ _ _ => .ok () }

/-- The body of the upload is the text of a request. -/
def uploadRound (effect : Policies.Effect) : Round Unit :=
  { answers := sampleAnswers effect
    request := ⟨putHeader, getHeader⟩
    raw := ⟨"PUT".toList, "/b/k".toList, "/b/k".toList, [],
      [⟨"Content-Length".toList, "18".toList⟩], []⟩
    formed := ⟨by decide +kernel, ⟨_, rfl, rfl⟩, rfl, rfl⟩ }

def listRound (effect : Policies.Effect) : Round Unit :=
  { answers := sampleAnswers effect
    request := ⟨getHeader, []⟩
    raw := ⟨"GET".toList, "/".toList, "/".toList, [], [], []⟩
    formed := ⟨by decide +kernel, ⟨_, rfl, rfl⟩, rfl, rfl⟩ }

theorem uploadRound_takesAll (s : SocketStream) :
    TakesAll (uploadRound .allow).answers (uploadRound .allow).request (uploadRound .allow).raw s := by
  have hlen : (uploadRound .allow).request.body.length = 18 := by decide +kernel
  have hsigns : Signs sampleServices (uploadRound .allow).raw
      ⟨(uploadRound .allow).raw, anonymous⟩ (.raw 18) :=
    fun s => Returns.bind (returns_orThrow_of_ok rfl s) rfl
  refine .plain hsigns ?_ rfl (.command .putObject (by decide +kernel) (by decide +kernel) rfl
    (.inr rfl) rfl ⟨"18".toList, 18, by decide +kernel, rfl⟩ fun _ _ _ => rfl)
  rw [hlen]
  exact .raw

theorem listRound_takesAll (s : SocketStream) :
    TakesAll (listRound .allow).answers (listRound .allow).request (listRound .allow).raw s := by
  refine .empty rfl fun sha hsha => ?_
  have hnone : (listRound .allow).raw.optional "x-amz-content-sha256".toList = none := rfl
  rw [hnone] at hsha
  exact absurd hsha (by simp)

theorem samples_taken : AllTaken [uploadRound .allow, listRound .allow]
    (buffered (putHeader ++ getHeader ++ getHeader)) := by
  have hsize : (uploadRound .allow).request.header.length <
      (buffered (putHeader ++ getHeader ++ getHeader)).bufferSize := by decide +kernel
  obtain ⟨_, _, hsame⟩ := (uploadRound_takesAll _).after_handleRequest (uploadRound .allow).formed hsize
    (unread_buffered _)
  refine ⟨⟨hsize, uploadRound_takesAll _⟩, ⟨?_, listRound_takesAll _⟩, trivial⟩
  rw [hsame]
  decide +kernel

end Samples

end UhCore.Entrypoint
