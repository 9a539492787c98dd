import UhCore.Lib.Transition
import UhCore.Network.StorageHandler

/-!
One connection between a client and the storage handler, with callers that take
its messenger from the pool one after the other. As long as requests are framed
and no caller is cancelled, the connection is clean between two calls.
-/

namespace UhCore.Network

open Effects List Network

section Connections

variable {σ : Type}

/-- A connection, with who holds its messenger, the requests that were sent, and the
replies, each with the place at which the header of its request was read. -/
structure Conn (σ : Type) where
  server : Server σ
  client : Side
  caller : Option Request
  sent : List Request
  replies : List (Nat × List UInt8)
  serverRead : Nat
  clientRead : Nat
  undefined : Bool

def Conn.initial (s : σ) : Conn σ := ⟨⟨⟨0, []⟩, s⟩, ⟨0, []⟩, none, [], [], 0, 0, false⟩

inductive Action where
  | send (ctx : Context) (req : Request)
  | serve (ctx : Context)
  | receive
  | cancel

/-- Only a messenger in the pool is taken. Returning, an exception and a cancellation
all put it back. -/
def step (st : LocalStorage σ) (c : Conn σ) : Action → Option (Conn σ)
  | .send ctx req =>
    match c.caller with
    | some _ => none
    | none => some { c with
        server.side.input := c.server.side.input ++ req.frame ctx
        caller := some req
        sent := c.sent ++ [req] }
  | .serve ctx =>
    match c.server.iterate st ctx with
    | .waits => none
    | .undefined => some { c with undefined := true }
    | .replied server reply => some { c with
        server := server
        client.input := c.client.input ++ reply
        replies := c.replies ++ [(c.serverRead, reply)]
        serverRead := c.serverRead + (c.server.side.input.length - server.side.input.length) }
  | .receive =>
    match c.caller with
    | none => none
    | some req =>
      match run (recvReply req) c.client with
      | (.error .waits, _) => none
      | (.error .undefined, _) => some { c with undefined := true }
      | (_, side) => some { c with
          client := side
          caller := none
          clientRead := c.clientRead + (c.client.input.length - side.input.length) }
  | .cancel =>
    match c.caller with
    | none => none
    | some _ => some { c with caller := none }

/-- The place of the header of a request. -/
def offset (sent : List Request) (n : Nat) : Nat :=
  ((sent.take n).map fun req => headerLength + req.payload.length).sum

/-- A header is read at the first byte behind the request before, and a caller reads
the reply to the request that was sent last, which is its own. -/
def Safe (c : Conn σ) : Action → Prop
  | .serve _ => c.serverRead = offset c.sent c.replies.length
  | .receive => ∃ k reply, c.replies[k]? = some (offset c.sent (c.sent.length - 1), reply) ∧
      c.clientRead = ((c.replies.take k).map fun r => r.2.length).sum
  | _ => True

/-- The condition on a step: requests are framed, and no caller is cancelled. -/
def Orderly (_ : Conn σ) : Action → Prop
  | .send _ req => req.Framed
  | .cancel => False
  | _ => True

instance (c : Conn σ) : ∀ a, Decidable (Orderly c a)
  | .send _ req => inferInstanceAs (Decidable req.Framed)
  | .serve _ => isTrue trivial
  | .receive => isTrue trivial
  | .cancel => isFalse id

section Clean

variable {st : LocalStorage σ} {c c' : Conn σ} {sent : List Request} {n : Nat} {req : Request}
  {ctx : Context} {a : Action}

def replyBytes (replies : List (Nat × List UInt8)) : Nat := (replies.map fun r => r.2.length).sum

/-- How far the call of the moment is. -/
inductive Phase (c : Conn σ) : Prop where
  | idle : c.caller = none → c.server.side.input = [] → c.client.input = [] →
      c.sent.length = c.replies.length → c.clientRead = replyBytes c.replies → Phase c
  | asked {req : Request} {ctx : Context} : c.caller = some req → req.Framed →
      c.server.side.input = req.frame ctx → c.client.input = [] →
      c.sent.length = c.replies.length + 1 → c.sent.getLast? = some req →
      c.clientRead = replyBytes c.replies → Phase c
  | answered {req : Request} {place : Nat} {reply : List UInt8} {before : List (Nat × List UInt8)} :
      c.caller = some req → c.server.side.input = [] → c.client.input = reply →
      Answers req reply → c.sent.length = c.replies.length →
      c.replies = before ++ [(place, reply)] → c.clientRead = replyBytes before → Phase c

structure Clean (c : Conn σ) : Prop where
  server : c.server.side.readSize = 0
  client : c.client.readSize = 0
  defined : c.undefined = false
  serverRead : c.serverRead = offset c.sent c.replies.length
  places : ∀ k place reply, c.replies[k]? = some (place, reply) → place = offset c.sent k
  phase : Phase c

theorem clean_initial (s : σ) : Clean (Conn.initial s) :=
  ⟨rfl, rfl, rfl, rfl, fun _ _ _ h => absurd h (by simp [Conn.initial]),
    Phase.idle rfl rfl rfl rfl rfl⟩

theorem offset_append (h : n ≤ sent.length) (req : Request) :
    offset (sent ++ [req]) n = offset sent n := by
  rw [offset, offset, take_append_of_le_length h]

theorem offset_succ (hlen : sent.length = n + 1) (hlast : sent.getLast? = some req) :
    offset sent (n + 1) = offset sent n + (headerLength + req.payload.length) := by
  obtain ⟨front, rfl⟩ := getLast?_eq_some_iff.mp hlast
  have hn : front.length = n := by simpa using hlen
  subst hn
  rw [offset_append (le_refl _), offset, offset, take_of_length_le (by simp),
    take_of_length_le (le_refl _), map_append, List.sum_append]
  simp

theorem length_frame (ctx : Context) (req : Request) :
    (req.frame ctx).length = headerLength + req.payload.length := by
  simp only [Request.frame, frame, length_append, length_cons, Wire.length_le,
    ctx.length, headerLength]
  omega

theorem Clean.send (h : Clean c) (hframe : req.Framed) (hstep : step st c
    (.send ctx req) = some c') : Clean c' := by
  cases h.phase with
  | idle hcaller hserver hclient hcount hread =>
    simp only [step, hcaller, Option.some.injEq] at hstep
    subst hstep
    refine ⟨h.server, h.client, h.defined, ?_, fun k place reply hk => ?_, ?_⟩
    · rw [h.serverRead, offset_append hcount.symm.le]
    · have hlt : k < c.replies.length := (List.getElem?_eq_some_iff.mp hk).1
      rw [h.places k place reply hk, offset_append (by omega)]
    · exact Phase.asked rfl hframe (by rw [hserver, nil_append]) hclient (by simp [hcount])
        (by simp) hread
  | asked hcaller => simp [step, hcaller] at hstep
  | answered hcaller => simp [step, hcaller] at hstep

theorem iterate_nil {srv : Server σ} (h : srv.side.input = []) : srv.iterate st ctx = .waits := by
  have hhead : run recvHeader srv.side = (.error .waits, srv.side) := by
    simp only [recvHeader, run_bind, readBytes, run_act, h]
    rfl
  simp only [Server.iterate, run_bind, hhead]

theorem Clean.serve (hst : st.Sized) (h : Clean c) (hstep : step st c (.serve ctx) = some c') :
    Clean c' := by
  cases h.phase with
  | idle hcaller hserver => simp [step, iterate_nil hserver] at hstep
  | answered hcaller hserver => simp [step, iterate_nil hserver] at hstep
  | @asked req ctx' hcaller hframe hserver hclient hcount hlast hread =>
    obtain ⟨s', reply, hiterate, hanswers⟩ := iterate_framed hst hframe ctx' ctx [] c.server.storage
    have hside : c.server = ⟨⟨0, req.frame ctx' ++ []⟩, c.server.storage⟩ := by
      rw [append_nil, ← hserver, ← h.server]
    rw [← hside] at hiterate
    simp only [step, hiterate, Option.some.injEq] at hstep
    subst hstep
    refine ⟨rfl, h.client, h.defined, ?_, fun k place reply' hk => ?_, ?_⟩
    · have hread' : c.serverRead + (c.server.side.input.length - 0) =
          offset c.sent (c.replies.length + 1) := by
        rw [offset_succ hcount hlast, h.serverRead, hserver, length_frame, Nat.sub_zero]
      simpa using hread'
    · rcases Nat.lt_or_ge k c.replies.length with hlt | hge
      · rw [getElem?_append_left hlt] at hk
        exact h.places k place reply' hk
      · have hk' : k = c.replies.length := by
          have hlt := (List.getElem?_eq_some_iff.mp hk).1
          simp only [length_append, length_singleton] at hlt
          omega
        subst hk'
        simp only [getElem?_concat_length, Option.some.injEq, Prod.mk.injEq] at hk
        rw [← hk.1, h.serverRead]
    · apply Phase.answered
      · exact hcaller
      · rfl
      · rw [hclient, nil_append]
      · exact hanswers
      · simp [hcount]
      · rfl
      · exact hread

theorem recvReply_nil {side : Side} (h : side.input = []) (req : Request) :
    run (recvReply req) side = (.error .waits, side) := by
  simp only [recvReply, recvHeader, run_bind, readBytes, run_act, h]
  rfl

theorem Clean.receive (h : Clean c) (hstep : step st c .receive = some c') : Clean c' := by
  cases h.phase with
  | idle hcaller => simp [step, hcaller] at hstep
  | @asked req ctx hcaller hframe hserver hclient =>
    simp [step, hcaller, recvReply_nil hclient] at hstep
  | @answered req place reply before hcaller hserver hclient hanswers hcount hreplies hread =>
    obtain ⟨result, hrun, hwaits, hundefined⟩ := hanswers.run_recvReply []
    have hside : c.client = ⟨0, reply ++ []⟩ := by
      rw [append_nil, ← hclient, ← h.client]
    rw [← hside] at hrun
    simp only [step, hcaller, hrun, Option.some.injEq] at hstep
    subst hstep
    refine ⟨h.server, rfl, h.defined, h.serverRead, h.places, ?_⟩
    apply Phase.idle
    · rfl
    · exact hserver
    · rfl
    · exact hcount
    · simp only [hclient, hread, hreplies, replyBytes, map_append, List.sum_append]
      simp

theorem Clean.step (hst : st.Sized) (h : Clean c) (hok : Orderly c a)
    (hstep : step st c a = some c') : Clean c' := by
  cases a with
  | send ctx req => exact h.send hok hstep
  | serve ctx => exact h.serve hst hstep
  | receive => exact h.receive hstep
  | cancel => exact hok.elim

theorem Clean.safe (h : Clean c) (hstep : Network.step st c a = some c') : Safe c a := by
  cases a with
  | send ctx req => trivial
  | serve ctx => exact h.serverRead
  | receive =>
    cases h.phase with
    | idle hcaller => simp [Network.step, hcaller] at hstep
    | @asked req ctx hcaller hframe hserver hclient =>
      simp [Network.step, hcaller, recvReply_nil hclient] at hstep
    | @answered req place reply before hcaller hserver hclient hanswers hcount hreplies hread =>
      have hlast : c.replies[before.length]? = some (place, reply) := by
        simp [hreplies]
      have hplace := h.places before.length place reply hlast
      have hlen : c.sent.length - 1 = before.length := by
        rw [hcount, hreplies]
        simp
      refine ⟨before.length, reply, ?_, ?_⟩
      · rw [hlast, hlen, hplace]
      · rw [hread, hreplies, take_left, replyBytes]
  | cancel => trivial

/-- Along every run of framed requests without cancellations a header is read where a
request starts, and every caller reads the reply to its own request. -/
theorem replies_belong (hst : st.Sized) {s : σ} {a : Action}
    (hreach : Transition.Reachable (step st) Orderly (Conn.initial s) c)
    (hok : Orderly c a) (hstep : step st c a = some c') :
    Safe c a ∧ c'.undefined = false := by
  have hclean : Clean c := Transition.Reachable.invariant (clean_initial s)
    (fun _ _ _ h hok hstep => h.step hst hok hstep) hreach
  exact ⟨hclean.safe hstep, (hclean.step hst hok hstep).defined⟩

end Clean

section Sample

def sampleContext : Context := ⟨List.replicate 55 0, rfl⟩

/-- A storage that has nothing. -/
def sampleStorage : LocalStorage Unit where
  write _ s := (.ok (), s)
  read _ s := (.ok [7], s)
  readAddress _ s := (.ok fun _ => 0, s)
  link _ s := (.ok [], s)
  unlink _ s := (.ok 0, s)
  getRefcounts _ s := (.ok [], s)
  getUsedSpace s := (.ok 5, s)
  allocate _ s := (.ok ⟨0, 0⟩, s)

def sampleUsed : Request := ⟨typeUsed, [], by decide⟩

def sampleRead : Request := ⟨typeRead, List.replicate 32 0, by decide⟩

def sampleUnknown : Request := ⟨64, [0], by decide⟩

theorem sampleStorage_sized : sampleStorage.Sized := by
  intro type payload s
  have hwin : ∀ f : Nat → UInt8, (Bytes.window f 0 (dataSize payload)).length < 2 ^ 64 := by
    intro f
    rw [Bytes.length_window]
    exact Words.wrap_lt 64 _
  simp only [LocalStorage.answer, sampleStorage, Prod.map, Except.map]
  split_ifs
  all_goals first
    | exact hwin _
    | simp [refcountBytes, allocationBytes]

/-- The states that calls on a new connection reach. -/
def SampleReach (ok : Conn Unit → Action → Prop) : Conn Unit → Prop :=
  Transition.Reachable (step sampleStorage) ok (Conn.initial ())

/-- A call on a clean connection, up to the read of its reply. -/
theorem replies_belong_sample : ∃ c c', step sampleStorage c .receive = some c' ∧
    Safe c .receive ∧ c'.undefined = false := by
  have hreaches : ∃ c, SampleReach Orderly c ∧
      (step sampleStorage c .receive).isSome = true :=
    Transition.exists_reachable_of_runWhile _
      [.send sampleContext sampleUsed, .serve sampleContext] (by decide +kernel)
  obtain ⟨c, hreach, hsome⟩ := hreaches
  obtain ⟨c', hstep⟩ := Option.isSome_iff_exists.mp hsome
  exact ⟨c, c', hstep, replies_belong sampleStorage_sized hreach trivial hstep⟩

/-- The caller behind one that was cancelled reads the reply to the request of that
one. Behind a request of an unknown type its payload is read as a header. -/
theorem replies_of_others :
    (∃ c, SampleReach (fun _ _ => True) c ∧
      (step sampleStorage c .receive).isSome ∧ ¬ Safe c .receive) ∧
    ∃ c, SampleReach (fun _ _ => True) c ∧
      (step sampleStorage c (.serve sampleContext)).isSome ∧
      ¬ Safe c (.serve sampleContext) := by
  constructor
  · have hreaches : ∃ c, SampleReach (fun _ _ => True) c ∧
        (step sampleStorage c .receive).isSome = true ∧
          ∀ r ∈ c.replies, r.1 ≠ offset c.sent (c.sent.length - 1) :=
      Transition.exists_reachable_of_runWhile _
        [.send sampleContext sampleUsed, .cancel, .send sampleContext sampleRead,
          .serve sampleContext] (by decide +kernel)
    obtain ⟨c, hreach, hsome, hplaces⟩ := hreaches
    refine ⟨c, hreach, hsome, ?_⟩
    rintro ⟨k, reply, hk, _⟩
    exact hplaces _ (mem_of_getElem? hk) rfl
  · have hreaches : ∃ c, SampleReach (fun _ _ => True) c ∧
        (step sampleStorage c (.serve sampleContext)).isSome = true ∧
          ¬ c.serverRead = offset c.sent c.replies.length :=
      Transition.exists_reachable_of_runWhile _
        [.send sampleContext sampleUnknown, .serve sampleContext, .receive,
          .send sampleContext sampleUsed] (by decide +kernel)
    exact hreaches

end Sample

end Connections

end UhCore.Network
