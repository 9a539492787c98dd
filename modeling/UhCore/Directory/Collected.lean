import UhCore.Directory.Writes
import UhCore.Lib.Places

/-!
When a deleted object is unlinked at most once. The number of a row is drawn,
belongs to a row that is not collected, is claimed by a collector or unlinked,
one at a time.
-/

namespace UhCore.Directory

open ReadCommitted Transition Places List Option Session

inductive RowPlace where
  | nowhere
  | drawn (pid : Nat)
  | live
  | claimed (pid : Nat)
  | unlinked
  deriving DecidableEq

def Session.drawn : Session → List Nat
  | .client tx | .removing _ tx | .reference _ _ tx | .releasing _ tx => tx.drawn
  | .nextDeleted tx => tx.drawn
  | .address _ tx | .metadata _ _ tx => tx.drawn
  | .idle | .unlinking _ | .holding _ => []

def Session.Sound : Session → Prop
  | .client tx => tx.Ends fun drawn writes _ => ClientWrites drawn writes
  | .nextDeleted tx => tx.Ends fun _ writes claim =>
    writes = claim.toList.map fun target => .markCollected target.id
  | .removing target tx => tx.Ends fun _ writes _ => writes = [.deleteObject target.id]
  | .address _ tx | .metadata _ _ tx => tx.Ends fun _ writes _ => writes = []
  | .reference _ object tx => tx.Ends fun _ writes _ => writes = [.incReference object.id]
  | .releasing lock tx => tx.Ends fun _ writes _ => writes = [.decReference lock.id]
  | .idle | .unlinking _ | .holding _ => True

structure Placed (w : World) (place : Nat → RowPlace) : Prop where
  fresh : ∀ id, w.nextId ≤ id → place id = .nowhere
  live : ∀ id, LiveIn w.tables id → place id = .live
  sound : ∀ (pid : Nat) session, w.sessions[pid]? = some session → session.Sound
  drawn : ∀ (pid : Nat) session, w.sessions[pid]? = some session →
    ∀ id ∈ session.drawn, place id = .drawn pid
  claimed : ∀ (pid : Nat) target, w.sessions[pid]? = some (.unlinking target) →
    place target.id = .claimed pid
  unlinked : Held place .unlinked (w.unlinks.map ToDelete.id)

def Placeable (w : World) : Prop := ∃ place, Placed w place

/-- No row is unlinked twice. -/
def UnlinkedOnce (w : World) : Prop := ∀ id, (w.unlinks.map ToDelete.id).count id ≤ 1

theorem Placeable.unlinkedOnce {w : World} (h : Placeable w) : UnlinkedOnce w := by
  obtain ⟨place, h⟩ := h
  exact nodup_iff_count_le_one.mp h.unlinked.1

theorem placeable_start (versioning : String → Versioning) : Placeable (start versioning) := by
  refine ⟨fun _ => .nowhere, fun _ _ => rfl, ?_, ?_, ?_, ?_, Held.nil⟩
  · rintro id ⟨row, hrow, _⟩
    simp [start] at hrow
  · intro pid session h
    simp [start] at h
  · intro pid session h
    simp [start] at h
  · intro pid target h
    simp [start] at h

section Steps

variable {w w' : World} {place place' : Nat → RowPlace} {pid : Nat} {session : Session}

theorem getElem?_set_cases {sessions : List Session} {q : Nat} {other : Session}
    (h : (sessions.set pid session)[q]? = some other) :
    q = pid ∧ other = session ∨ q ≠ pid ∧ sessions[q]? = some other := by
  rw [getElem?_set] at h
  split at h
  case isTrue heq =>
    split at h
    · exact Or.inl ⟨heq.symm, (some.inj h).symm⟩
    · cases h
  case isFalse hne => exact Or.inr ⟨fun heq => hne heq.symm, h⟩

/-- A step of one session: the numbers of the others stay where they are. -/
theorem Placed.update (h : Placed w place)
    (hsessions : w'.sessions = w.sessions.set pid session) (hunlinks : w'.unlinks = w.unlinks)
    (hothers : ∀ q, q ≠ pid → ∀ id, place id = .drawn q → place' id = .drawn q)
    (hclaims : ∀ q, q ≠ pid → ∀ id, place id = .claimed q → place' id = .claimed q)
    (hfinal : ∀ id, place id = .unlinked → place' id = .unlinked)
    (hfresh : ∀ id, w'.nextId ≤ id → place' id = .nowhere)
    (hlive : ∀ id, LiveIn w'.tables id → place' id = .live)
    (hsound : session.Sound) (hdrawn : ∀ id ∈ session.drawn, place' id = .drawn pid)
    (hclaimed : ∀ target, session = .unlinking target → place' target.id = .claimed pid) :
    Placed w' place' where
  fresh := hfresh
  live := hlive
  sound q other hq := by
    rw [hsessions] at hq
    rcases getElem?_set_cases hq with ⟨_, rfl⟩ | ⟨_, hold⟩
    · exact hsound
    · exact h.sound q other hold
  drawn q other hq id hid := by
    rw [hsessions] at hq
    rcases getElem?_set_cases hq with ⟨rfl, rfl⟩ | ⟨hne, hold⟩
    · exact hdrawn id hid
    · exact hothers q hne id (h.drawn q other hold id hid)
  claimed q target hq := by
    rw [hsessions] at hq
    rcases getElem?_set_cases hq with ⟨rfl, heq⟩ | ⟨hne, hold⟩
    · exact hclaimed target heq.symm
    · exact hclaims q hne target.id (h.claimed q target hold)
  unlinked := by
    rw [hunlinks]
    exact h.unlinked.mono hfinal

theorem Placed.commit (h : Placed w place) {tables : Tables}
    (hlive : ∀ id, LiveIn tables id → LiveIn w.tables id) (hsound : session.Sound)
    (hdrawn : ∀ id ∈ session.drawn, place id = .drawn pid)
    (hclaimed : ∀ target, session ≠ .unlinking target) :
    Placed { w with tables := tables, sessions := w.sessions.set pid session } place :=
  h.update rfl rfl (fun _ _ _ hid => hid) (fun _ _ _ hid => hid) (fun _ hid => hid) h.fresh
    (fun id hid => h.live id (hlive id hid)) hsound hdrawn
    fun target heq => absurd heq (hclaimed target)

theorem Placed.set (h : Placed w place) (hsound : session.Sound)
    (hdrawn : ∀ id ∈ session.drawn, place id = .drawn pid)
    (hclaimed : ∀ target, session ≠ .unlinking target) : Placed (w.set pid session) place :=
  h.commit (fun _ hid => hid) hsound hdrawn hclaimed

variable {choice : Nat} {α : Type} {tx : Transaction Tables Write α}
  {resume : Transaction Tables Write α → Session} {finish : α → Session}

/-- A statement of a transaction, given what its commit does. -/
theorem Placed.run {Q : List Nat → List Write → α → Prop} (h : Placed w place)
    (hsess : w.sessions[pid]? = some (resume tx)) (hdrawn : ∀ tx, (resume tx).drawn = tx.drawn)
    (hsound : ∀ tx, (resume tx).Sound ↔ tx.Ends Q)
    (hresume : ∀ tx target, resume tx ≠ .unlinking target)
    (hcommit : ∀ tables result, Q tx.drawn tx.writes result → tx.result = some result →
      Transaction.applyWrites Tables.apply w.tables tx.writes = some tables →
      Placeable { w with tables := tables, sessions := w.sessions.set pid (finish result) }) :
    Placeable (w.run pid choice tx resume finish) := by
  have hends : tx.Ends Q := (hsound tx).mp (h.sound pid _ hsess)
  have hown : ∀ id ∈ tx.drawn, place id = .drawn pid := by
    intro id hid
    exact h.drawn pid _ hsess id (by rwa [hdrawn])
  unfold World.run
  split
  case h_1 next tx' hstep =>
    obtain ⟨hends', hseq⟩ := hends.running hstep
    rcases hseq with ⟨rfl, hsame⟩ | ⟨rfl, hlist⟩
    · refine ⟨place, h.update rfl rfl (fun _ _ _ hid => hid) (fun _ _ _ hid => hid)
        (fun _ hid => hid) h.fresh h.live ((hsound tx').mpr hends') ?_ fun target heq => absurd heq (hresume tx' target)⟩
      rw [hdrawn, hsame]
      exact hown
    · have hnew : ∀ id ∈ [w.nextId], place id = .nowhere :=
        forall_mem_singleton.mpr (h.fresh _ le_rfl)
      refine ⟨moved place [w.nextId] (.drawn pid), h.update rfl rfl
        (fun _ _ => moved_kept hnew (by simp)) (fun _ _ => moved_kept hnew (by simp))
        (moved_kept hnew (by simp)) ?_ ?_ ((hsound tx').mpr hends') ?_
        fun target heq => absurd heq (hresume tx' target)⟩
      · intro id hid
        have hlt : w.nextId + 1 ≤ id := hid
        rw [moved_of_not_mem (by simp only [mem_singleton]; omega)]
        exact h.fresh id (by omega)
      · exact fun id hid => moved_kept hnew (by simp) id (h.live id hid)
      · rw [hdrawn, hlist]
        exact forall_mem_cons.mpr ⟨moved_of_mem (by simp),
          fun id hid => moved_kept hnew (by simp) id (hown id hid)⟩
  case h_2 tables result hstep =>
    obtain ⟨hQ, hdone, happly⟩ := hends.committed hstep
    exact hcommit tables result hQ hdone happly
  case h_3 =>
    exact ⟨place, h.set trivial (by simp [Session.drawn]) (by simp)⟩

theorem Placed.client (h : Placed w place) {tx : Transaction Tables Write Unit}
    (hsess : w.sessions[pid]? = some (.client tx))
    (hok : tx.result.isSome = true → ∀ write ∈ tx.writes, write.SparesCollected w.tables) :
    Placeable (w.run pid choice tx .client fun _ => .idle) := by
  refine h.run hsess (fun _ => rfl) (fun _ => Iff.rfl) (by simp) ?_
  intro tables _ hwrs hdone happly
  have hown : ∀ id ∈ tx.drawn, place id = .drawn pid := h.drawn pid _ hsess
  refine ⟨moved place tx.drawn .live, h.update rfl rfl
    (fun q hq => moved_kept hown (by simpa using hq)) (fun _ _ => moved_kept hown (by simp))
    (moved_kept hown (by simp)) ?_ ?_ trivial (by simp [Session.drawn]) (by simp)⟩
  · exact fun id hid => moved_kept hown (by simp) id (h.fresh id hid)
  · intro id hid
    rcases hid.of_commit hwrs (hok (by simp [hdone])) happly with hlive | hdrawn
    · exact moved_kept hown (by simp) id (h.live id hlive)
    · exact moved_of_mem hdrawn

theorem Placed.nextDeleted (h : Placed w place) {tx : Transaction Tables Write (Option ToDelete)}
    (hsess : w.sessions[pid]? = some (.nextDeleted tx))
    (hok : tx.result.isSome = true → ∀ write ∈ tx.writes, write.ClaimsDeleted w.tables) :
    Placeable (w.run pid choice tx .nextDeleted .claimed) := by
  refine h.run hsess (fun _ => rfl) (fun _ => Iff.rfl) (by simp) ?_
  intro tables claim hwrs hdone happly
  cases claim with
  | none =>
    rw [hwrs] at happly
    cases happly
    exact ⟨place, h.set trivial (by simp [Session.claimed, Session.drawn])
      (by simp [Session.claimed])⟩
  | some target =>
    have hclaim := hok (by simp [hdone]) (.markCollected target.id) (by simp [hwrs])
    obtain ⟨row, hrow, hdel⟩ := hclaim
    have hrow' : ∀ id ∈ [target.id], place id = .live :=
      forall_mem_singleton.mpr (h.live _ ⟨row, hrow, by simp [hdel]⟩)
    rw [hwrs] at happly
    obtain ⟨mid, hmid, hrest⟩ := bind_eq_some_iff.mp happly
    cases hrest
    refine ⟨moved place [target.id] (.claimed pid), h.update rfl rfl
      (fun _ _ => moved_kept hrow' (by simp)) (fun _ _ => moved_kept hrow' (by simp))
      (moved_kept hrow' (by simp)) ?_ ?_ trivial (by simp [Session.claimed, Session.drawn]) ?_⟩
    · exact fun id hid => moved_kept hrow' (by simp) id (h.fresh id hid)
    · intro id hid
      have hne : id ∉ [target.id] := by
        intro hmem
        rw [mem_singleton.mp hmem] at hid
        exact not_liveIn_markCollected hmid hid
      rcases hid.of_apply hmid trivial with hlive | ⟨_, heq⟩
      · rw [moved_of_not_mem hne]
        exact h.live id hlive
      · cases heq
    · intro other heq
      obtain rfl := unlinking.inj heq
      exact moved_of_mem (by simp)

theorem Placed.other {writes : List Write} (h : Placed w place)
    (hsess : w.sessions[pid]? = some (resume tx)) (hdrawn : ∀ tx, (resume tx).drawn = tx.drawn)
    (hsound : ∀ tx, (resume tx).Sound ↔ tx.Ends fun _ ws _ => ws = writes)
    (hresume : ∀ tx target, resume tx ≠ .unlinking target)
    (hquiet : ∀ write ∈ writes, write.isQuiet = true)
    (hfin : ∀ result, (finish result).Sound ∧ (finish result).drawn = [] ∧
      ∀ target, finish result ≠ .unlinking target) :
    Placeable (w.run pid choice tx resume finish) := by
  apply h.run hsess hdrawn hsound hresume
  intro tables result heq _ happly
  obtain ⟨hfsound, hfdrawn, hfclaimed⟩ := hfin result
  rw [heq] at happly
  exact ⟨place, h.commit (fun _ hid => hid.of_quiet hquiet happly) hfsound (by simp [hfdrawn])
    hfclaimed⟩

/-- Unlinking is final for the number of the row. -/
theorem Placed.unlink (h : Placed w place) {target : ToDelete}
    (hsess : w.sessions[pid]? = some (.unlinking target)) :
    Placeable (w.unlink pid target) := by
  have hclaimed := h.claimed pid target hsess
  have hown : ∀ id ∈ [target.id], place id = .claimed pid := forall_mem_singleton.mpr hclaimed
  have hplace : Placed (w.set pid (.removing target (.start (vrmDeleteObjectById target.id))))
      (moved place [target.id] .unlinked) := by
    refine h.update rfl rfl (fun _ _ => moved_kept hown (by simp))
      (fun q hq => moved_kept hown (by simpa using hq)) (moved_kept hown (by simp)) ?_ ?_ rfl
      (by simp [Session.drawn, Transaction.start]) (by simp)
    · exact fun id hid => moved_kept hown (by simp) id (h.fresh id hid)
    · exact fun id hid => moved_kept hown (by simp) id (h.live id hid)
  refine ⟨moved place [target.id] .unlinked, hplace.fresh, hplace.live, hplace.sound,
    hplace.drawn, hplace.claimed, ?_, ?_⟩
  · rw [World.unlink, map_append, List.nodup_append]
    refine ⟨h.unlinked.1, by simp, ?_⟩
    rintro id hid _ hmem rfl
    rw [map_singleton, mem_singleton] at hmem
    have hunlink := h.unlinked.2 id hid
    rw [hmem, hclaimed] at hunlink
    cases hunlink
  · intro id hid
    rw [World.unlink, map_append] at hid
    rcases mem_append.mp hid with hid | hid
    · exact moved_kept hown (by simp) id (h.unlinked.2 id hid)
    · exact moved_of_mem hid

end Steps

/-- A claim finds its row still deleted, and no client writes a collected
row. -/
def ClaimsHold (w : World) : Action → Prop
  | .step pid _ =>
    match w.sessions[pid]? with
    | some (.client tx) =>
      tx.result.isSome = true → ∀ write ∈ tx.writes, write.SparesCollected w.tables
    | some (.nextDeleted tx) =>
      tx.result.isSome = true → ∀ write ∈ tx.writes, write.ClaimsDeleted w.tables
    | _ => True
  | _ => True

instance (w : World) (action : Action) : Decidable (ClaimsHold w action) := by
  cases action
  case step pid choice =>
    unfold ClaimsHold
    dsimp only
    split <;> infer_instance
  all_goals exact inferInstanceAs (Decidable True)

theorem Placeable.advance {w w' : World} {pid choice : Nat} (h : Placeable w)
    (hok : ClaimsHold w (.step pid choice)) (hstep : w.advance pid choice = some w') :
    Placeable w' := by
  obtain ⟨place, h⟩ := h
  cases hsess : w.sessions[pid]? with
  | none => simp [World.advance, hsess] at hstep
  | some session =>
    simp only [World.advance, hsess] at hstep
    simp only [ClaimsHold, hsess] at hok
    cases session with
    | idle | holding lock => cases hstep
    | client tx =>
      cases hstep
      exact h.client hsess hok
    | nextDeleted tx =>
      cases hstep
      exact h.nextDeleted hsess hok
    | unlinking target =>
      cases hstep
      exact h.unlink hsess
    | address query tx =>
      cases hstep
      refine h.other hsess (fun _ => rfl) (fun _ => Iff.rfl) (by simp) (by simp) ?_
      intro result
      cases result with
      | none => exact ⟨trivial, rfl, by simp [found]⟩
      | some source => exact ⟨query.ends, rfl, by simp [found]⟩
    | metadata query source tx =>
      cases hstep
      refine h.other hsess (fun _ => rfl) (fun _ => Iff.rfl) (by simp) (by simp) ?_
      intro result
      cases result with
      | none => exact ⟨trivial, rfl, by simp [described]⟩
      | some object =>
        exact ⟨vrmIncReference_ends object.id, rfl, by simp [described]⟩
    | removing target tx | reference source object tx | releasing lock tx =>
      cases hstep
      exact h.other hsess (fun _ => rfl) (fun _ => Iff.rfl) (by simp)
        (by simp [Write.isQuiet]) fun _ => ⟨trivial, rfl, by simp⟩

theorem getElem?_connect {sessions : List Session} {pid : Nat} {session : Session}
    (h : (sessions ++ [idle])[pid]? = some session) :
    sessions[pid]? = some session ∨ session = .idle := by
  rw [getElem?_append] at h
  split at h
  · exact Or.inl h
  · exact Or.inr (mem_singleton.mp (mem_of_getElem? h))

theorem Placed.connect {w : World} {place : Nat → RowPlace} (h : Placed w place) :
    Placed { w with sessions := w.sessions ++ [.idle] } place := by
  refine ⟨h.fresh, h.live, ?_, ?_, ?_, h.unlinked⟩
  · intro pid session hsess
    rcases getElem?_connect hsess with hsess | rfl
    · exact h.sound pid session hsess
    · trivial
  · intro pid session hsess id hid
    rcases getElem?_connect hsess with hsess | rfl
    · exact h.drawn pid session hsess id hid
    · cases hid
  · intro pid target hsess
    rcases getElem?_connect hsess with hsess | heq
    · exact h.claimed pid target hsess
    · cases heq

theorem Placeable.begin {w w' : World} {pid : Nat} {session : Session} (h : Placeable w)
    (hstep : w.begin pid session = some w') (hsound : session.Sound)
    (hdrawn : session.drawn = []) (hclaimed : ∀ target, session ≠ .unlinking target) :
    Placeable w' := by
  obtain ⟨place, h⟩ := h
  revert hstep
  fun_cases w.begin pid session <;> intro hstep <;> cases hstep
  exact ⟨place, h.set hsound (by simp [hdrawn]) hclaimed⟩

theorem Placeable.step {w w' : World} {action : Action} (h : Placeable w)
    (hok : ClaimsHold w action) (hnext : next w action = some w') : Placeable w' := by
  cases action with
  | connect =>
    obtain ⟨place, h⟩ := h
    cases hnext
    exact ⟨place, h.connect⟩
  | request pid request => exact h.begin hnext request.ends rfl (by simp)
  | collect pid => exact h.begin hnext vrmNextDeleted_ends rfl (by simp)
  | getObject pid query => exact h.begin hnext query.ends rfl (by simp)
  | release pid =>
    obtain ⟨place, h⟩ := h
    simp only [next] at hnext
    split at hnext
    case h_1 lock _ =>
      cases hnext
      exact ⟨place, h.set (vrmDecReference_ends lock.id)
        (by simp [drawn, Transaction.start]) (by simp)⟩
    case h_2 => cases hnext
  | step pid choice => exact h.advance hok hnext
  | crash pid =>
    obtain ⟨place, h⟩ := h
    simp only [next] at hnext
    split at hnext
    case h_4 =>
      cases hnext
      exact ⟨place, h.set trivial (by simp [drawn]) (by simp)⟩
    all_goals cases hnext

/-- In every run in which each claim finds its row still deleted and no client
writes a collected row, every row is unlinked at most once. -/
theorem deleted_objects_unlinked_once (versioning : String → Versioning) (w : World)
    (h : Reachable next ClaimsHold (start versioning) w) : UnlinkedOnce w :=
  (h.invariant (placeable_start versioning) fun _ _ _ => Placeable.step).unlinkedOnce

def putAndDelete : List Action :=
  .connect :: .request 0 (.putObject "bucket" "key" [1] 1 none) :: List.replicate 6 (.step 0 0) ++
    .request 0 (.deleteObject "bucket" "key") :: List.replicate 5 (.step 0 0)

theorem deleted_objects_unlinked_once_sample :
    ∃ w, (Reachable next ClaimsHold (start fun _ => .disabled) w ∧
      w.unlinks = [⟨0, [1]⟩] ∧ w.tables.objects.entries = []) ∧ UnlinkedOnce w :=
  exists_and_sample (putAndDelete ++ .collect 0 :: List.replicate 6 (.step 0 0))
    (by decide +kernel) fun w hreach _ => deleted_objects_unlinked_once _ w hreach

/-- A row is collected before it is unlinked, and what a collector is about to
unlink no other one is, nor was it unlinked before. -/
def Settled (w : World) : Prop :=
  (∀ id ∈ w.unlinks.map ToDelete.id, ¬ LiveIn w.tables id) ∧
    ∀ (pid : Nat) target, w.sessions[pid]? = some (.unlinking target) →
      ¬ LiveIn w.tables target.id ∧ target.id ∉ w.unlinks.map ToDelete.id ∧
      ∀ (pid' : Nat) target', w.sessions[pid']? = some (.unlinking target') →
        target'.id = target.id → pid' = pid

theorem collected_rows_settled (versioning : String → Versioning) (w : World)
    (h : Reachable next ClaimsHold (start versioning) w) : Settled w := by
  obtain ⟨place, hplaced⟩ := h.invariant (placeable_start versioning) fun _ _ _ => Placeable.step
  refine ⟨fun id hid hlive => ?_, fun pid target hpid => ⟨fun hlive => ?_, fun hid => ?_, ?_⟩⟩
  · cases (hplaced.live id hlive).symm.trans (hplaced.unlinked.2 id hid)
  · cases (hplaced.live _ hlive).symm.trans (hplaced.claimed pid target hpid)
  · cases (hplaced.claimed pid target hpid).symm.trans (hplaced.unlinked.2 _ hid)
  · intro pid' target' hpid' hid
    have hplace := hplaced.claimed pid' target' hpid'
    rw [hid, hplaced.claimed pid target hpid] at hplace
    cases hplace
    rfl

theorem collected_rows_settled_claimed :
    ∃ w, (Reachable next ClaimsHold (start fun _ => .disabled) w ∧
      w.sessions.any (fun session => session matches .unlinking ⟨0, [1]⟩) = true) ∧ Settled w :=
  exists_and_sample (putAndDelete ++ .collect 0 :: List.replicate 3 (.step 0 0))
    (by decide +kernel) fun w hreach _ => collected_rows_settled _ w hreach

/-- Two collectors select the deleted row before either has claimed it. -/
def doubleClaim : List Action :=
  putAndDelete ++ [.connect, .collect 0, .collect 1, .step 0 0, .step 1 0, .step 0 0, .step 0 0,
    .step 0 0, .step 1 0, .step 1 0, .step 1 0]

/-- Both collectors then unlink the address of the row. -/
theorem two_collectors_unlink_one_row :
    ¬ ∀ versioning w, Reachable next (fun _ _ => True) (start versioning) w → UnlinkedOnce w := by
  intro hall
  obtain ⟨w, honce, hw⟩ := exists_of_forall (hall fun _ => .disabled)
    (fun w => w.unlinks = [⟨0, [1]⟩, ⟨0, [1]⟩]) doubleClaim (by decide +kernel)
  have hcount := honce 0
  simp [hw] at hcount

end UhCore.Directory
