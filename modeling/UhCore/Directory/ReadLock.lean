import UhCore.Directory.Collected

/-!
When a read lock protects what it returned. The reference counter of a row is
at least the number of locks on it, and a row with a lock is not collected.
-/

namespace UhCore.Directory

open ReadCommitted Transition Places List Option Session Transaction List

/-- The lock of a session, until `vrm_dec_reference` has run for it. -/
def Session.lock : Session → Option ObjectLock
  | .holding lock | .releasing lock _ => some lock
  | _ => none

def Session.locks (session : Session) (id : Nat) : Bool :=
  session.lock.any fun lock => lock.id == id

/-- What a lock holds is from one row, and that row has not been unlinked. -/
def Protected (w : World) : Prop :=
  ∀ (pid : Nat) session lock, w.sessions[pid]? = some session → session.lock = some lock →
    lock.source = lock.id ∧ lock.source ∉ w.unlinks.map ToDelete.id

structure Guarded (w : World) : Prop where
  described : ∀ (pid : Nat) source object tx,
    w.sessions[pid]? = some (.reference source object tx) → source.id = object.id
  held : ∀ (pid : Nat) session lock, w.sessions[pid]? = some session →
    session.lock = some lock → lock.source = lock.id ∧ LiveIn w.tables lock.id
  counted : ∀ id, w.sessions.countP (fun session => session.locks id) ≤ w.tables.refs id

theorem protected_of_guarded {w : World} (hplaced : Placeable w) (h : Guarded w) : Protected w := by
  obtain ⟨place, hplaced⟩ := hplaced
  intro pid session lock hsess hlock
  obtain ⟨hsrc, hlive⟩ := h.held pid session lock hsess hlock
  refine ⟨hsrc, fun hunlink => ?_⟩
  have hplace := hplaced.live lock.id hlive
  rw [← hsrc, hplaced.unlinked.2 _ hunlink] at hplace
  cases hplace

theorem guarded_start (versioning : String → Versioning) : Guarded (start versioning) where
  described _ _ _ _ h := by simp [start] at h
  held _ _ _ h := by simp [start] at h
  counted id := by simp [start]

section Steps

variable {w w' : World} {pid : Nat} {old session : Session} {lock : ObjectLock}

theorem Guarded.referenced (h : Guarded w) (hsess : w.sessions[pid]? = some session)
    (hlock : session.lock = some lock) : 0 < w.tables.refs lock.id := by
  have hmem : session ∈ w.sessions := mem_of_getElem? hsess
  have hpos : 0 < w.sessions.countP fun session => session.locks lock.id :=
    countP_pos_iff.mpr ⟨session, hmem, by simp [locks, hlock]⟩
  exact lt_of_lt_of_le hpos (h.counted lock.id)

/-- A step of one session: it may drop its own lock or count a new one, and
leaves the rows with references live. -/
theorem Guarded.update (h : Guarded w) (hold : w.sessions[pid]? = some old)
    (hsessions : w'.sessions = w.sessions.set pid session)
    (hrefs : ∀ id, (session.locks id).toNat + w.tables.refs id ≤
      (old.locks id).toNat + w'.tables.refs id)
    (hlive : ∀ id, 0 < w.tables.refs id → LiveIn w.tables id → LiveIn w'.tables id)
    (hdesc : ∀ source object tx, session = .reference source object tx → source.id = object.id)
    (hheld : ∀ lock, session.lock = some lock →
      lock.source = lock.id ∧ LiveIn w'.tables lock.id) : Guarded w' where
  described q source object tx hq := by
    rw [hsessions] at hq
    rcases getElem?_set_cases hq with ⟨_, heq⟩ | ⟨_, hq⟩
    · exact hdesc source object tx heq.symm
    · exact h.described q source object tx hq
  held q other lock hq hlock := by
    rw [hsessions] at hq
    rcases getElem?_set_cases hq with ⟨_, rfl⟩ | ⟨_, hq⟩
    · exact hheld lock hlock
    · obtain ⟨hsrc, hrow⟩ := h.held q other lock hq hlock
      exact ⟨hsrc, hlive lock.id (h.referenced hq hlock) hrow⟩
  counted id := by
    obtain ⟨hlt, hget⟩ := List.getElem?_eq_some_iff.mp hold
    have hcount := h.counted id
    have hpos : (old.locks id).toNat ≤ w.sessions.countP fun session => session.locks id := by
      cases hlocks : old.locks id with
      | false => simp
      | true =>
        exact countP_pos_iff.mpr ⟨old, mem_of_getElem? hold, hlocks⟩
    have hid := hrefs id
    rw [hsessions, countP_set hlt, hget]
    cases hlocks : old.locks id <;> cases hnew : session.locks id <;>
      simp only [hlocks, hnew, Bool.toNat_true, Bool.toNat_false, if_true, Bool.false_eq_true,
        if_false] at hid hpos ⊢ <;> omega

theorem Guarded.set (h : Guarded w) (hold : w.sessions[pid]? = some old)
    (hsessions : w'.sessions = w.sessions.set pid session) (htables : w'.tables = w.tables)
    (hlock : session.lock = none ∨ session.lock = old.lock)
    (hdesc : ∀ source object tx, session = .reference source object tx →
      source.id = object.id) : Guarded w' := by
  refine h.update hold hsessions ?_ ?_ hdesc ?_
  · intro id
    rw [htables]
    rcases hlock with hlock | hlock
    · simp [locks, hlock]
    · simp [locks, hlock]
  · intro id _ hid
    rwa [htables]
  · intro lock hlock'
    rw [htables]
    rcases hlock with hlock | hlock
    · simp [hlock] at hlock'
    · exact h.held pid old lock hold (hlock ▸ hlock')

variable {choice : Nat} {tx : Transaction Tables Write Unit}

theorem Guarded.run {α : Type} {tx : Transaction Tables Write α}
    {resume : Transaction Tables Write α → Session} {finish : α → Session}
    {Q : List Nat → List Write → α → Prop} (h : Guarded w)
    (hsess : w.sessions[pid]? = some (resume tx)) (hends : tx.Ends Q)
    (hresume : ∀ tx', (resume tx').lock = (resume tx).lock)
    (hdesc : ∀ tx' source object tx'', resume tx' = .reference source object tx'' → source.id = object.id)
    (hcommit : ∀ tables result, Q tx.drawn tx.writes result → tx.result = some result → applyWrites Tables.apply w.tables tx.writes = some tables → Guarded { w with tables := tables, sessions := w.sessions.set pid (finish result) })
    : Guarded (w.run pid choice tx resume finish) := by
  unfold World.run
  split
  case h_1 next tx' hstep =>
    exact h.set hsess rfl rfl (Or.inr (hresume tx')) (hdesc tx')
  case h_2 tables result hstep =>
    obtain ⟨hQ, hdone, happly⟩ := hends.committed hstep
    exact hcommit tables result hQ hdone happly
  case h_3 => exact h.set hsess rfl rfl (Or.inl rfl) (by simp)

theorem Guarded.client (h : Guarded w) (hsess : w.sessions[pid]? = some (.client tx))
    (hsound : (client tx).Sound) :
    Guarded (w.run pid choice tx .client fun _ => .idle) := by
  refine h.run hsess hsound (fun _ => rfl) (by simp) ?_
  intro tables _ hwrs _ happly
  obtain ⟨hrefs, hlive⟩ := ClientWrites.keeps hwrs happly
  refine h.update hsess rfl (fun id => ?_) (fun id _ hid => hlive id hid) (by simp)
    (by simp [lock])
  simp [locks, lock, hrefs]

/-- A claim that finds no reference leaves the rows with references alone. -/
theorem Guarded.nextDeleted (h : Guarded w) {tx : Transaction Tables Write (Option ToDelete)}
    (hsess : w.sessions[pid]? = some (.nextDeleted tx)) (hsound : (nextDeleted tx).Sound)
    (hok : tx.result.isSome = true → ∀ write ∈ tx.writes, ∀ id, write = .markCollected id → w.tables.refs id = 0)
    : Guarded (w.run pid choice tx .nextDeleted .claimed) := by
  refine h.run hsess hsound (fun _ => rfl) (by simp) ?_
  intro tables claim hwrs hdone happly
  rw [hwrs] at happly
  cases claim with
  | none =>
    cases happly
    exact h.set hsess rfl rfl (Or.inl rfl) (by simp [claimed])
  | some target =>
    have hzero := hok (by simp [hdone]) _ (by simp [hwrs]) target.id rfl
    simp only [toList_some, map_cons, map_nil, applyWrites_singleton] at happly
    cases happly
    refine h.update hsess rfl (fun id => ?_) ?_ (by simp [claimed])
      (by simp [claimed, lock])
    · simp [locks, lock, claimed]
    · rintro id hpos ⟨row, hrow, hstat⟩
      have hne : id ≠ target.id := fun heq => by simp [heq, hzero] at hpos
      exact ⟨row, by simp only [KeyMap.lookup_modify, hrow, map_some, hne, if_false], hstat⟩

/-- The foreign key keeps the rows with references. -/
theorem Guarded.removing (h : Guarded w) {target : ToDelete}
    (hsess : w.sessions[pid]? = some (.removing target tx))
    (hsound : (removing target tx).Sound) :
    Guarded (w.run pid choice tx (.removing target) fun _ => .idle) := by
  refine h.run hsess hsound (fun _ => rfl) (by simp) ?_
  intro tables _ hwrs _ happly
  rw [hwrs, applyWrites_singleton, Tables.apply] at happly
  split at happly
  case isFalse => cases happly
  case isTrue hzero =>
    cases happly
    refine h.update hsess rfl (fun id => ?_) ?_ (by simp) (by simp [lock])
    · simp [locks, lock]
    · rintro id hpos ⟨row, hrow, hstat⟩
      have hne : id ≠ target.id := fun heq => by simp [heq, hzero] at hpos
      exact ⟨row, by simp only [KeyMap.lookup_erase, hne, if_false, hrow], hstat⟩

theorem Guarded.reference (h : Guarded w) {source object : ObjectResult}
    (hsess : w.sessions[pid]? = some (.reference source object tx))
    (hsound : (reference source object tx).Sound)
    (hok : tx.result.isSome = true → ∀ row ∈ w.tables.objects.lookup object.id, row.status ≠ .collected)
    : Guarded (w.run pid choice tx (.reference source object) fun _ =>
      .holding (.of source object)) := by
  have hsame := h.described pid source object tx hsess
  refine h.run hsess hsound (fun _ => rfl) ?_ ?_
  · intro _ source' object' _ heq
    obtain ⟨rfl, rfl, _⟩ := reference.inj heq
    exact hsame
  · intro tables _ hwrs hdone happly
    rw [hwrs, applyWrites_singleton, Tables.apply] at happly
    split at happly
    case isFalse => cases happly
    case isTrue hsome =>
      cases happly
      obtain ⟨row, hrow⟩ := isSome_iff_exists.mp hsome
      refine h.update hsess rfl (fun id => ?_) (fun _ _ hid => hid) (by simp) ?_
      · by_cases heq : object.id = id
        · subst heq
          simp [locks, lock, ObjectLock.of]
          omega
        · simp [locks, lock, ObjectLock.of, heq, Function.update_of_ne (Ne.symm heq)]
      · intro lock hlock
        cases hlock
        exact ⟨hsame, row, hrow, hok (by simp [hdone]) row hrow⟩

theorem Guarded.releasing (h : Guarded w) (hsess : w.sessions[pid]? = some (.releasing lock tx))
    (hsound : (releasing lock tx).Sound) :
    Guarded (w.run pid choice tx (.releasing lock) fun _ => .idle) := by
  refine h.run hsess hsound (fun _ => rfl) (by simp) ?_
  intro tables _ hwrs _ happly
  rw [hwrs, applyWrites_singleton, Tables.apply] at happly
  cases happly
  refine h.update hsess rfl (fun id => ?_) (fun _ _ hid => hid) (by simp) (by simp [Session.lock])
  by_cases heq : lock.id = id
  · subst heq
    simp [Session.locks, Session.lock]
    omega
  · simp [Session.locks, Session.lock, Function.update_of_ne (Ne.symm heq)]

end Steps

/-- A claim finds its row without a reference. -/
def Write.ClaimsUnreferenced (t : Tables) : Write → Prop
  | .markCollected id => t.refs id = 0
  | _ => True

instance (t : Tables) : (write : Write) → Decidable (write.ClaimsUnreferenced t)
  | .markCollected id => inferInstanceAs (Decidable (t.refs id = 0))
  | .markDeleted .. | .insertObject .. | .deleteObject _ | .incReference _ | .decReference _
  | .setVersioning .. => inferInstanceAs (Decidable True)

/-- The claims of `ClaimsHold` are also of rows without a reference, the two
queries of a reader return the same row, and a reference is taken on a row
that is not collected. -/
def LocksHold (w : World) (action : Action) : Prop :=
  ClaimsHold w action ∧
    match action with
    | .step pid _ =>
      match w.sessions[pid]? with
      | some (.nextDeleted tx) =>
        tx.result.isSome = true → ∀ write ∈ tx.writes, write.ClaimsUnreferenced w.tables
      | some (.metadata _ source tx) =>
        ∀ found ∈ tx.result, ∀ object ∈ found, source.id = object.id
      | some (.reference _ object tx) =>
        tx.result.isSome = true → ∀ row ∈ w.tables.objects.lookup object.id, row.status ≠ .collected
      | _ => True
    | _ => True

instance (w : World) (action : Action) : Decidable (LocksHold w action) := by
  refine @instDecidableAnd _ _ inferInstance ?_
  match action with
  | .step pid _ =>
    dsimp only
    generalize w.sessions[pid]? = session
    match session with
    | some (.nextDeleted _) | some (.metadata ..) | some (.reference ..) =>
      dsimp only
      infer_instance
    | none | some .idle | some (.client _) | some (.unlinking _) | some (.removing ..)
    | some (.address ..) | some (.holding _) | some (.releasing ..) =>
      exact inferInstanceAs (Decidable True)
  | .connect | .request .. | .collect _ | .getObject .. | .release _ | .crash _ =>
    exact inferInstanceAs (Decidable True)

theorem Guarded.advance {w w' : World} {pid choice : Nat} (h : Guarded w)
    (hplace : Placeable w) (hok : LocksHold w (.step pid choice))
    (hstep : w.advance pid choice = some w') : Guarded w' := by
  obtain ⟨place, hplace⟩ := hplace
  have hok := hok.2
  cases hsess : w.sessions[pid]? with
  | none => simp [World.advance, hsess] at hstep
  | some session =>
    simp only [World.advance, hsess] at hstep
    have hsound := hplace.sound pid session hsess
    simp only [hsess] at hok
    cases session with
    | idle | holding lock => cases hstep
    | client tx =>
      cases hstep
      exact h.client hsess hsound
    | nextDeleted tx =>
      cases hstep
      refine h.nextDeleted hsess hsound fun hdone write hwrite id heq => ?_
      have hzero := hok hdone write hwrite
      rwa [heq] at hzero
    | unlinking target =>
      cases hstep
      exact h.set hsess rfl rfl (Or.inl rfl) (by simp)
    | removing target tx =>
      cases hstep
      exact h.removing hsess hsound
    | address query tx =>
      cases hstep
      refine h.run hsess hsound (fun _ => rfl) (by simp) ?_
      intro tables result hwrs _ happly
      rw [hwrs] at happly
      cases happly
      refine h.set hsess rfl rfl (Or.inl ?_) ?_ <;> cases result <;>
        simp [found, lock]
    | metadata query source tx =>
      cases hstep
      refine h.run hsess hsound (fun _ => rfl) (by simp) ?_
      intro tables result hwrs hdone happly
      rw [hwrs] at happly
      cases happly
      refine h.set hsess rfl rfl (Or.inl ?_) ?_
      · cases result <;> rfl
      · intro source' object' tx' heq
        cases result with
        | none => cases heq
        | some object =>
          obtain ⟨rfl, rfl, _⟩ := reference.inj heq
          exact hok (some object) (by simp [hdone]) object rfl
    | reference source object tx =>
      cases hstep
      exact h.reference hsess hsound hok
    | releasing lock tx =>
      cases hstep
      exact h.releasing hsess hsound

theorem Guarded.connect {w : World} (h : Guarded w) :
    Guarded { w with sessions := w.sessions ++ [.idle] } where
  described pid source object tx hsess := by
    rcases getElem?_connect hsess with hsess | heq
    · exact h.described pid source object tx hsess
    · cases heq
  held pid session lock hsess hlock := by
    rcases getElem?_connect hsess with hsess | rfl
    · exact h.held pid session lock hsess hlock
    · cases hlock
  counted id := by
    have hcount := h.counted id
    simpa [countP_append, locks, lock] using hcount

theorem Guarded.begin {w w' : World} {pid : Nat} {session : Session} (h : Guarded w)
    (hstep : w.begin pid session = some w') (hlock : session.lock = none)
    (hdesc : ∀ source object tx, session ≠ .reference source object tx) : Guarded w' := by
  unfold World.begin at hstep
  split at hstep
  case h_1 hidle =>
    cases hstep
    exact h.set hidle rfl rfl (Or.inl hlock)
      fun source object tx heq => absurd heq (hdesc source object tx)
  case h_2 => cases hstep

variable {action : Action}

theorem Guarded.step {w w' : World} (h : Guarded w) (hplace : Placeable w)
    (hok : LocksHold w action) (hnext : next w action = some w') : Guarded w' := by
  cases action with
  | connect =>
    cases hnext
    exact h.connect
  | request pid request | collect pid | getObject pid query =>
    exact h.begin hnext rfl (by simp)
  | release pid =>
    simp only [next] at hnext
    split at hnext
    case h_1 lock hsess =>
      cases hnext
      exact h.set hsess rfl rfl (Or.inr rfl) (by simp)
    case h_2 => cases hnext
  | step pid choice => exact h.advance hplace hok hnext
  | crash pid =>
    simp only [next] at hnext
    split at hnext
    case h_4 session _ _ hsess =>
      cases hnext
      exact h.set hsess rfl rfl (Or.inl rfl) (by simp)
    all_goals cases hnext

structure LockInv (w : World) : Prop where
  placeable : Placeable w
  guarded : Guarded w

theorem LockInv.step {w w' : World} (h : LockInv w) (hok : LocksHold w action)
    (hnext : next w action = some w') : LockInv w' :=
  ⟨h.placeable.step hok.1 hnext, h.guarded.step h.placeable hok hnext⟩

/-- A reader gets an object, a client deletes it, and a collector looks for
work. -/
def readThenDelete : List Action :=
  .connect :: .connect :: .request 0 (.putObject "bucket" "key" [1] 1 none) ::
    replicate 6 (.step 0 0) ++ .getObject 1 ⟨"bucket", "key", none⟩ ::
    replicate 9 (.step 1 0) ++ .request 0 (.deleteObject "bucket" "key") ::
    replicate 5 (.step 0 0) ++ .collect 0 :: replicate 2 (.step 0 0)

/-- In every run that meets the condition, a row has a reference for each of its
locks, and one with locks is not collected. -/
theorem locks_counted (versioning : String → Versioning) (w : World)
    (h : Reachable next LocksHold (start versioning) w) (id : Nat) :
    w.sessions.countP (fun session => session.locks id) ≤ w.tables.refs id ∧
      (0 < w.sessions.countP (fun session => session.locks id) → LiveIn w.tables id) := by
  have hinv : LockInv w :=
    h.invariant ⟨placeable_start versioning, guarded_start versioning⟩ fun _ _ _ => LockInv.step
  refine ⟨hinv.guarded.counted id, fun hpos => ?_⟩
  obtain ⟨session, hmem, hlocks⟩ := countP_pos_iff.mp hpos
  obtain ⟨lock, hlock, hid⟩ := (Option.any_eq_true _ _).mp hlocks
  obtain ⟨pid, hpid⟩ := mem_iff_getElem?.mp hmem
  obtain rfl : lock.id = id := eq_of_beq hid
  exact (hinv.guarded.held pid session lock hpid hlock).2

theorem locks_counted_deleted :
    ∃ w, (Reachable next LocksHold (start fun _ => .disabled) w ∧ w.tables.refs 0 = 1) ∧
      (0 < w.sessions.countP (fun session => session.locks 0) → LiveIn w.tables 0) :=
  exists_and_sample readThenDelete (by decide +kernel) fun w hreach _ =>
    (locks_counted _ w hreach 0).2

/-- Between the two queries of a reader, a put replaces the object. -/
def putBetweenQueries : List Action :=
  .connect :: .connect :: .request 0 (.putObject "bucket" "key" [1] 1 none) ::
    replicate 6 (.step 0 0) ++ .getObject 1 ⟨"bucket", "key", none⟩ ::
    replicate 3 (.step 1 0) ++ .request 0 (.putObject "bucket" "key" [2] 2 none) ::
    replicate 7 (.step 0 0) ++ replicate 6 (.step 1 0)

end UhCore.Directory
