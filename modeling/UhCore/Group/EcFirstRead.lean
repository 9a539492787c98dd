import UhCore.Group.EcRead

/-!
The first attempt of a read: every storage of the address is asked for its
pieces. Those that are up fill their positions of the buffer; the others may
leave anything in theirs. When all are up, this is the whole read.
-/

namespace UhCore.Group

open Words Blocks Bytes Memory List

def Filled (pieces : List Piece) (x : Nat) : Prop := ∃ piece ∈ pieces, piece.Covers x

variable {offset n x : Nat}

theorem splice_window_covered {buffer target : Nat → UInt8} (hlow : offset ≤ x)
    (hhigh : x < offset + n) : splice buffer offset (window target offset n) x = target x := by
  obtain ⟨i, rfl⟩ := Nat.exists_eq_add_of_le hlow
  exact splice_at (getElem?_window (by omega))

theorem splice_window_outside {buffer target : Nat → UInt8} (h : ¬ (offset ≤ x ∧ x < offset + n)) :
    splice buffer offset (window target offset n) x = buffer x := by
  by_cases hlow : offset ≤ x
  · exact splice_of_ge (by rw [length_window]; omega)
  · exact splice_of_lt (by omega)

variable {target : Nat → UInt8} {pieces : List Piece} {id : Nat} {env : EcEnv}

theorem readPieces_ok {mem : Nat → Nat → Option UInt8} (pieces : List Piece)
    (hid : ∀ piece ∈ pieces, piece.id = id) (hhold : ∀ piece ∈ pieces, piece.Holds mem target)
    (buffer : Nat → UInt8) : ∃ buffer', readPieces (mem id) pieces buffer = some buffer' ∧
      (∀ x, Filled pieces x → buffer' x = target x) ∧
      (∀ x, buffer x = target x → buffer' x = target x) ∧
      ∀ x, ¬ Filled pieces x → buffer' x = buffer x := by
  induction pieces generalizing buffer with
  | nil => exact ⟨buffer, rfl, by simp [Filled], by simp, by simp⟩
  | cons piece rest ih =>
    have hload := hhold piece mem_cons_self
    rw [Piece.Holds, hid piece mem_cons_self] at hload
    obtain ⟨buffer', hrun, hfill, hkeep, hsame⟩ := ih
      (fun p hp => hid p (mem_cons_of_mem _ hp))
      (fun p hp => hhold p (mem_cons_of_mem _ hp))
      (splice buffer piece.offset (window target piece.offset piece.size))
    refine ⟨buffer', ?_, ?_, ?_, ?_⟩
    · simp only [readPieces, hload, hrun]
    · rintro x ⟨p, hp, hx⟩
      rcases mem_cons.mp hp with rfl | hp
      · exact hkeep x (splice_window_covered hx.1 hx.2)
      · exact hfill x ⟨p, hp, hx⟩
    · intro x hx
      apply hkeep
      by_cases hcov : piece.Covers x
      · exact splice_window_covered hcov.1 hcov.2
      · rw [splice_window_outside hcov, hx]
    · intro x hx
      have hrest : ¬ Filled rest x := by
        rintro ⟨p, hp, hcov⟩
        exact hx ⟨p, mem_cons_of_mem _ hp, hcov⟩
      have hhead : ¬ piece.Covers x := by
        intro hcov
        exact hx ⟨piece, mem_cons_self, hcov⟩
      rw [hsame x hrest, splice_window_outside hhead]

theorem spoil_outside (garbage : Nat → UInt8) (pieces : List Piece) (buffer : Nat → UInt8)
    (x : Nat) (hx : ¬ Filled pieces x) : spoil garbage pieces buffer x = buffer x := by
  induction pieces generalizing buffer with
  | nil => rfl
  | cons piece rest ih =>
    have hrest : ¬ Filled rest x := by
      rintro ⟨p, hp, hcov⟩
      exact hx ⟨p, mem_cons_of_mem _ hp, hcov⟩
    have hhead : ¬ piece.Covers x := by
      intro hcov
      exact hx ⟨piece, mem_cons_self, hcov⟩
    rw [spoil, ih _ hrest, splice_window_outside hhead]

/-- The storage serves the first attempt. -/
def EcEnv.FirstUp (env : EcEnv) (id : Nat) : Prop :=
  env.firstService id = true ∧ env.firstState id = .assigned ∧ env.firstAnswers id = true

instance (env : EcEnv) (id : Nat) : Decidable (env.FirstUp id) :=
  inferInstanceAs (Decidable (_ ∧ _ ∧ _))

def ownPieces (pieces : List Piece) (id : Nat) : List Piece :=
  pieces.filter (fun piece => piece.id = id)

theorem mem_ownPieces {piece : Piece} :
    piece ∈ ownPieces pieces id ↔ piece ∈ pieces ∧ piece.id = id := by
  simp [ownPieces]

theorem readFromStorage_spec (hhold : ∀ piece ∈ pieces, piece.Holds env.mem target)
    (buffer : Nat → UInt8) (id : Nat) :
    ∃ buffer', readFromStorage env pieces buffer id = (decide (env.FirstUp id), buffer') ∧
      (env.FirstUp id → ∀ x, Filled (ownPieces pieces id) x → buffer' x = target x) ∧
      ∀ x, ¬ Filled (ownPieces pieces id) x → buffer' x = buffer x := by
  by_cases hup : env.FirstUp id
  · obtain ⟨buffer', hrun, hfill, -, hsame⟩ := readPieces_ok (ownPieces pieces id)
      (fun p hp => (mem_ownPieces.mp hp).2)
      (fun p hp => hhold p (mem_ownPieces.mp hp).1) buffer
    refine ⟨buffer', ?_, fun _ => hfill, hsame⟩
    rw [ownPieces] at hrun
    unfold EcEnv.FirstUp at hup
    simp only [readFromStorage, EcEnv.FirstUp, hup, hrun, and_self, if_true, decide_true]
  · refine ⟨spoil env.garbage (ownPieces pieces id) buffer, ?_, fun h => absurd h hup,
      spoil_outside env.garbage _ buffer⟩
    unfold EcEnv.FirstUp at hup
    simp only [readFromStorage, EcEnv.FirstUp, hup, if_false, decide_false, ownPieces]

/-- The first attempt fails for the storages that are not up, and fills what
the others serve. -/
theorem readFromStorages_spec (hhold : ∀ piece ∈ pieces, piece.Holds env.mem target)
    (hseparate : ∀ p ∈ pieces, ∀ q ∈ pieces, ∀ x, p.Covers x → q.Covers x → p = q) (ids : List Nat)
    (hnodup : ids.Nodup) (buffer : Nat → UInt8) :
    ∃ buffer', readFromStorages env pieces ids buffer =
        (ids.filter (fun id => decide (¬ env.FirstUp id)), buffer') ∧
      (∀ piece ∈ pieces, piece.id ∈ ids → env.FirstUp piece.id →
        ∀ x, piece.Covers x → buffer' x = target x) ∧
      ∀ x, (∀ piece ∈ pieces, piece.id ∈ ids → ¬ piece.Covers x) → buffer' x = buffer x := by
  induction ids generalizing buffer with
  | nil => exact ⟨buffer, rfl, by simp, by simp⟩
  | cons id rest ih =>
    obtain ⟨hid, hrest⟩ := nodup_cons.mp hnodup
    obtain ⟨mid, hone, hfill, hsame⟩ := readFromStorage_spec hhold buffer id
    obtain ⟨buffer', hrun, hfill', hsame'⟩ := ih hrest mid
    refine ⟨buffer', ?_, ?_, ?_⟩
    · simp only [readFromStorages, hone, hrun]
      by_cases hup : env.FirstUp id <;> simp [hup]
    · intro piece hpiece hmem hup x hx
      rcases mem_cons.mp hmem with heq | hmem
      · have hother : ∀ q ∈ pieces, q.id ∈ rest → ¬ q.Covers x := by
          intro q hq hqid hqx
          have := hseparate piece hpiece q hq x hx hqx
          subst this
          exact hid (heq ▸ hqid)
        rw [hsame' x hother]
        exact hfill (heq ▸ hup) x ⟨piece, mem_ownPieces.mpr ⟨hpiece, heq⟩, hx⟩
      · exact hfill' piece hpiece hmem hup x hx
    · intro x hx
      rw [hsame' x (fun q hq hqid => hx q hq (mem_cons_of_mem _ hqid))]
      apply hsame
      rintro ⟨q, hq, hqx⟩
      obtain ⟨hq, hqid⟩ := mem_ownPieces.mp hq
      exact hx q hq (hqid ▸ mem_cons_self) hqx

/-- All storages are there, assigned and answer. -/
def EcEnv.healthy (mem : Nat → Nat → Option UInt8) : EcEnv where
  mem := mem
  firstService := fun _ => true
  firstState := fun _ => .assigned
  firstAnswers := fun _ => true
  service := fun _ => true
  state := fun _ => .assigned
  answers := fun _ _ => true
  garbage := fun _ => 0

namespace EcGeometry

variable (g : EcGeometry)

/-- An address that is cut into pieces without an error. -/
def Cuts (addr : Address) : Prop :=
  g.extractNodeAddressMap (g.getAlignedAddress addr) 0 = .ok (g.addressPieces addr)

/-- The storages of an address that are not up for the first attempt. -/
def failedStorages (env : EcEnv) (addr : Address) : List Nat :=
  ((g.addressPieces addr).map Piece.id).dedup.filter (fun id => decide (¬ env.FirstUp id))

variable {addr : Address} {env : EcEnv}

theorem mem_failedStorages {id : Nat} : id ∈ g.failedStorages env addr ↔
      (∃ piece ∈ g.addressPieces addr, piece.id = id) ∧ ¬ env.FirstUp id := by
  simp [failedStorages]

/-- A read up to the end of its first attempt: no piece is refused, and the
storages that are up have filled their positions. -/
theorem readAddress_first (rs : g.Coder) (env : EcEnv) {target : Nat → UInt8} (hcuts : g.Cuts addr)
    (hhold : ∀ piece ∈ g.addressPieces addr, piece.Holds env.mem target) (buffer : Nat → UInt8) :
    ∃ buffer', (∀ piece ∈ g.addressPieces addr, env.FirstUp piece.id →
        ∀ x, piece.Covers x → buffer' x = target x) ∧
      g.readAddress rs env addr buffer =
        if (g.failedStorages env addr).isEmpty then .ok (addr.dataSize, buffer')
        else (g.reconstructFailed rs env (g.addressPieces addr) (g.failedStorages env addr)
          buffer').map (fun b => (addr.dataSize, b)) := by
  unfold Cuts at hcuts
  have hids : (g.addressPieces addr).find?
      (fun piece => decide (g.dataShards ≤ piece.id)) = none := by
    apply find?_eq_none.mpr
    intro piece hpiece
    obtain ⟨f, -, off, rfl⟩ := g.mem_piecesOf hpiece
    have := g.pieceOf_id_lt f off
    simp only [decide_eq_true_eq]
    omega
  obtain ⟨buffer', hrun, hfill, -⟩ := readFromStorages_spec hhold
    (fun p hp q hq x => g.piecesOf_separate hp hq)
    ((g.addressPieces addr).map Piece.id).dedup (nodup_dedup _) buffer
  refine ⟨buffer', ?_, ?_⟩
  · intro piece hpiece
    exact hfill piece hpiece (mem_dedup.mpr (List.mem_map_of_mem hpiece))
  · simp only [readAddress, hcuts, Bind.bind, Except.bind, hids, hrun]
    rw [← failedStorages]
    split
    · rfl
    · cases g.reconstructFailed rs env (g.addressPieces addr) (g.failedStorages env addr)
        buffer' <;> rfl

theorem bytesAt_alignedAddress (h : Nat → UInt8) (addr : Address) :
    bytesAt h (g.getAlignedAddress addr) = bytesAt h addr := by
  unfold getAlignedAddress bytesAt
  rw [flatMap_assoc]
  apply flatMap_congr
  intro f _
  exact (splitFragment_spec g.chunkSize_pos h f.pointer f.size).1

theorem dataSize_alignedAddress (addr : Address) :
    (g.getAlignedAddress addr).dataSize = addr.dataSize := by
  rw [← length_bytesAt (fun _ => 0), ← length_bytesAt (fun _ => 0), g.bytesAt_alignedAddress]

theorem not_failed_healthy (mem : Nat → Nat → Option UInt8) (addr : Address) :
    g.failedStorages (.healthy mem) addr = [] := by
  apply filter_eq_nil_iff.mpr
  intro id _
  simp [EcEnv.FirstUp, EcEnv.healthy]

theorem readAddress_up (rs : g.Coder) (hup : g.failedStorages env addr = []) {target : Nat → UInt8}
    (hcuts : g.Cuts addr) (hhold : ∀ piece ∈ g.addressPieces addr, piece.Holds env.mem target)
    (buffer : Nat → UInt8) :
    ∃ buffer', g.readAddress rs env addr buffer = .ok (addr.dataSize, buffer') ∧
      window buffer' 0 addr.dataSize = window target 0 addr.dataSize := by
  obtain ⟨buffer', hfill, hrun⟩ := g.readAddress_first rs env hcuts hhold buffer
  rw [hup] at hrun
  refine ⟨buffer', hrun, ?_⟩
  apply window_congr
  intro x _ hx
  rw [← g.dataSize_alignedAddress addr] at hx
  obtain ⟨piece, hpiece, hcov⟩ := g.piecesOf_covers (Nat.zero_le x) hx
  apply hfill piece hpiece _ x hcov
  by_contra hdown
  have hfail := g.mem_failedStorages.mpr ⟨⟨piece, hpiece, rfl⟩, hdown⟩
  rw [hup] at hfail
  cases hfail

end EcGeometry

end UhCore.Group
