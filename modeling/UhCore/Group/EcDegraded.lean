import UhCore.Group.Config
import UhCore.Group.EcRoundTrip
import Mathlib.Data.Finset.Card
import Mathlib.Data.Finset.Range

/-!
Degraded reads. The pieces of storages that did not answer are looked for by
their global pointers, which carry the group id in their upper bits. Stripe
ids and shard pointers are then computed by division of the whole pointer.
-/

namespace UhCore.Group

open Words Blocks Bytes Memory List List

/-- Enough members of a range satisfy a test that only a small set may fail. -/
theorem le_card_add_count (n : Nat) (F : Finset Nat) (p : Nat → Bool)
    (h : ∀ id, id < n → id ∉ F → p id = true) :
    n ≤ F.card + ((range n).map p).count true := by
  have hcount : ((range n).map p).count true =
      ((Finset.range n).filter (fun id => p id = true)).card := by
    rw [count, countP_map, countP_eq_length_filter]
    congr 2
  have hsub : Finset.range n ⊆ F ∪ (Finset.range n).filter (fun id => p id = true) := by
    intro id hid
    by_cases hF : id ∈ F
    · exact Finset.mem_union_left _ hF
    · exact Finset.mem_union_right _
        (Finset.mem_filter.mpr ⟨hid, h id (Finset.mem_range.mp hid) hF⟩)
  calc n = (Finset.range n).card := (Finset.card_range n).symm
    _ ≤ _ := Finset.card_le_card hsub
    _ ≤ _ := Finset.card_union_le _ _
    _ = _ := by rw [hcount]

/-- The storage serves both attempts of a read. -/
structure EcEnv.Up (env : EcEnv) (id : Nat) : Prop where
  first : env.FirstUp id
  service : env.service id = true
  state : env.state id = .assigned
  answers : ∀ stripeId, env.answers id stripeId = true

/-- Positions of the buffer that a lost piece fills. -/
def LostPiece.Covers (lost : LostPiece) (x : Nat) : Prop :=
  lost.offset ≤ x ∧ x < lost.offset + lost.size

namespace EcGeometry

variable (g : EcGeometry) {target : Nat → UInt8}

def Restores (shards : List (List UInt8)) (target : Nat → UInt8) (lost : LostPiece) : Prop :=
  ∃ id pointer, g.getStoragePointer lost.pointer = .ok (id, pointer) ∧
    pointer % g.chunkSize + lost.size ≤ (shards.getD id []).length ∧
    ((shards.getD id []).drop (pointer % g.chunkSize)).take lost.size =
      window target lost.offset lost.size

theorem copyRecovered_ok (shards : List (List UInt8)) (target : Nat → UInt8)
    (lost : List LostPiece) (h : ∀ l ∈ lost, g.Restores shards target l)
    (buffer : Nat → UInt8) :
    ∃ buffer', g.copyRecovered shards lost buffer = .ok buffer' ∧
      ∀ x, (∃ l ∈ lost, l.Covers x) ∨ buffer x = target x → buffer' x = target x := by
  induction lost generalizing buffer with
  | nil => exact ⟨buffer, rfl, by simp⟩
  | cons l rest ih =>
    obtain ⟨id, pointer, hptr, hroom, hbytes⟩ := h l mem_cons_self
    obtain ⟨buffer', hrun, hfill⟩ := ih (fun l' hl' => h l' (mem_cons_of_mem _ hl'))
      (splice buffer l.offset (window target l.offset l.size))
    refine ⟨buffer', ?_, ?_⟩
    · simp only [copyRecovered, hptr, Bind.bind, Except.bind, not_lt.mpr hroom,
        if_false, hbytes, hrun]
    · intro x hx
      apply hfill
      by_cases hcov : l.Covers x
      · exact .inr (splice_window_covered hcov.1 hcov.2)
      · rcases hx with ⟨l', hl', hx⟩ | hx
        · rcases mem_cons.mp hl' with rfl | hl'
          · exact absurd hx hcov
          · exact .inl ⟨l', hl', hx⟩
        · right
          rw [splice_window_outside hcov, hx]

theorem reconstruct_ok (rs : g.Coder) (env : EcEnv) (usable : List Bool) (lost : List LostPiece)
    (ids : List Nat) (h : ∀ id ∈ ids, ∃ shards, g.recoverStripe rs env usable id = .ok shards ∧
      ∀ l ∈ lost, l.stripeId = id → g.Restores shards target l) (buffer : Nat → UInt8) :
    ∃ buffer', g.reconstruct rs env usable lost ids buffer = .ok buffer' ∧
      ∀ x, (∃ l ∈ lost, l.stripeId ∈ ids ∧ l.Covers x) ∨ buffer x = target x →
        buffer' x = target x := by
  induction ids generalizing buffer with
  | nil => exact ⟨buffer, rfl, by simp⟩
  | cons id rest ih =>
    obtain ⟨shards, hshards, hrestores⟩ := h id mem_cons_self
    obtain ⟨mid, hcopy, hmid⟩ := g.copyRecovered_ok shards target
      (lost.filter (fun piece => piece.stripeId = id))
      (by
        intro l hl
        rw [mem_filter, decide_eq_true_eq] at hl
        exact hrestores l hl.1 hl.2) buffer
    obtain ⟨buffer', hrun, hfill⟩ := ih (fun i hi => h i (mem_cons_of_mem _ hi)) mid
    refine ⟨buffer', ?_, ?_⟩
    · simp only [reconstruct, hshards, hcopy, Bind.bind, Except.bind, hrun]
    · intro x hx
      apply hfill
      rcases hx with ⟨l, hl, hid, hx⟩ | hx
      · rcases mem_cons.mp hid with heq | hid
        · right
          apply hmid
          left
          exact ⟨l, mem_filter.mpr ⟨hl, decide_eq_true heq⟩, hx⟩
        · exact .inl ⟨l, hl, hid, hx⟩
      · exact .inr (hmid x (.inr hx))

theorem recoverStripe_ok {rs : g.Coder} {env : EcEnv} {q : Nat} {data : List UInt8}
    (hstore : g.StoresWrite rs (q * g.chunkSize) data env.mem) (usable : List Bool)
    {t stripeId : Nat} (hq : q ≤ t) (ht : t - q < g.numStripes data.length)
    (haddr : wrap 64 (g.chunkSize * stripeId) = t * g.chunkSize)
    (hcount : g.dataShards ≤ ((range g.storages).map (fun id =>
      decide (usable.getD id false = true ∧ env.answers id stripeId = true))).count true) :
    g.recoverStripe rs env usable stripeId = .ok (g.shards rs data (t - q)) := by
  have hbase : q * g.chunkSize + (t - q) * g.chunkSize = t * g.chunkSize := by
    rw [← add_mul, Nat.add_sub_cancel' hq]
  have hreads : g.readShards env usable stripeId = (range g.storages).map (fun id =>
      if usable.getD id false = true ∧ env.answers id stripeId = true then
        some ((g.shards rs data (t - q)).getD id []) else none) := by
    apply map_congr_left
    intro id hid
    rw [haddr, ← hbase, hstore.load_shard ht (mem_range.mp hid)]
  have hstats : (g.readShards env usable stripeId).map Option.isSome =
      (range g.storages).map (fun id =>
        decide (usable.getD id false = true ∧ env.answers id stripeId = true)) := by
    rw [hreads, map_map]
    apply map_congr_left
    intro id _
    simp only [Function.comp]
    split <;> simp_all
  simp only [recoverStripe, hstats, not_lt.mpr hcount, if_false]
  congr 1
  apply rs.recover_eq (g.dataView data (t - q)) _ _ (g.length_dataView ht)
    (g.length_of_mem_dataView ht)
  · simp [hreads, storages]
  · rw [hreads]
    intro shard hshard
    simp only [map_map, mem_map, mem_range, Function.comp] at hshard
    obtain ⟨id, hid, rfl⟩ := hshard
    split
    · exact g.length_shard rs ht hid
    · exact length_replicate
  · simp [storages]
  · exact hcount
  · intro i hi
    have hlt : i < g.storages := by
      have := (List.getElem?_eq_some_iff.mp hi).1
      simpa using this
    have hlen : i < (g.shards rs data (t - q)).length := by rwa [g.length_shards rs ht]
    rw [hreads]
    simp only [getElem?_map, getElem?_range hlt, Option.map_some, Option.some.injEq,
      decide_eq_true_eq] at hi ⊢
    simp only [hi, and_self, if_true, Option.getD_some]
    change _ = (g.shards rs data (t - q))[i]?
    rw [getD_eq_getElem?_getD, getElem?_eq_getElem hlen, Option.getD_some]

/-- The group id is a whole number of stripes, and moves the local pointers by
whole words. -/
def GroupAligned : Prop := ∃ u, groupBits g.groupId = g.stripeSize * u ∧ 2 ^ 64 ∣ u * g.chunkSize

theorem groupAligned_iff : g.GroupAligned ↔
    g.stripeSize ∣ groupBits g.groupId ∧ 2 ^ 64 * g.dataShards ∣ groupBits g.groupId := by
  have hmul : ∀ u, g.stripeSize * u = u * g.chunkSize * g.dataShards := by
    intro u
    unfold stripeSize
    ring
  constructor
  · rintro ⟨u, hbits, hword⟩
    rw [hbits]
    refine ⟨Nat.dvd_mul_right _ _, ?_⟩
    rw [hmul]
    exact Nat.mul_dvd_mul_right hword _
  · rintro ⟨⟨u, hbits⟩, hword⟩
    rw [hbits, hmul] at hword
    exact ⟨u, hbits, Nat.dvd_of_mul_dvd_mul_right g.dataShards_pos hword⟩

def lostOf (piece : Piece) : LostPiece :=
  let globalPointer := g.getGlobalPointer piece.pointer piece.id
  ⟨wrap 64 (globalPointer / g.stripeSize), globalPointer, piece.size, piece.offset⟩

theorem getStripeIds_eq (failed : List Nat) (pieces : List Piece) :
    g.getStripeIds failed pieces =
      (pieces.filter (fun piece => piece.id ∈ failed)).map g.lostOf := rfl

/-- In a group whose id is aligned, a lost piece is looked for in the stripe it
was written to, and copied from its place there. -/
theorem lostOf_restores (haligned : g.GroupAligned) {rs : g.Coder} {q : Nat} {data : List UInt8}
    {mem : Nat → Nat → Option UInt8} (hstore : g.StoresWrite rs (q * g.chunkSize) data mem)
    (hspace : q * g.chunkSize + g.numStripes data.length * g.chunkSize ≤ 2 ^ 64) {f : Fragment}
    (hchunk : InChunk g.chunkSize f) (hin : g.InWrite (q * g.chunkSize) data f.pointer f.size)
    (hlow : f.pointer < 2 ^ 96) {off : Nat} (hhold : (g.pieceOf f off).Holds mem target) :
    ∃ t, q ≤ t ∧ t - q < g.numStripes data.length ∧
      wrap 64 (g.chunkSize * (g.lostOf (g.pieceOf f off)).stripeId) = t * g.chunkSize ∧
      g.Restores (g.shards rs data (t - q)) target (g.lostOf (g.pieceOf f off)) := by
  obtain ⟨pointer, n⟩ := f
  obtain ⟨t, j, r, hj, hr, rfl⟩ := exists_stripedAddress g.dataShards_pos g.chunkSize_pos pointer
  obtain ⟨u, hbits, w, hword⟩ := haligned
  rw [InChunk, stripedAddress_mod_chunk hr] at hchunk
  obtain ⟨hq, ht⟩ := hin.stripe hj hr
  have hlocal := g.local_pointer_lt hspace hr ht hq
  rw [g.pieceOf_striped off hj hr, wrap_of_lt hlocal] at hhold ⊢
  have hglobal : g.getGlobalPointer (t * g.chunkSize + r) j =
      stripedAddress g.dataShards g.chunkSize (u + t) j r := by
    unfold getGlobalPointer stripeSize
    rw [Ec.getGlobalPointer_striped g.groupId hr (by simp only at hlow; omega),
      groupBits_or _ hlow, hbits, stripeSize]
    unfold stripedAddress
    ring
  have hmove : ∀ x, wrap 64 ((u + t) * g.chunkSize + x) = wrap 64 (t * g.chunkSize + x) := by
    intro x
    rw [add_mul, hword, add_assoc, add_comm, wrap_add_mul]
  refine ⟨t, hq, ht, ?_, j, t * g.chunkSize + r, ?_, ?_, ?_⟩
  · have hmove0 := hmove 0
    simp only [add_zero] at hmove0
    simp only [lostOf, hglobal, stripeSize, stripedAddress_div hj hr]
    rw [wrap_mul_wrap, mul_comm, hmove0, wrap_of_lt (by omega)]
  · simp only [lostOf, hglobal]
    rw [g.getStoragePointer_striped hj hr, hmove, wrap_of_lt hlocal]
  · rw [mul_add_mod_of_lt t hr, g.length_shard rs ht (by unfold storages; omega)]
    exact hchunk
  · have hid : j < g.storages := by
      unfold storages
      omega
    have hbase : q * g.chunkSize + (t - q) * g.chunkSize = t * g.chunkSize := by
      rw [← add_mul, Nat.add_sub_cancel' hq]
    have hload := hstore.load_shard ht hid
    rw [hbase] at hload
    have hsub := load_sub r n hload hchunk
    rw [Piece.Holds] at hhold
    simp only at hhold
    rw [hhold, Option.some.injEq] at hsub
    rw [mul_add_mod_of_lt t hr]
    exact hsub.symm

theorem enough_up {env : EcEnv} {F : Finset Nat} (hcard : F.card ≤ g.parityShards)
    (hup : ∀ id, id < g.storages → id ∉ F → env.Up id) (addr : Address) (stripeId : Nat) :
    g.dataShards ≤ (g.usableStorages env (g.failedStorages env addr)).count true ∧
      g.dataShards ≤ ((range g.storages).map (fun id =>
        decide ((g.usableStorages env (g.failedStorages env addr)).getD id false = true ∧
          env.answers id stripeId = true))).count true := by
  have husable : ∀ id, id < g.storages → id ∉ F →
      env.service id = true ∧ env.state id = .assigned ∧ id ∉ g.failedStorages env addr := by
    intro id hlt hid
    refine ⟨(hup id hlt hid).service, (hup id hlt hid).state, ?_⟩
    rw [g.mem_failedStorages]
    rintro ⟨-, hdown⟩
    exact hdown (hup id hlt hid).first
  have hstors : g.storages = g.dataShards + g.parityShards := rfl
  constructor
  · have hle := le_card_add_count g.storages F (fun id => decide (env.service id = true ∧
      env.state id = .assigned ∧ id ∉ g.failedStorages env addr))
      (fun id hlt hid => decide_eq_true (husable id hlt hid))
    unfold usableStorages
    omega
  · have hle := le_card_add_count g.storages F (fun id =>
      decide ((g.usableStorages env (g.failedStorages env addr)).getD id false = true ∧
        env.answers id stripeId = true)) (by
      intro id hlt hid
      apply decide_eq_true
      refine ⟨?_, (hup id hlt hid).answers stripeId⟩
      rw [usableStorages, getD_eq_getElem?_getD, getElem?_map, getElem?_range hlt]
      exact decide_eq_true (husable id hlt hid))
    omega

section Aligned

variable (haligned : g.GroupAligned) {rs : g.Coder} {env : EcEnv} {q : Nat}
  {data : List UInt8} (hstore : g.StoresWrite rs (q * g.chunkSize) data env.mem)
  (hspace : q * g.chunkSize + g.numStripes data.length * g.chunkSize ≤ 2 ^ 64)
  {addr : Address} (hin : ∀ f ∈ addr, g.InWrite (q * g.chunkSize) data f.pointer f.size)
  (hlow : ∀ f ∈ addr, f.pointer + f.size < 2 ^ 96)

include haligned hstore hspace hin hlow

theorem getStripeIds_restores :
    ∀ l ∈ g.getStripeIds (g.failedStorages env addr) (g.addressPieces addr),
      ∃ t, q ≤ t ∧ t - q < g.numStripes data.length ∧
        wrap 64 (g.chunkSize * l.stripeId) = t * g.chunkSize ∧
        g.Restores (g.shards rs data (t - q))
          (targetOf (bytesAt (g.groupByte (q * g.chunkSize) data) addr)) l := by
  intro l hl
  rw [g.getStripeIds_eq] at hl
  obtain ⟨piece, hpiece, rfl⟩ := mem_map.mp hl
  have hmem := (mem_filter.mp hpiece).1
  have hhold := g.addressPieces_hold hstore hspace hin piece hmem
  obtain ⟨f, hf, off, rfl⟩ := g.mem_piecesOf hmem
  obtain ⟨frag, hfrag, hchunk, hpart⟩ := g.mem_alignedAddress hf
  have hhigh := hpart.high
  have hfraglow := hlow frag hfrag
  exact g.lostOf_restores haligned hstore hspace hchunk ((hin frag hfrag).part hpart)
    (by omega) hhold

variable {F : Finset Nat} (hcard : F.card ≤ g.parityShards)
  (hup : ∀ id, id < g.storages → id ∉ F → env.Up id)

include hcard hup

/-- The second attempt restores every piece of the storages that failed, and
keeps what is right. -/
theorem reconstructFailed_ok (buffer : Nat → UInt8) :
    ∃ buffer', g.reconstructFailed rs env (g.addressPieces addr)
        (g.failedStorages env addr) buffer = .ok buffer' ∧
      ∀ x, (∃ piece ∈ g.addressPieces addr, ¬ env.FirstUp piece.id ∧ piece.Covers x) ∨
          buffer x = targetOf (bytesAt (g.groupByte (q * g.chunkSize) data) addr) x →
        buffer' x = targetOf (bytesAt (g.groupByte (q * g.chunkSize) data) addr) x := by
  have hlost := g.getStripeIds_restores haligned hstore hspace hin hlow
  obtain ⟨hvalid, -⟩ := g.enough_up hcard hup addr 0
  simp only [reconstructFailed, not_lt.mpr hvalid, if_false]
  obtain ⟨buffer', hrun, hfill⟩ := g.reconstruct_ok rs env
    (g.usableStorages env (g.failedStorages env addr))
    (g.getStripeIds (g.failedStorages env addr) (g.addressPieces addr))
    ((g.getStripeIds (g.failedStorages env addr) (g.addressPieces addr)).map
      LostPiece.stripeId).dedup
    (by
      intro id hid
      obtain ⟨l, hl, rfl⟩ := mem_map.mp (mem_dedup.mp hid)
      obtain ⟨t, hq, ht, haddr, -⟩ := hlost l hl
      refine ⟨_, g.recoverStripe_ok hstore _ hq ht haddr (g.enough_up hcard hup addr _).2, ?_⟩
      intro l' hl' heq
      obtain ⟨t', -, -, haddr', hrestores⟩ := hlost l' hl'
      rw [heq, haddr] at haddr'
      rw [Nat.eq_of_mul_eq_mul_right g.chunkSize_pos haddr']
      exact hrestores)
    buffer
  refine ⟨buffer', hrun, ?_⟩
  rintro x (⟨piece, hpiece, hdown, hcov⟩ | hx)
  · have hfail := g.mem_failedStorages.mpr ⟨⟨piece, hpiece, rfl⟩, hdown⟩
    have hl : g.lostOf piece ∈
        g.getStripeIds (g.failedStorages env addr) (g.addressPieces addr) := by
      rw [g.getStripeIds_eq]
      exact mem_map_of_mem (mem_filter.mpr ⟨hpiece, decide_eq_true hfail⟩)
    exact hfill x (.inl ⟨_, hl, mem_dedup.mpr (mem_map_of_mem hl), hcov⟩)
  · exact hfill x (.inr hx)

/-- In a group whose id is aligned, a degraded read of written addresses fills
the buffer with the bytes of the write. -/
theorem readAddress_degraded (hcuts : g.Cuts addr) (buffer : Nat → UInt8) :
    ∃ buffer', g.readAddress rs env addr buffer = .ok (addr.dataSize, buffer') ∧
      window buffer' 0 addr.dataSize =
        window (targetOf (bytesAt (g.groupByte (q * g.chunkSize) data) addr)) 0
          addr.dataSize := by
  have hhold := g.addressPieces_hold hstore hspace hin
  rcases hfail : g.failedStorages env addr with _ | ⟨id, more⟩
  · exact g.readAddress_up rs hfail hcuts hhold buffer
  · obtain ⟨mid, hfirst, hrun⟩ := g.readAddress_first rs env hcuts hhold buffer
    obtain ⟨buffer', hreconstruct, hfill⟩ :=
      g.reconstructFailed_ok haligned hstore hspace hin hlow hcard hup mid
    rw [hreconstruct, hfail] at hrun
    refine ⟨buffer', hrun, ?_⟩
    apply window_congr
    intro x _ hx
    rw [← g.dataSize_alignedAddress addr] at hx
    obtain ⟨piece, hpiece, hcov⟩ := g.piecesOf_covers (Nat.zero_le x) hx
    apply hfill
    by_cases hfirstUp : env.FirstUp piece.id
    · exact .inr (hfirst piece hpiece hfirstUp x hcov)
    · exact .inl ⟨piece, hpiece, hfirstUp, hcov⟩

end Aligned

end EcGeometry

end UhCore.Group
