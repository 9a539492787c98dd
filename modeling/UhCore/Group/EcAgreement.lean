import UhCore.Group.EcDegraded

/-!
Agreement of degraded and healthy reads, for all configurations. A degraded
read agrees with the healthy one for every write and every set of lost storages
exactly when there are no parities to lose, or the group id is aligned with
the stripes.
-/

namespace UhCore.Group

open Words Blocks Bytes Memory List

/-- What a read leaves in the buffer it was given. -/
def filled (result : Except Exn (Nat × (Nat → UInt8))) : Except Exn (List UInt8) :=
  result.map (fun r => window r.2 0 r.1)

theorem filled_eq {result : Except Exn (Nat × (Nat → UInt8))} {n : Nat} {bytes : List UInt8}
    (h : ∃ buffer, result = .ok (n, buffer) ∧ window buffer 0 n = bytes) :
    filled result = .ok bytes := by
  obtain ⟨buffer, rfl, rfl⟩ := h
  rfl

namespace EcGeometry

variable (g : EcGeometry) {mem : Nat → Nat → Option UInt8} {id : Nat}

/-- For every write whose pointers stay in the word and every set of at most
`parityShards` storages that do not serve reads, reading the returned address
gives what it gives when all storages serve. -/
def DegradedReadsAgree (rs : g.Coder) : Prop :=
  ∀ (offset : Nat) (data : List UInt8) (offsets : List Nat),
    offset % g.chunkSize = 0 → data.length < 2 ^ 64 →
    offset + g.numStripes data.length * g.chunkSize ≤ 2 ^ 64 →
    OffsetsOk offsets data.length →
    (∀ o ∈ offsets, offset * g.dataShards + o < 2 ^ 64) →
    ∀ (env : EcEnv) (lost : Finset Nat), g.StoresWrite rs offset data env.mem →
      lost.card ≤ g.parityShards → (∀ id, id < g.storages → id ∉ lost → env.Up id) →
      ∀ buffer,
        filled (g.readAddress rs env (g.computeAddress offset data.length offsets) buffer) =
          filled (g.readAddress rs (.healthy env.mem)
            (g.computeAddress offset data.length offsets) buffer)

theorem mem_computeAddress {offset : Nat} {data : List UInt8} {offsets : List Nat}
    (hdata : data.length < 2 ^ 64) (hoffs : OffsetsOk offsets data.length)
    (hlt : ∀ o ∈ offsets, offset * g.dataShards + o < 2 ^ 64) {f : Fragment}
    (hf : f ∈ g.computeAddress offset data.length offsets) :
    g.InWrite offset data f.pointer f.size ∧ f.pointer + f.size < 2 ^ 96 := by
  obtain ⟨i, hi⟩ := mem_iff_getElem?.mp hf
  rw [EcGeometry.computeAddress, getElem?_computeAddress] at hi
  obtain ⟨o, ho, rfl⟩ := Option.map_eq_some_iff.mp hi
  have hbound := hlt o (mem_of_getElem? ho)
  have hfrag := hoffs.fragment_le ho
  have hinside := hoffs.inside o (mem_of_getElem? ho)
  have hstrs := g.le_numStripes_mul data.length
  simp only [wrap_wrap_add, wrap_of_lt hbound]
  exact ⟨⟨Nat.le_add_right _ _, by omega, by omega⟩, by omega⟩

/-- An address that is not cut into pieces is refused, whatever the storages
do. -/
theorem readAddress_refused (rs : g.Coder) {addr : Address} {e : Exn}
    (h : g.extractNodeAddressMap (g.getAlignedAddress addr) 0 = .error e) (env : EcEnv)
    (buffer : Nat → UInt8) : g.readAddress rs env addr buffer = .error e := by
  simp only [readAddress, h, Bind.bind, Except.bind]

theorem cuts_or_refused (addr : Address) : g.Cuts addr ∨
    ∃ e, g.extractNodeAddressMap (g.getAlignedAddress addr) 0 = .error e := by
  rcases h : g.extractNodeAddressMap (g.getAlignedAddress addr) 0 with e | pieces
  · exact .inr ⟨e, rfl⟩
  · left
    rw [Cuts, h, g.extractNodeAddressMap_eq h]
    rfl

theorem degradedReadsAgree_of_aligned (rs : g.Coder)
    (h : g.parityShards = 0 ∨ g.GroupAligned) : g.DegradedReadsAgree rs := by
  intro offset data offsets halign hdata hspace hoffs hlt env lost hstore hcard hup buffer
  obtain ⟨q, rfl⟩ : ∃ q, offset = q * g.chunkSize :=
    ⟨offset / g.chunkSize, (Nat.div_mul_cancel (Nat.dvd_of_mod_eq_zero halign)).symm⟩
  have hmem := fun f => @mem_computeAddress g _ _ _ hdata hoffs hlt f
  rcases g.cuts_or_refused (g.computeAddress (q * g.chunkSize) data.length offsets) with
    hcuts | ⟨e, hrefused⟩
  · have hhold := g.addressPieces_hold hstore hspace (fun f hf => (hmem f hf).1)
    rw [filled_eq (g.readAddress_up rs (g.not_failed_healthy env.mem _) hcuts hhold buffer)]
    apply filled_eq
    rcases h with hzero | haligned
    · apply g.readAddress_up rs _ hcuts hhold buffer
      apply filter_eq_nil_iff.mpr
      intro id hid
      obtain ⟨piece, hpiece, rfl⟩ := List.mem_map.mp (mem_dedup.mp hid)
      obtain ⟨f, -, off, rfl⟩ := g.mem_piecesOf hpiece
      have hid := g.pieceOf_id_lt f off
      have hempty : lost = ∅ := Finset.card_eq_zero.mp (by omega)
      have hfirst := (hup (g.pieceOf f off).id (by unfold storages; omega)
        (by rw [hempty]; exact Finset.notMem_empty _)).first
      simp [hfirst]
    · exact g.readAddress_degraded haligned hstore hspace (fun f hf => (hmem f hf).1)
        (fun f hf => (hmem f hf).2) hcard hup hcuts buffer
  · rw [g.readAddress_refused rs hrefused, g.readAddress_refused rs hrefused]

/-- One stripe whose first chunk differs from all others. -/
def markedStripe : List UInt8 :=
  List.replicate g.chunkSize 1 ++ List.replicate (g.stripeSize - g.chunkSize) 0

theorem chunkSize_le_stripeSize : g.chunkSize ≤ g.stripeSize :=
  Nat.le_mul_of_pos_left _ g.dataShards_pos

theorem length_markedStripe : g.markedStripe.length = g.stripeSize := by
  have := g.chunkSize_le_stripeSize
  simp only [markedStripe, length_append, length_replicate]
  omega

theorem numStripes_markedStripe : g.numStripes g.markedStripe.length = 1 := by
  rw [length_markedStripe, numStripes, Nat.mod_self, Nat.div_self g.stripeSize_pos]
  rfl

/-- The first chunk of the marked stripe is the only one that starts with a
one. -/
theorem markedStripe_chunk {j : Nat} (hone : g.markedStripe.getD (j * g.chunkSize) 0 = 1) :
    j = 0 := by
  by_contra hne
  have hle : 1 * g.chunkSize ≤ j * g.chunkSize :=
    Nat.mul_le_mul_right _ (Nat.one_le_iff_ne_zero.mpr hne)
  rw [markedStripe, getD_eq_getElem?_getD,
    getElem?_append_right (by simp; omega), getElem?_replicate] at hone
  split at hone <;> exact absurd hone (by decide)

/-- The first storage does not answer. -/
def withoutFirst (mem : Nat → Nat → Option UInt8) : EcEnv :=
  { EcEnv.healthy mem with firstAnswers := fun id => decide (id ≠ 0) }

theorem withoutFirst_firstUp : (withoutFirst mem).FirstUp id ↔ id ≠ 0 := by
  simp [EcEnv.FirstUp, withoutFirst, EcEnv.healthy]

theorem withoutFirst_up (hid : id ≠ 0) : (withoutFirst mem).Up id :=
  ⟨withoutFirst_firstUp.mpr hid, rfl, rfl, fun _ => rfl⟩

theorem withoutFirst_outside (mem : Nat → Nat → Option UInt8) :
    ∀ id, id < g.storages → id ∉ ({0} : Finset Nat) → (withoutFirst mem).Up id :=
  fun _ _ hid => withoutFirst_up (fun h => hid (Finset.mem_singleton.mpr h))

/-- The pieces of the first stripe: the first storage has its first chunk and
nothing else. -/
theorem addressPieces_stripe : ∃ rest, g.addressPieces [⟨0, g.stripeSize⟩] =
    ⟨0, 0, g.chunkSize, 0⟩ :: rest ∧ ∀ piece ∈ rest, piece.id ≠ 0 := by
  have halign : g.getAlignedAddress [⟨0, g.stripeSize⟩] = ⟨0, g.chunkSize⟩ ::
      splitRest g.chunkSize g.stripeSize g.stripeSize g.chunkSize := by
    simp [getAlignedAddress, splitFragment, g.chunkSize_le_stripeSize]
  have hfirst := g.pieceOf_striped (n := g.chunkSize) (t := 0) 0 g.dataShards_pos g.chunkSize_pos
  simp only [stripedAddress, mul_zero, zero_mul, add_zero] at hfirst
  refine ⟨_, by rw [addressPieces, halign, piecesOf, hfirst]; rfl, ?_⟩
  intro piece hpiece
  obtain ⟨f, hf, off, rfl⟩ := g.mem_piecesOf hpiece
  obtain ⟨-, hlow, hhigh, hpos⟩ := (splitRest_spec g.chunkSize_pos (fun _ => 0) g.stripeSize
    g.stripeSize g.chunkSize (by omega) (Nat.mod_self _)).2 f hf
  obtain ⟨pointer, n⟩ := f
  obtain ⟨t, j, r, hj, hr, rfl⟩ := exists_stripedAddress g.dataShards_pos g.chunkSize_pos pointer
  rw [g.pieceOf_striped off hj hr]
  rintro rfl
  simp only [stripedAddress, zero_mul, zero_add] at hlow hhigh hpos
  change g.stripeSize * t + r + n ≤ g.stripeSize at hhigh
  have ht : t = 0 := by
    by_contra hne
    have : g.stripeSize * 1 ≤ g.stripeSize * t :=
      Nat.mul_le_mul_left _ (Nat.one_le_iff_ne_zero.mpr hne)
    omega
  rw [ht] at hlow
  omega

/-- The storages of a group that has written the marked stripe and nothing
else. -/
def markedMemory (rs : g.Coder) : Nat → Nat → Option UInt8 := g.memoryAbove rs 0 g.markedStripe 0

theorem markedMemory_load (rs : g.Coder) {address : Nat} (hid : id < g.storages)
    (hne : address ≠ 0) : load (g.markedMemory rs id) address g.chunkSize = none := by
  rcases hload : load (g.markedMemory rs id) address g.chunkSize with _ | bytes
  · rfl
  · have hlen := length_of_load hload
    have hpos := g.chunkSize_pos
    obtain ⟨-, hbytes⟩ := load_eq_some_iff.mp hload
    have hlast := hbytes (g.chunkSize - 1) _ (getElem?_eq_getElem (by omega))
    have hend : (g.storageBuffers rs g.markedStripe id).flatten.length = g.chunkSize := by
      rw [g.flatten_storageBuffers, length_flatMap_blocks
        (fun i hi => g.length_shard rs hi hid), numStripes_markedStripe, one_mul]
    rw [markedMemory, memoryAbove, if_neg (Nat.not_lt_zero _), Nat.sub_zero,
      getElem?_eq_none (by omega)] at hlast
    cases hlast

theorem recoverStripe_absent (rs : g.Coder) (env : EcEnv) (usable : List Bool) (stripeId : Nat)
    (habsent : ∀ id, id < g.storages →
      load (env.mem id) (wrap 64 (g.chunkSize * stripeId)) g.chunkSize = none) :
    ∃ e, g.recoverStripe rs env usable stripeId = .error e := by
  have hreads : g.readShards env usable stripeId = (List.range g.storages).map (fun _ => none) := by
    apply map_congr_left
    intro id hid
    rw [habsent id (mem_range.mp hid), ite_self]
  have hcount : ((g.readShards env usable stripeId).map Option.isSome).count true = 0 := by
    rw [hreads, List.map_map]
    apply count_eq_zero_of_not_mem
    simp
  have hpos := g.dataShards_pos
  exact ⟨_, by simp only [recoverStripe, hcount, hpos, if_true]; rfl⟩

/-- The first chunk of the first stripe as it is looked for. -/
def lostFirst : LostPiece := g.lostOf ⟨0, 0, g.chunkSize, 0⟩

theorem lostFirst_pointer : g.lostFirst.pointer = groupBits g.groupId := by
  have hglobal := @Ec.getGlobalPointer_striped g.dataShards g.chunkSize 0 0 0 g.groupId
    g.chunkSize_pos (by simp [stripedAddress])
  simp only [stripedAddress, mul_zero, zero_mul, add_zero, Nat.or_zero] at hglobal
  exact hglobal

section MarkedStripe

variable (rs : g.Coder) (hparity : 0 < g.parityShards) {mid buffer : Nat → UInt8}

theorem markedMemory_stores : g.StoresWrite rs (0 * g.chunkSize) g.markedStripe
    (withoutFirst (g.markedMemory rs)).mem := by
  rw [zero_mul]
  exact g.memoryAbove_stores rs 0 g.markedStripe 0

theorem markedStripe_fits :
    0 * g.chunkSize + g.numStripes g.markedStripe.length * g.chunkSize ≤ 2 ^ 64 := by
  have := g.stripeSize_lt
  have := g.chunkSize_le_stripeSize
  unfold stripeSize at this
  rw [numStripes_markedStripe]
  omega

theorem markedStripe_inWrite : g.InWrite (0 * g.chunkSize) g.markedStripe 0 g.stripeSize := by
  have := g.stripeSize_pos
  refine ⟨by simp, ?_, ?_⟩ <;> rw [numStripes_markedStripe] <;> omega

/-- The usable storages have enough chunks of every stripe. -/
def Enough (usable : List Bool) : Prop :=
  ∀ stripeId, g.dataShards ≤ ((List.range g.storages).map (fun id =>
    decide (usable.getD id false = true ∧
      (withoutFirst (g.markedMemory rs)).answers id stripeId = true))).count true

include hparity

theorem readAddress_withoutFirst (buffer : Nat → UInt8) :
    ∃ usable mid,
      g.Enough rs usable ∧
      g.readAddress rs (withoutFirst (g.markedMemory rs)) [⟨0, g.stripeSize⟩] buffer =
        (g.reconstruct rs (withoutFirst (g.markedMemory rs)) usable [g.lostFirst]
          [g.lostFirst.stripeId] mid).map (fun b => (g.stripeSize, b)) := by
  have hword : 0 + g.stripeSize < 2 ^ 128 := by
    have := g.stripeSize_lt
    unfold stripeSize
    omega
  have hhold := g.addressPieces_hold (g.markedMemory_stores rs) g.markedStripe_fits
    (show ∀ f ∈ ([⟨0, g.stripeSize⟩] : Address), _ by
      intro f hf
      rw [mem_singleton.mp hf]
      exact g.markedStripe_inWrite)
  obtain ⟨mid, -, hrun⟩ := g.readAddress_first rs (withoutFirst (g.markedMemory rs))
    (g.cuts_range g.stripeSize_pos hword) hhold buffer
  obtain ⟨rest, hpieces, hrest⟩ := g.addressPieces_stripe
  have henough := g.enough_up (by rw [Finset.card_singleton]; exact hparity)
    (g.withoutFirst_outside (g.markedMemory rs)) [⟨0, g.stripeSize⟩]
  have hfail : ∀ id, id ∈ g.failedStorages (withoutFirst (g.markedMemory rs))
      [⟨0, g.stripeSize⟩] ↔ id = 0 := by
    intro id
    rw [g.mem_failedStorages, withoutFirst_firstUp, not_not]
    refine ⟨And.right, ?_⟩
    rintro rfl
    exact ⟨⟨_, hpieces ▸ mem_cons_self, rfl⟩, rfl⟩
  have hlost : g.getStripeIds (g.failedStorages (withoutFirst (g.markedMemory rs))
      [⟨0, g.stripeSize⟩]) (g.addressPieces [⟨0, g.stripeSize⟩]) = [g.lostFirst] := by
    have hnone : rest.filter (fun piece => decide (piece.id = 0)) = [] := by
      apply filter_eq_nil_iff.mpr
      intro piece hpiece
      simp [hrest piece hpiece]
    rw [g.getStripeIds_eq, hpieces]
    simp only [hfail, filter_cons, decide_true, if_true, hnone]
    rfl
  have hsome : (g.failedStorages (withoutFirst (g.markedMemory rs))
      [⟨0, g.stripeSize⟩]).isEmpty = false := by
    rw [isEmpty_eq_false_iff]
    exact ne_nil_of_mem ((hfail 0).mpr rfl)
  refine ⟨_, mid, fun stripeId => (henough stripeId).2, ?_⟩
  rw [hrun, hsome]
  simp only [reconstructFailed, not_lt.mpr (henough 0).1, if_false, hlost, Bool.false_eq_true]
  rfl

/-- Agreement on the marked stripe means that the reconstruction of its first
chunk succeeds, with the one that marks it. -/
theorem reconstruct_of_agree (h : g.DegradedReadsAgree rs) :
    ∃ usable mid buffer,
      g.Enough rs usable ∧
      g.reconstruct rs (withoutFirst (g.markedMemory rs)) usable [g.lostFirst]
        [g.lostFirst.stripeId] mid = .ok buffer ∧ buffer 0 = 1 := by
  have hlt := g.stripeSize_lt
  change g.stripeSize < 2 ^ 64 at hlt
  have hlen := g.length_markedStripe
  have hpos := g.stripeSize_pos
  have haddr : g.computeAddress (0 * g.chunkSize) g.markedStripe.length [0] =
      [⟨0, g.stripeSize⟩] := by
    simp [EcGeometry.computeAddress, UhCore.computeAddress, hlen, wrap]
  have hagree := h (0 * g.chunkSize) g.markedStripe [0] (by simp) (by omega)
    g.markedStripe_fits ⟨rfl, pairwise_singleton _ _, by simp; omega⟩ (by simp)
    (withoutFirst (g.markedMemory rs)) {0} (g.markedMemory_stores rs)
    (by rw [Finset.card_singleton]; exact hparity)
    (g.withoutFirst_outside (g.markedMemory rs)) (fun _ => 0)
  rw [haddr, filled_eq (g.readAddress_range (g.markedMemory_stores rs)
    g.markedStripe_fits hpos g.markedStripe_inWrite (by omega) (fun _ => 0))] at hagree
  obtain ⟨usable, mid, hcount, hrun⟩ := g.readAddress_withoutFirst rs hparity (fun _ => 0)
  rw [hrun] at hagree
  rcases hreconstruct : g.reconstruct rs (withoutFirst (g.markedMemory rs)) usable
    [g.lostFirst] [g.lostFirst.stripeId] mid with e | buffer
  · rw [hreconstruct] at hagree
    cases hagree
  · refine ⟨usable, mid, buffer, hcount, hreconstruct, ?_⟩
    rw [hreconstruct] at hagree
    have hwin := Except.ok.inj hagree
    have hbyte := congrArg (fun bytes => bytes[0]?) hwin
    simp only [getElem?_window hpos, Option.some.injEq, add_zero] at hbyte
    rw [hbyte, groupByte, Nat.zero_sub, markedStripe, getD_eq_getElem?_getD,
      getElem?_append_left (by simp [g.chunkSize_pos]),
      getElem?_replicate_of_lt g.chunkSize_pos]
    rfl

omit hparity in
/-- The shards are found only if the group id moves the local pointers by whole
words. -/
theorem word_dvd_of_reconstruct {usable : List Bool} {u : Nat}
    (hstripe : g.lostFirst.stripeId = wrap 64 u)
    (hrun : g.reconstruct rs (withoutFirst (g.markedMemory rs)) usable [g.lostFirst]
      [g.lostFirst.stripeId] mid = .ok buffer) : 2 ^ 64 ∣ u * g.chunkSize := by
  apply Nat.dvd_of_mod_eq_zero
  change wrap 64 _ = 0
  rw [mul_comm, ← wrap_mul_wrap, ← hstripe]
  by_contra hne
  obtain ⟨e, herror⟩ := g.recoverStripe_absent rs (withoutFirst (g.markedMemory rs)) usable
    g.lostFirst.stripeId (fun id hid => g.markedMemory_load rs hid hne)
  simp only [reconstruct, herror, Bind.bind, Except.bind] at hrun
  cases hrun

omit hparity in
/-- The first chunk is copied from the right place of the stripe only if the
group id is a whole number of stripes. -/
theorem chunk_of_copyRecovered {j r : Nat} (hj : j < g.dataShards) (hr : r < g.chunkSize)
    (hstor : g.getStoragePointer g.lostFirst.pointer = .ok (j, r))
    (hrun : g.copyRecovered (g.shards rs g.markedStripe 0) [g.lostFirst] mid = .ok buffer)
    (hone : buffer 0 = 1) : j = 0 ∧ r = 0 := by
  have hlt : 0 < g.numStripes g.markedStripe.length := by
    rw [numStripes_markedStripe]
    exact Nat.one_pos
  have hsize : g.lostFirst.size = g.chunkSize := rfl
  have hoff : g.lostFirst.offset = 0 := rfl
  have hshard := g.length_shard rs hlt (show j < g.storages by unfold storages; omega)
  simp only [copyRecovered, hstor, Bind.bind, Except.bind, Nat.mod_eq_of_lt hr, hshard,
    hsize, hoff] at hrun
  split at hrun
  · cases hrun
  · have hr0 : r = 0 := by omega
    subst hr0
    refine ⟨?_, rfl⟩
    cases hrun
    have hfirst := g.getElem?_dataChunk hlt hj g.chunkSize_pos
    rw [← g.shards_getD_data rs hlt hj, zero_mul, zero_add, add_zero] at hfirst
    rw [drop_zero, take_of_length_le (le_of_eq hshard)] at hone
    apply g.markedStripe_chunk
    rw [← hone]
    exact (splice_at hfirst).symm

theorem groupAligned_of_agree (h : g.DegradedReadsAgree rs) : g.GroupAligned := by
  obtain ⟨usable, mid, buffer, hcount, hrun, hone⟩ := g.reconstruct_of_agree rs hparity h
  obtain ⟨u, j, r, hj, hr, hbits⟩ :=
    exists_stripedAddress g.dataShards_pos g.chunkSize_pos (groupBits g.groupId)
  have hstripe : g.lostFirst.stripeId = wrap 64 u := by
    change wrap 64 (g.lostFirst.pointer / (g.dataShards * g.chunkSize)) = _
    rw [g.lostFirst_pointer, hbits, stripedAddress_div hj hr]
  obtain ⟨w, hword⟩ := g.word_dvd_of_reconstruct rs hstripe hrun
  have hfit : g.chunkSize < 2 ^ 64 := lt_of_le_of_lt g.chunkSize_le_stripeSize g.stripeSize_lt
  have hstor : g.getStoragePointer g.lostFirst.pointer = .ok (j, r) := by
    rw [g.lostFirst_pointer, hbits, g.getStoragePointer_striped hj hr, hword, add_comm,
      wrap_add_mul, wrap_of_lt (by omega)]
  have hrecover := g.recoverStripe_ok (g.markedMemory_stores rs) usable (le_refl 0)
    (by rw [numStripes_markedStripe]; exact Nat.one_pos)
    (show wrap 64 (g.chunkSize * g.lostFirst.stripeId) = 0 * g.chunkSize by
      rw [hstripe, wrap_mul_wrap, mul_comm, hword, zero_mul, wrap, Nat.mul_mod_right])
    (hcount _)
  simp only [reconstruct, hrecover, Bind.bind, Except.bind, filter_cons, decide_true,
    if_true, filter_nil] at hrun
  rcases hcopy : g.copyRecovered (g.shards rs g.markedStripe 0) [g.lostFirst] mid with e | b
  · rw [Nat.sub_self, hcopy] at hrun
    cases hrun
  · rw [Nat.sub_self, hcopy] at hrun
    cases hrun
    obtain ⟨rfl, rfl⟩ := g.chunk_of_copyRecovered rs hj hr hstor hcopy hone
    refine ⟨u, ?_, w, hword⟩
    rw [hbits]
    simp [stripedAddress, stripeSize]

end MarkedStripe

end EcGeometry

/-- Degraded reads agree with healthy reads exactly when there are no parities,
or the group id in its bits of a pointer is a multiple of the stripe size and
of the data shards times the word. -/
theorem degraded_reads_agree_iff (cfg : EcConfig) (rs : cfg.geometry.Coder) :
    cfg.geometry.DegradedReadsAgree rs ↔
      cfg.config.parityShards = 0 ∨
        cfg.config.getStripeSize ∣ groupBits cfg.config.id ∧
          2 ^ 64 * cfg.config.dataShards ∣ groupBits cfg.config.id := by
  have haligned := cfg.geometry.groupAligned_iff
  rw [cfg.geometry_stripeSize] at haligned
  constructor
  · intro h
    rcases Nat.eq_zero_or_pos cfg.config.parityShards with hzero | hparity
    · exact .inl hzero
    · exact .inr (haligned.mp (cfg.geometry.groupAligned_of_agree rs hparity h))
  · rintro (hzero | hdvd)
    · exact cfg.geometry.degradedReadsAgree_of_aligned rs (.inl hzero)
    · exact cfg.geometry.degradedReadsAgree_of_aligned rs (.inr (haligned.mpr hdvd))

/-- A mirrored group with id one and stripes of three KiB. -/
def threeKib : EcConfig where
  json := ⟨1, "ERASURE_CODING", 2, 1, 1, 3⟩
  config := ⟨1, .erasureCoding, 2, 1, 1, 3⟩
  accepted := rfl
  erasureCoding := rfl
  stripeSize_pos := by decide
  stripeSize_lt := by decide

/-- The stripe size of three KiB does not divide the bits of group one: its
degraded reads do not agree. -/
theorem degraded_read_disagrees :
    ¬ ∀ (cfg : EcConfig) (rs : cfg.geometry.Coder), cfg.geometry.DegradedReadsAgree rs := by
  intro h
  have haligned := threeKib.geometry.groupAligned_of_agree (mirrorCoder 1 _) Nat.one_pos
    (h threeKib (mirrorCoder 1 _))
  have hdvd := (threeKib.geometry.groupAligned_iff.mp haligned).1
  rw [threeKib.geometry_stripeSize] at hdvd
  exact absurd hdvd (by decide +kernel)

end UhCore.Group
