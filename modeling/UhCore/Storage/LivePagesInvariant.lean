import UhCore.Storage.LivePages

/-!
Every request of a run keeps the invariant of live pages, as long as
allocations stay in the 64-bit address space; the run at the end of this file
shows what an allocation that wraps around it overwrites.
-/

namespace UhCore.Storage.LivePages

open Words Blocks Bytes Transition List DataStore Run

theorem inv_start (conf : DataStoreConfig) : Inv (start conf) := by
  refine ⟨fresh_filesOk conf, Nat.two_pow_pos 64, ?_, List.Pairwise.nil, ?_, ?_,
    ?_, ?_, ?_, ?_⟩
  · intro a ha
    cases ha
  · intro v hv
    cases hv
  · intro v hv
    cases hv
  · intro t ht
    cases ht
  · intro v hv
    cases hv
  · intro p _
    exact congrFun (memory_fresh conf) p
  · intro t ht
    cases ht

variable {a : Allocation} {w : Run} {refcounts : List Refcount} {size t : Nat} {w' : Run}
  {before after : RefTable} {stripes : List Nat}

/-- An allocation that fits in the address space starts at the next page
border. -/
theorem allocateAt_fits {conf : DataStoreConfig} {writeOffset : Nat}
    (h : allocateAt conf.maxDataStoreSize writeOffset size conf.pageSize = .ok a)
    (hfits : AllocationFits conf writeOffset size) :
    a = ⟨alignUp writeOffset conf.pageSize, size⟩ ∧ 0 < size ∧
      alignUp (alignUp writeOffset conf.pageSize + size) conf.pageSize < 2 ^ 64 := by
  obtain ⟨_, hsize, rfl, _⟩ := allocateAt_eq_ok h
  rcases hfits with hword | ⟨hstart, hshort⟩
  · have hend := le_alignUp (alignUp writeOffset conf.pageSize + size) conf.pageSize
    rw [wrap_of_lt (by omega)]
    exact ⟨rfl, hsize, hword⟩
  · have hroom := (allocateAt_within h hstart conf.maxDataStoreSize_lt).2
    omega

theorem Inv.allocated (h : Inv w) (hsize : 0 < size)
    (hword : alignUp (alignUp w.store.writeOffset w.page + size) w.page < 2 ^ 64) : Inv { w with
      store := { w.store with writeOffset := alignUp w.store.writeOffset w.page + size }
      pending := ⟨alignUp w.store.writeOffset w.page, size⟩ :: w.pending } := by
  have hstart := le_alignUp w.store.writeOffset w.page
  have hend := le_alignUp (alignUp w.store.writeOffset w.page + size) w.page
  have hnew : Placed w.page (alignUp w.store.writeOffset w.page + size)
      ⟨alignUp w.store.writeOffset w.page, size⟩ :=
    ⟨alignUp_mod _ w.page_pos, hsize, le_refl _, hword⟩
  refine ⟨h.filesOk, lt_of_le_of_lt hend hword, ?_, ?_, h.length, h.extent, h.tracked,
    h.data, h.outside, h.removed⟩
  · intro a ha
    rcases mem_cons.mp ha with rfl | hold
    · exact hnew
    · have hplace := h.placed a hold
      exact ⟨hplace.aligned, hplace.nonempty,
        hplace.below.trans (hstart.trans (Nat.le_add_right _ _)), hplace.word⟩
  · refine List.Pairwise.cons ?_ h.apart
    intro a ha
    right
    exact alignUp_mono w.page w.page_pos (h.placed a ha).below

theorem Inv.allocate_step {w : Run} (h : Inv w)
    (hfits : AllocationFits w.store.conf w.store.writeOffset size)
    (hnext : next w (.allocate size) = some w') : Inv w' := by
  simp only [next, allocate, page] at hnext
  split at hnext
  · cases halloc : allocateAt w.store.conf.maxDataStoreSize w.store.writeOffset size
      w.store.conf.pageSize with
    | error e =>
      simp only [halloc, Option.some.injEq] at hnext
      exact hnext ▸ h
    | ok a =>
      obtain ⟨rfl, hsize, hword⟩ := allocateAt_fits halloc hfits
      have hend := le_alignUp
        (alignUp w.store.writeOffset w.store.conf.pageSize + size) w.store.conf.pageSize
      simp only [halloc, wrap_of_lt (lt_of_le_of_lt hend hword), Option.some.injEq] at hnext
      exact hnext ▸ h.allocated hsize hword
  · cases hnext

/-- The pages of an allocation are disjoint from those of every written one
when it is still pending. -/
theorem Inv.pending_apart (h : Inv w) (ha : a ∈ w.pending) {v : Written} (hv : v ∈ w.written)
    (ht : t ∈ coveredPages w.page v.allocation) : t ∉ coveredPages w.page a := by
  have hsplit := pairwise_append.mp h.apart
  have happ := hsplit.2.2 a ha v.allocation (List.mem_map_of_mem hv)
  exact happ.symm.not_mem_coveredPages w.page_pos (h.placed_written hv)
    (h.placed a (mem_append_left _ ha)) ht

theorem Inv.allocations_written (ha : a ∈ w.pending) (data : List UInt8) :
    (w.pending.erase a ++ ((⟨a, data⟩ : Written) :: w.written).map Written.allocation).Perm
      w.allocations := by
  have hpend := (perm_cons_erase ha).symm
  exact perm_middle.trans (hpend.append_right _)

theorem Inv.wrote (h : Inv w) {data : List UInt8} {store : DataStore} (hpend : a ∈ w.pending)
    (hlen : data.length = a.size) (hcover : CountsCover w.page a refcounts)
    (heff : DataStore.WriteEffect w.store a data refcounts store) : Inv { w with
      store := store
      pending := w.pending.erase a
      written := ⟨a, data⟩ :: w.written } := by
  have hplace := h.placed a (mem_append_left _ hpend)
  have hfin : a.finish = a.offset + a.size := rfl
  have hoff : store.writeOffset = w.store.writeOffset := by
    rw [heff.writeOffset]
    exact max_eq_left hplace.below
  have hpage : store.conf.pageSize = w.page := congrArg DataStoreConfig.pageSize heff.conf
  have hperm := Inv.allocations_written hpend data
  have htrack : ∀ t, (store.refcounter t).isSome → w.Tracked t ∨ t ∈ coveredPages w.page a := by
    intro t ht
    rw [heff.refcounter, increment_isSome] at ht
    rcases Bool.or_eq_true_iff.mp ht with hold | hnew
    · exact Or.inl hold
    · obtain ⟨rc, hrc, rfl⟩ := List.mem_map.mp (by simpa using hnew)
      exact Or.inr (hcover.1 rc hrc).2
  have hkept : ∀ v ∈ w.written, ∀ p, p / w.page ∈ coveredPages w.page v.allocation →
      store.memory p = w.store.memory p := by
    intro v hv p hp
    have hnot := h.pending_apart hpend hv hp
    rw [heff.memory]
    by_cases hlow : a.offset ≤ p
    · by_cases hhigh : p < a.finish
      · exact absurd (page_mem_coveredPages w.page_pos hplace.aligned hplace.nonempty
          hlow hhigh) hnot
      · exact splice_of_ge (by omega)
    · exact splice_of_lt (by omega)
  refine ⟨heff.filesOk, hoff ▸ h.word, ?_, ?_, ?_, ?_, ?_, ?_, ?_, ?_⟩
  · intro b hb
    simp only [page, hpage, hoff]
    exact h.placed b (hperm.mem_iff.mp hb)
  · simp only [page, hpage]
    exact (hperm.pairwise_iff (fun {x y} hxy => Apart.symm hxy)).mpr h.apart
  · intro v hv
    rcases mem_cons.mp hv with rfl | hold
    · exact hlen
    · exact h.length v hold
  · intro v hv
    rcases mem_cons.mp hv with rfl | hold
    · exact heff.reaches
    · exact (h.extent v hold).trans heff.extent
  · intro t ht
    simp only [page, hpage]
    rcases htrack t ht with hold | hnew
    · obtain ⟨v, hv, hvt⟩ := h.tracked t hold
      exact ⟨v, mem_cons_of_mem _ hv, hvt⟩
    · exact ⟨⟨a, data⟩, mem_cons_self, hnew⟩
  · intro v hv i b hb ht
    simp only [page, hpage] at ht
    rcases mem_cons.mp hv with rfl | hold
    · rw [heff.memory]
      exact splice_at hb
    · have hlt : i < v.data.length := (List.getElem?_eq_some_iff.mp hb).1
      have hv' := h.placed_written hold
      have hcovered : (v.allocation.offset + i) / w.page ∈ coveredPages w.page v.allocation := by
        apply page_mem_coveredPages w.page_pos hv'.aligned hv'.nonempty
        · exact Nat.le_add_right _ _
        · have := h.length v hold
          simp only [Allocation.finish]
          omega
      rw [hkept v hold _ hcovered]
      rcases htrack _ ht with hold' | hnew
      · exact h.data v hold i b hb hold'
      · exact absurd hnew (h.pending_apart hpend hold hcovered)
  · intro p hp
    rw [heff.memory]
    have hnew := hp ⟨a, data⟩ mem_cons_self
    simp only at hnew
    have hold : w.store.memory p = 0 := by
      apply h.outside
      intro v hv
      exact hp v (mem_cons_of_mem _ hv)
    by_cases hlow : a.offset ≤ p
    · rw [splice_of_ge (by omega), hold]
    · rw [splice_of_lt (by omega), hold]
  · intro t ht
    obtain ⟨hnot, ⟨v, hv, hvt⟩, hzero⟩ := h.removed t ht
    simp only [page, hpage]
    refine ⟨?_, ⟨v, mem_cons_of_mem _ hv, hvt⟩, ?_⟩
    · intro hsome
      rcases htrack t hsome with hold | hnew
      · exact hnot hold
      · exact h.pending_apart hpend hv hvt hnew
    · intro p hp
      replace hp : p / w.page = t := hp
      rw [hkept v hv p (by rw [hp]; exact hvt)]
      exact hzero p hp

theorem Inv.write_step {w : Run} (h : Inv w) {buffers : List (List UInt8)}
    (hnext : next w (.write a buffers refcounts) = some w') : Inv w' := by
  simp only [next] at hnext
  split at hnext
  · rename_i hguard
    obtain ⟨hpend, hsum, hcover⟩ := hguard
    have hplace := h.placed a (mem_append_left _ hpend)
    obtain ⟨store, hrun, heff⟩ := write_ok h.filesOk refcounts hsum
      (lt_of_le_of_lt (le_alignUp _ w.page) hplace.word)
    simp only [hrun, Option.some.injEq] at hnext
    have hlen : buffers.flatten.length = a.size := by rw [length_flatten, hsum]
    exact hnext ▸ h.wrote hpend hlen hcover heff
  · cases hnext

theorem Inv.link_step {w : Run} (h : Inv w) (hnext : next w (.link refcounts) = some w') :
    Inv w' := by
  simp only [next, link, Option.some.injEq] at hnext
  subst hnext
  have htrack : ∀ t, ((increment refcounts true w.store.refcounter).2 t).isSome ↔ w.Tracked t := by
    intro t
    rw [increment_isSome]
    simp [Run.Tracked]
  refine ⟨h.filesOk, h.word, h.placed, h.apart, h.length, h.extent, ?_, ?_, h.outside, ?_⟩
  · intro t ht
    exact h.tracked t ((htrack t).mp ht)
  · intro v hv i b hb ht
    exact h.data v hv i b hb ((htrack _).mp ht)
  · intro t ht
    obtain ⟨hnot, hcovered, hzero⟩ := h.removed t ht
    refine ⟨?_, hcovered, hzero⟩
    intro hsome
    exact hnot ((htrack t).mp hsome)

theorem mem_droppedPages (h : t ∈ droppedPages refcounts before after) :
    (before t).isSome ∧ after t = none := by
  simpa using (mem_filter.mp h).2

theorem mem_droppedPages_iff (h : decrementTxn refcounts before = .ok (stripes, after)) (t : Nat) :
    t ∈ droppedPages refcounts before after ↔ t ∈ stripes := by
  constructor
  · intro ht
    exact (decrementTxn_tracked h t).2.mpr (mem_droppedPages ht)
  · intro ht
    obtain ⟨hbef, hafter⟩ := (decrementTxn_tracked h t).2.mp ht
    exact mem_filter.mpr ⟨((decrementTxn_freed h).2 t ht).1, by simp [hbef, hafter]⟩

theorem droppedPages_self (refcounts : List Refcount) (dbi : RefTable) :
    droppedPages refcounts dbi dbi = [] := by
  apply filter_eq_nil_iff.mpr
  intro t _
  cases dbi t <;> simp

theorem Inv.unlinked (h : Inv w) {refcounter : RefTable}
    (htxn : decrementTxn refcounts w.store.refcounter = .ok (stripes, refcounter)) :
    ∃ freed store, w.store.unlink refcounts = (.ok freed, store) ∧
      Inv { w with
        store := store
        removed := droppedPages refcounts w.store.refcounter store.refcounter ++ w.removed } := by
  have hkept : ∀ t, (refcounter t).isSome → w.Tracked t := by
    intro t
    exact (decrementTxn_tracked htxn t).1
  have hfreed : ∀ t, t ∈ stripes ↔ w.Tracked t ∧ refcounter t = none := by
    intro t
    exact (decrementTxn_tracked htxn t).2
  obtain ⟨store, hrun, hsame, hmemo, _⟩ := unlink_ok h.filesOk h.word htxn h.releasable_tracked
  refine ⟨_, store, hrun, ?_⟩
  obtain ⟨hconf, hfiles, hext, hoff, hctr⟩ := hsame
  replace hext : store.extent = w.store.extent := hext
  have hpage : store.conf.pageSize = w.page := congrArg DataStoreConfig.pageSize hconf
  have hbytes : ∀ p, store.memory p =
      if p / w.page ∈ stripes ∧ p < w.store.writeOffset then 0 else w.store.memory p :=
    hmemo
  have hstill : ∀ p, p / w.page ∉ stripes → store.memory p = w.store.memory p := by
    intro p hp
    rw [hbytes p]
    simp [hp]
  have hzeroed : ∀ p, w.store.memory p = 0 → store.memory p = 0 := by
    intro p hp
    rw [hbytes p, hp]
    simp
  refine ⟨hfiles, hoff ▸ h.word, ?_, ?_, h.length, ?_, ?_, ?_, ?_, ?_⟩
  · intro a ha
    simp only [page, hpage, hoff]
    exact h.placed a ha
  · simp only [page, hpage]
    exact h.apart
  · intro v hv
    rw [hext]
    exact h.extent v hv
  · intro t ht
    simp only [Run.Tracked, hctr] at ht
    simp only [page, hpage]
    exact h.tracked t (hkept t ht)
  · intro v hv i b hb ht
    simp only [Run.Tracked, page, hpage, hctr] at ht
    replace ht : (refcounter ((v.allocation.offset + i) / w.page)).isSome = true := ht
    have hnot : (v.allocation.offset + i) / w.page ∉ stripes := by
      intro hmem
      rw [((hfreed _).mp hmem).2] at ht
      cases ht
    rw [hstill _ hnot]
    exact h.data v hv i b hb (hkept _ ht)
  · intro p hp
    exact hzeroed p (h.outside p hp)
  · intro t ht
    simp only [Run.Tracked, page, hpage, hctr] at ht ⊢
    rcases mem_append.mp ht with hdropped | hold
    · obtain ⟨hbef, hafter⟩ := mem_droppedPages hdropped
      obtain ⟨v, hv, hvt⟩ := h.tracked t hbef
      refine ⟨by simp [hafter], ⟨v, hv, hvt⟩, ?_⟩
      intro p hp
      replace hp : p / w.page = t := hp
      by_cases hlt : p < w.store.writeOffset
      · have hmem : p / w.page ∈ stripes := by
          rw [hp]
          exact (hfreed t).mpr ⟨hbef, hafter⟩
        rw [hbytes p]
        simp [hmem, hlt]
      · apply hzeroed
        apply h.outside
        rintro u hu ⟨-, hhigh⟩
        have := (h.placed_written hu).below
        omega
    · obtain ⟨hnot, hcovered, hzero⟩ := h.removed t hold
      refine ⟨?_, hcovered, ?_⟩
      · intro hsome
        exact hnot (hkept t hsome)
      · intro p hp
        exact hzeroed p (hzero p hp)

theorem Inv.unlink_step {w : Run} (h : Inv w) (hnext : next w (.unlink refcounts) = some w') :
    Inv w' := by
  cases hnext
  cases htxn : decrementTxn refcounts w.store.refcounter with
  | error e =>
    simp only [unlink, htxn, droppedPages_self, nil_append]
    exact h
  | ok result =>
    obtain ⟨freed, store, hrun, hinv⟩ := h.unlinked htxn
    rw [hrun]
    exact hinv

theorem Inv.step {w : Run} {action : Action} (h : Inv w) (hfit : AllocationsFit w action)
    (hnext : next w action = some w') : Inv w' := by
  cases action with
  | allocate size => exact h.allocate_step hfit hnext
  | write a buffers refcounts => exact h.write_step hnext
  | link refcounts => exact h.link_step hnext
  | unlink refcounts => exact h.unlink_step hnext

theorem Inv.preserved (h : Inv w) : Preserved w := by
  intro v hv offset n hlow hhigh htrack
  have hplace := h.placed_written hv
  have hlen := h.length v hv
  have hext := h.extent v hv
  have hword := hplace.word
  have hend := le_alignUp v.allocation.finish w.page
  have hfin : v.allocation.finish = v.allocation.offset + v.allocation.size := rfl
  rw [read_eq h.filesOk (hhigh.trans hext) (by omega)]
  congr 1
  apply window_eq_of_getElem?
  · rw [length_take, length_drop]
    omega
  · intro i hi
    rw [getElem?_take_of_lt hi, getElem?_drop]
    have hlt : offset - v.allocation.offset + i < v.data.length := by omega
    rw [getElem?_eq_getElem hlt]
    have haddr : v.allocation.offset + (offset - v.allocation.offset + i) = offset + i := by
      omega
    have hbyte := h.data v hv _ _ (getElem?_eq_getElem hlt)
      (by rw [haddr]; exact htrack _ (by omega) (by omega))
    rw [← hbyte, haddr]

theorem Inv.zeroed (h : Inv w) : Zeroed w := by
  intro t ht offset n hlow hhigh hword
  obtain ⟨-, ⟨v, hv, hvt⟩, hzero⟩ := h.removed t ht
  have hrelease := h.releasable hv hvt
  rw [read_eq h.filesOk (hhigh.trans hrelease.extent) hword]
  congr 1
  apply window_eq_of_getElem? (length_replicate)
  intro i hi
  have hdiv : (offset + i) / w.page = t := by
    apply Nat.div_eq_of_lt_le
    · omega
    · omega
  rw [hzero _ hdiv]
  simp [hi]

/-- In every run whose allocations stay in the 64-bit address space, tracked
pages read back what was written and removed pages read as zeroes. -/
theorem live_pages_preserved (conf : DataStoreConfig) {w : Run}
    (h : Reachable next AllocationsFit (start conf) w) : Preserved w ∧ Zeroed w := by
  have hinv : Inv w := by
    apply Reachable.invariant (inv_start conf) _ h
    intro s a s' hs hok hnext
    exact hs.step hok hnext
  exact ⟨hinv.preserved, hinv.zeroed⟩

/-- A store of ten bytes in files of two pages. -/
def smallConfig : DataStoreConfig where
  maxFileSize := 8
  maxDataStoreSize := 10
  pageSize := 4
  pageSize_pos := by decide
  maxFileSize_pos := by decide
  maxFileSize_mod := by decide
  maxDataStoreSize_lt := by decide

/-- A run that writes three pages over two files and unlinks the second. -/
theorem live_pages_preserved_small :
    ∃ w, Reachable next AllocationsFit (start smallConfig) w ∧
      (w.written.length = 1 ∧ w.removed = [1]) ∧ Preserved w ∧ Zeroed w :=
  exists_sample
    [.allocate 9, .write ⟨0, 9⟩ [[1, 2, 3], [4, 5, 6, 7, 8, 9]] [⟨0, 1⟩, ⟨1, 1⟩, ⟨2, 1⟩],
      .unlink [⟨1, 1⟩]] (by decide +kernel)
    fun _ hreach _ => live_pages_preserved smallConfig hreach

/-- Without the condition on allocations a live page is lost. The first
allocation ends in the last, partial page of the store, so the next one starts
behind the capacity and the difference wraps around: an allocation that
reaches the end of the address space is let through, the write offset becomes
zero, and the following allocation is the first page again. -/
theorem wrapped_allocation_overwrites_live_page :
    ¬ ∀ (conf : DataStoreConfig) (w : Run),
      Reachable next (fun _ _ => True) (start conf) w → Preserved w ∧ Zeroed w := by
  intro hall
  obtain ⟨w, hkept, ⟨v, hv, halloc, hdata⟩, htracked, hpage, hread⟩ :=
    exists_of_forall (hall smallConfig)
      (fun w =>
        (∃ v ∈ w.written, v.allocation = ⟨0, 9⟩ ∧ v.data = [1, 2, 3, 4, 5, 6, 7, 8, 9]) ∧
        w.Tracked 0 ∧ w.page = 4 ∧ w.store.read 0 4 = .ok [9, 9, 9, 9])
      [.allocate 9,
        .write ⟨0, 9⟩ [[1, 2, 3, 4, 5, 6, 7, 8, 9]] [⟨0, 1⟩, ⟨1, 1⟩, ⟨2, 1⟩],
        .allocate (2 ^ 64 - 12),
        .allocate 4,
        .write ⟨0, 4⟩ [[9, 9, 9, 9]] [⟨0, 1⟩]] (by decide +kernel)
  have hpreserved := hkept.1 v hv 0 4
  rw [halloc, hdata, hread, hpage] at hpreserved
  have hbytes := hpreserved (le_refl 0) (by decide) (by
    intro p _ hp
    rw [Nat.div_eq_of_lt (by omega)]
    exact htracked)
  revert hbytes
  decide

end UhCore.Storage.LivePages
