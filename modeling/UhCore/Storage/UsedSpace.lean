import UhCore.Storage.LivePagesInvariant
import UhCore.Lib.Intervals

/-!
The space accounting of a data store. A write adds the size of its allocation;
freeing a page subtracts the page as far as it lies below the write offset,
whether or not its last bytes were ever written.
-/

namespace UhCore.Storage

open Words Blocks Bytes List DataStore

namespace DataStore

/-- `space` is what the file system has available, if it can be asked. -/
def getAvailableSpace (s : DataStore) (space : Option Nat) : Nat :=
  let capacity := wsub 64 s.conf.maxDataStoreSize s.usedSpace
  match space with
  | some available => min available capacity
  | none => capacity

variable {s s' : DataStore}

theorem write_usedSpace {a : Allocation} {buffers : List (List UInt8)} {refcounts : List Refcount}
    (h : s.write a buffers refcounts = (.ok (), s')) :
    s'.usedSpace = wrap 64 (s.usedSpace + a.size) := by
  simp only [write] at h
  split at h
  · cases h
  · split at h
    · cases h
    · obtain rfl := congrArg Prod.snd h
      rfl

end DataStore

namespace UsedSpace

open LivePages Transition Intervals

/-- The number of bytes that were written. -/
def totalWritten (w : Run) : Nat := (w.written.map fun v => v.allocation.size).sum

def allocationBytes (page : Nat) (pages : List Nat) (a : Allocation) : Nat :=
  ((Finset.Ico a.offset a.finish).filter (fun p => p / page ∈ pages)).card

/-- The number of written bytes that lie in one of the pages. -/
def bytesIn (w : Run) (pages : List Nat) : Nat :=
  (w.written.map fun v => allocationBytes w.page pages v.allocation).sum

/-- The used space is what was written less what lies in pages that unlinks
freed, and the available space is within the capacity. -/
def SpaceExact (w : Run) : Prop :=
  w.store.usedSpace + bytesIn w w.removed = totalWritten w ∧
    ∀ space, w.store.getAvailableSpace space ≤ w.store.conf.maxDataStoreSize

/-- An unlink of these counts returns the number of written bytes in the pages
it frees. -/
def UnlinkExact (w : Run) (refcounts : List Refcount) : Prop :=
  match w.store.unlink refcounts with
  | (.error _, _) => True
  | (.ok freed, store) =>
    freed = bytesIn w (droppedPages refcounts w.store.refcounter store.refcounter)

/-- One allocation was written over the page up to its end, or up to the write
offset. -/
def FullPage (w : Run) (t : Nat) : Prop :=
  ∃ v ∈ w.written, v.allocation.offset ≤ t * w.page ∧
    min ((t + 1) * w.page) w.store.writeOffset ≤ v.allocation.finish

def UsesUpFullPages (w : Run) (refcounts : List Refcount) : Prop :=
  ∀ rc ∈ refcounts, ∀ current ∈ w.store.refcounter rc.stripeId,
    current ≤ countOf refcounts rc.stripeId → FullPage w rc.stripeId

/-- The condition on the steps of a run: allocations start within the capacity
and stay in the 64-bit address space, unlinks use up full pages. -/
def Accounted (w : Run) : Action → Prop
  | .allocate size => AllocationFits w.store.conf w.store.writeOffset size ∧
      alignUp w.store.writeOffset w.page ≤ w.store.conf.maxDataStoreSize
  | .unlink refcounts => UsesUpFullPages w refcounts
  | _ => True

instance (w : Run) (t : Nat) : Decidable (FullPage w t) :=
  inferInstanceAs (Decidable (∃ v ∈ w.written, _ ∧ _))

instance (w : Run) (refcounts : List Refcount) : Decidable (UsesUpFullPages w refcounts) :=
  inferInstanceAs (Decidable (∀ rc ∈ refcounts, ∀ current ∈ w.store.refcounter rc.stripeId, _))

instance (w : Run) : (action : Action) → Decidable (Accounted w action)
  | .allocate _ => inferInstanceAs (Decidable (_ ∧ _))
  | .unlink refcounts => inferInstanceAs (Decidable (UsesUpFullPages w refcounts))
  | .write .. | .link _ => inferInstanceAs (Decidable True)

/-- The addresses of the written allocations. -/
def writtenRanges (w : Run) : List Range :=
  w.written.map fun v => (v.allocation.offset, v.allocation.finish)

variable {w : Run} {refcounts : List Refcount} {pages : List Nat} {size : Nat} {a : Allocation}
  {w' : Run}

theorem writtenRanges_separate (h : LivePages.Inv w) : (writtenRanges w).Pairwise Separate := by
  have hapart := (pairwise_append.mp h.apart).2.1
  rw [pairwise_map] at hapart
  rw [writtenRanges, pairwise_map]
  refine hapart.imp ?_
  intro u v huv
  have hu := le_alignUp u.allocation.finish w.page
  have hv := le_alignUp v.allocation.finish w.page
  rcases huv with h | h
  · exact Or.inl (hu.trans h)
  · exact Or.inr (hv.trans h)

theorem bytesIn_eq_card (h : LivePages.Inv w) (pages : List Nat) : bytesIn w pages =
      ((occupied (writtenRanges w)).filter (fun p => p / w.page ∈ pages)).card := by
  rw [card_filter_occupied (writtenRanges_separate h), writtenRanges, List.map_map]
  rfl

theorem totalWritten_eq_card (h : LivePages.Inv w) :
    totalWritten w = (occupied (writtenRanges w)).card := by
  rw [card_occupied (writtenRanges_separate h), writtenRanges, List.map_map, totalWritten]
  congr 1
  apply map_congr_left
  intro v _
  simp [Allocation.finish]

theorem totalWritten_le (h : LivePages.Inv w) : totalWritten w ≤ w.store.writeOffset := by
  rw [totalWritten_eq_card h]
  apply card_occupied_le
  intro r hr
  obtain ⟨v, hv, rfl⟩ := List.mem_map.mp hr
  exact (h.placed_written hv).below

theorem bytesIn_le_total (h : LivePages.Inv w) (pages : List Nat) :
    bytesIn w pages ≤ totalWritten w := by
  rw [bytesIn_eq_card h, totalWritten_eq_card h]
  exact Finset.card_filter_le _ _

theorem bytesIn_congr (w : Run) {pages' : List Nat} (h : ∀ t, t ∈ pages ↔ t ∈ pages') :
    bytesIn w pages = bytesIn w pages' := by
  simp only [bytesIn, allocationBytes, h]

theorem bytesIn_append (h : LivePages.Inv w) {more : List Nat} (hdisj : pages.Disjoint more) :
    bytesIn w (pages ++ more) = bytesIn w pages + bytesIn w more := by
  rw [bytesIn_eq_card h, bytesIn_eq_card h, bytesIn_eq_card h, ← Finset.card_union_of_disjoint,
    ← Finset.filter_or]
  · simp only [mem_append]
  · apply Finset.disjoint_filter.mpr
    intro p _ hp hp'
    exact hdisj hp hp'

/-- The written bytes of a full page are those that freeing it subtracts. -/
theorem bytesIn_full (h : LivePages.Inv w) {t : Nat} (hfull : FullPage w t) :
    bytesIn w [t] = w.store.pageBytes t := by
  have hpage := w.page_pos
  have hsame : w.store.conf.pageSize = w.page := rfl
  have hfilter : (occupied (writtenRanges w)).filter (fun p => p / w.page ∈ [t]) =
      Finset.Ico (t * w.page) (min ((t + 1) * w.page) w.store.writeOffset) := by
    ext p
    have hdiv : p / w.page = t ↔ t * w.page ≤ p ∧ p < (t + 1) * w.page := by
      rw [← Nat.le_div_iff_mul_le hpage, ← Nat.div_lt_iff_lt_mul hpage]
      omega
    rw [Finset.mem_filter, Finset.mem_Ico, mem_singleton, hdiv, mem_occupied, lt_min_iff]
    constructor
    · rintro ⟨⟨r, hr, _, hhigh⟩, hlow, hlt⟩
      obtain ⟨v, hv, rfl⟩ := List.mem_map.mp hr
      exact ⟨hlow, hlt, lt_of_lt_of_le hhigh (h.placed_written hv).below⟩
    · rintro ⟨hlow, hlt, hbelow⟩
      obtain ⟨v, hv, hstart, hend⟩ := hfull
      refine ⟨⟨_, List.mem_map_of_mem hv, hstart.trans hlow, ?_⟩, hlow, hlt⟩
      exact lt_of_lt_of_le (lt_min hlt hbelow) hend
  rw [bytesIn_eq_card h, hfilter, Nat.card_Ico, pageBytes, hsame]

theorem bytesIn_full_pages (h : LivePages.Inv w) (hnodup : pages.Nodup)
    (hfull : ∀ t ∈ pages, FullPage w t) : bytesIn w pages = (pages.map w.store.pageBytes).sum := by
  induction pages with
  | nil => simp [bytesIn, allocationBytes]
  | cons t rest ih =>
    obtain ⟨hnot, hrest⟩ := nodup_cons.mp hnodup
    have hdisj : [t].Disjoint rest := by simpa using hnot
    rw [← singleton_append, bytesIn_append h hdisj,
      bytesIn_full h (hfull t mem_cons_self),
      ih hrest (fun u hu => hfull u (mem_cons_of_mem _ hu))]
    simp

/-- What holds between the requests of an accounted run. -/
structure Inv (w : Run) : Prop where
  pages : LivePages.Inv w
  capacity : w.store.writeOffset ≤ w.store.conf.maxDataStoreSize
  used : w.store.usedSpace + bytesIn w w.removed = totalWritten w

theorem inv_start (conf : DataStoreConfig) : Inv (start conf) :=
  ⟨LivePages.inv_start conf, Nat.zero_le _, rfl⟩

theorem Inv.usedSpace_le (h : Inv w) : w.store.usedSpace ≤ w.store.conf.maxDataStoreSize := by
  have htotal := totalWritten_le h.pages
  have hcap := h.capacity
  have hused := h.used
  omega

theorem Inv.spaceExact (h : Inv w) : SpaceExact w := by
  refine ⟨h.used, ?_⟩
  have hmax := w.store.conf.maxDataStoreSize_lt
  have hle := h.usedSpace_le
  have hsub := wsub_of_le hle (show w.store.usedSpace ≤ 2 ^ 64 by omega) (by omega)
  intro space
  cases space with
  | none =>
    simp only [getAvailableSpace, hsub]
    omega
  | some available =>
    simp only [getAvailableSpace, hsub]
    omega

theorem Inv.allocate_step {w : Run} (h : Inv w)
    (hfits : AllocationFits w.store.conf w.store.writeOffset size)
    (hstart : alignUp w.store.writeOffset w.page ≤ w.store.conf.maxDataStoreSize)
    (hnext : next w (.allocate size) = some w') : Inv w' := by
  have hpages := h.pages.allocate_step hfits hnext
  simp only [LivePages.next, allocate, Run.page] at hnext
  split at hnext
  · cases halloc : allocateAt w.store.conf.maxDataStoreSize w.store.writeOffset size
      w.store.conf.pageSize with
    | error e =>
      simp only [halloc, Option.some.injEq] at hnext
      exact hnext ▸ h
    | ok a =>
      obtain ⟨rfl, hroom⟩ := allocateAt_within halloc hstart w.store.conf.maxDataStoreSize_lt
      simp only [halloc, Option.some.injEq] at hnext
      subst hnext
      exact ⟨hpages, (wrap_le 64 _).trans hroom, h.used⟩
  · cases hnext

theorem Inv.write_step {w : Run} (h : Inv w) {buffers : List (List UInt8)}
    (hnext : next w (.write a buffers refcounts) = some w') : Inv w' := by
  have hpages := h.pages.write_step hnext
  simp only [LivePages.next] at hnext
  split at hnext
  · rename_i hguard
    obtain ⟨hpend, hsum, hcover⟩ := hguard
    have hplace := h.pages.placed a (mem_append_left _ hpend)
    obtain ⟨store, hrun, heff⟩ := write_ok h.pages.filesOk refcounts hsum
      (lt_of_le_of_lt (le_alignUp _ w.page) hplace.word)
    simp only [hrun, Option.some.injEq] at hnext
    subst hnext
    have hoff : store.writeOffset = w.store.writeOffset := by
      rw [heff.writeOffset]
      exact max_eq_left hplace.below
    have hcap : store.writeOffset ≤ store.conf.maxDataStoreSize := by
      rw [hoff, heff.conf]
      exact h.capacity
    refine ⟨hpages, hcap, ?_⟩
    have hnone : allocationBytes w.page w.removed a = 0 := by
      rw [allocationBytes, Finset.card_eq_zero, Finset.filter_eq_empty_iff]
      intro p hp hremoved
      obtain ⟨hlow, hhigh⟩ := Finset.mem_Ico.mp hp
      obtain ⟨_, ⟨v, hv, hvt⟩, _⟩ := h.pages.removed _ hremoved
      exact h.pages.pending_apart hpend hv hvt
        (page_mem_coveredPages w.page_pos hplace.aligned hplace.nonempty hlow hhigh)
    have htotal := totalWritten_le hpages
    have hmax := store.conf.maxDataStoreSize_lt
    have hused := h.used
    have hadded := write_usedSpace hrun
    simp only [totalWritten, bytesIn, Run.page, heff.conf, map_cons, sum_cons]
      at htotal hused hnone ⊢
    rw [hadded, hnone, wrap_of_lt (by omega)]
    omega
  · cases hnext

theorem Inv.link_step {w : Run} (h : Inv w) (hnext : next w (.link refcounts) = some w') :
    Inv w' := by
  have hpages := h.pages.link_step hnext
  simp only [LivePages.next, link, Option.some.injEq] at hnext
  subst hnext
  exact ⟨hpages, h.capacity, h.used⟩

theorem Inv.unlinked (h : Inv w) {stripes : List Nat} {refcounter : RefTable}
    (hfull : UsesUpFullPages w refcounts)
    (htxn : decrementTxn refcounts w.store.refcounter = .ok (stripes, refcounter)) :
    ∃ store, w.store.unlink refcounts = (.ok (bytesIn w stripes), store) ∧
      DataStore.SameButBytes { w.store with refcounter := refcounter } store ∧
      store.usedSpace + bytesIn w stripes = w.store.usedSpace ∧
      stripes.Disjoint w.removed := by
  obtain ⟨hnodup, hfreed⟩ := decrementTxn_freed htxn
  have htrack : ∀ t ∈ stripes, w.Tracked t := by
    intro t ht
    exact ((decrementTxn_tracked htxn t).2.mp ht).1
  have hpagesFull : ∀ t ∈ stripes, FullPage w t := by
    intro t ht
    obtain ⟨hmem, current, hcur, hle⟩ := hfreed t ht
    obtain ⟨rc, hrc, rfl⟩ := List.mem_map.mp hmem
    exact hfull rc hrc current hcur hle
  have hdisj : stripes.Disjoint w.removed := by
    intro t ht hremoved
    exact (h.pages.removed t hremoved).1 (htrack t ht)
  have hbytes := bytesIn_full_pages h.pages hnodup hpagesFull
  have hsum := bytesIn_append h.pages hdisj
  have hle := bytesIn_le_total h.pages (stripes ++ w.removed)
  have hused := h.used
  have hmax := w.store.conf.maxDataStoreSize_lt
  have hwithin := h.usedSpace_le
  have hlt : w.store.usedSpace < 2 ^ 64 := by omega
  have hcovered : (stripes.map w.store.pageBytes).sum ≤ w.store.usedSpace := by omega
  obtain ⟨store, hrun, hsame, _, hspace⟩ := unlink_ok h.pages.filesOk h.pages.word htxn
    h.pages.releasable_tracked
  rw [wrap_of_lt (lt_of_le_of_lt hcovered hlt)] at hrun
  rw [hbytes]
  exact ⟨store, hrun, hsame, hspace hlt hcovered, hdisj⟩

theorem Inv.unlinkExact (h : Inv w) (hfull : UsesUpFullPages w refcounts) :
    UnlinkExact w refcounts := by
  cases htxn : decrementTxn refcounts w.store.refcounter with
  | error e => simp only [UnlinkExact, unlink, htxn]
  | ok result =>
    obtain ⟨store, hrun, hsame, _⟩ := h.unlinked hfull htxn
    simp only [UnlinkExact, hrun, hsame.refcounter]
    exact (bytesIn_congr w (mem_droppedPages_iff htxn)).symm

theorem Inv.unlink_step {w : Run} (h : Inv w) (hfull : UsesUpFullPages w refcounts)
    (hnext : next w (.unlink refcounts) = some w') : Inv w' := by
  have hpages := h.pages.unlink_step hnext
  simp only [LivePages.next, Option.some.injEq] at hnext
  cases htxn : decrementTxn refcounts w.store.refcounter with
  | error e =>
    simp only [unlink, htxn, droppedPages_self, nil_append] at hnext
    exact hnext ▸ h
  | ok result =>
    obtain ⟨stripes, refcounter⟩ := result
    obtain ⟨store, hrun, hsame, hspace, hdisj⟩ := h.unlinked hfull htxn
    have hctr := hsame.refcounter
    have hpage : store.conf = w.store.conf := hsame.conf
    simp only [hrun] at hnext
    subst hnext
    have hcap : store.writeOffset ≤ store.conf.maxDataStoreSize := by
      rw [hpage]
      exact hsame.writeOffset.trans_le h.capacity
    refine ⟨hpages, hcap, ?_⟩
    have hmembers : ∀ t, t ∈ droppedPages refcounts w.store.refcounter store.refcounter ++
        w.removed ↔ t ∈ stripes ++ w.removed := by
      intro t
      rw [mem_append, mem_append, hctr, mem_droppedPages_iff htxn]
    have hsplit := (bytesIn_congr w hmembers).trans (bytesIn_append h.pages hdisj)
    have hused := h.used
    simp only [totalWritten, bytesIn, Run.page, hpage] at hsplit hused hspace ⊢
    omega

theorem Inv.step {w : Run} {action : Action} (h : Inv w) (hok : Accounted w action)
    (hnext : next w action = some w') : Inv w' := by
  cases action with
  | allocate size => exact h.allocate_step hok.1 hok.2 hnext
  | write a buffers refcounts => exact h.write_step hnext
  | link refcounts => exact h.link_step hnext
  | unlink refcounts => exact h.unlink_step hok hnext

/-- In every run whose allocations start within the capacity and stay in the
64-bit address space, and whose unlinks use up full pages, the used space is
exact and so is the result of every such unlink. -/
theorem used_space_exact (conf : DataStoreConfig) {w : Run}
    (h : Reachable next Accounted (start conf) w) :
    SpaceExact w ∧ ∀ refcounts, Accounted w (.unlink refcounts) → UnlinkExact w refcounts := by
  have hinv : Inv w := by
    apply Reachable.invariant (inv_start conf) _ h
    intro s a s' hs hok hnext
    exact hs.step hok hnext
  exact ⟨hinv.spaceExact, fun refcounts hfull => hinv.unlinkExact hfull⟩

/-- A run that writes three pages, the last of them in part, frees the second,
and ends before an unlink of the last one. -/
theorem used_space_exact_small :
    ∃ w, Reachable next Accounted (start smallConfig) w ∧
      (w.store.usedSpace = 5 ∧ w.removed = [1] ∧ Accounted w (.unlink [⟨2, 1⟩])) ∧
      SpaceExact w ∧ UnlinkExact w [⟨2, 1⟩] := by
  apply exists_sample
    [.allocate 9, .write ⟨0, 9⟩ [[1, 2, 3], [4, 5, 6, 7, 8, 9]] [⟨0, 1⟩, ⟨1, 1⟩, ⟨2, 1⟩],
      .unlink [⟨1, 1⟩]] (by decide +kernel)
  intro w hreach hw
  have hexact := used_space_exact smallConfig hreach
  exact ⟨hexact.1, hexact.2 _ hw.2.2⟩

/-- Freeing a page that was written in part subtracts its padding: after two
writes of one byte the unlink of the first one's page takes four bytes from a
used space of two. -/
theorem padding_subtracted :
    ¬ ∀ (conf : DataStoreConfig) (w : Run), Reachable next (fun _ _ => True) (start conf) w →
      SpaceExact w ∧ ∀ refcounts, UnlinkExact w refcounts := by
  intro hall
  obtain ⟨w, hexact, hused, hmax⟩ := exists_of_forall (hall smallConfig)
    (fun w => w.store.usedSpace = 2 ^ 64 - 2 ∧ w.store.getAvailableSpace none = 12 ∧
      w.store.conf.maxDataStoreSize = 10)
    [.allocate 1, .write ⟨0, 1⟩ [[1]] [⟨0, 1⟩], .allocate 1, .write ⟨4, 1⟩ [[1]] [⟨1, 1⟩],
      .unlink [⟨0, 1⟩]] (by decide +kernel)
  have hwithin := hexact.1.2 none
  omega

end UsedSpace

end UhCore.Storage
