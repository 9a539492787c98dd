import UhCore.Storage.DataStore
import UhCore.Lib.Transition

/-!
Runs of one data store under its clients: allocations aligned to pages, one
write to each allocation with a count for every page it covers, links and
unlinks. Next to the store a run keeps what the clients know: the allocations
not yet written, what was written, and the pages whose entry an unlink
removed.
-/

namespace UhCore.Storage.LivePages

open Words Blocks Bytes Transition

structure Written where
  allocation : Allocation
  data : List UInt8

structure Run where
  store : DataStore
  pending : List Allocation
  written : List Written
  removed : List Nat

inductive Action where
  | allocate (size : Nat)
  | write (allocation : Allocation) (buffers : List (List UInt8))
      (refcounts : List Refcount)
  | link (refcounts : List Refcount)
  | unlink (refcounts : List Refcount)

def Run.page (w : Run) : Nat := w.store.conf.pageSize

/-- The allocations that were handed out. -/
def Run.allocations (w : Run) : List Allocation := w.pending ++ w.written.map Written.allocation

/-- The page has an entry in the refcount map. -/
def Run.Tracked (w : Run) (t : Nat) : Prop := (w.store.refcounter t).isSome

instance (w : Run) (t : Nat) : Decidable (w.Tracked t) :=
  inferInstanceAs (Decidable ((w.store.refcounter t).isSome = true))

/-- The pages from the first to the last byte of an allocation. -/
def coveredPages (page : Nat) (a : Allocation) : List Nat :=
  List.range' (a.offset / page) ((a.finish - 1) / page + 1 - a.offset / page)

def CountsCover (page : Nat) (a : Allocation) (refcounts : List Refcount) : Prop :=
  (∀ rc ∈ refcounts, 0 < rc.count ∧ rc.stripeId ∈ coveredPages page a) ∧
    ∀ t ∈ coveredPages page a, t ∈ refcounts.map Refcount.stripeId

instance (page : Nat) (a : Allocation) (refcounts : List Refcount) :
    Decidable (CountsCover page a refcounts) :=
  inferInstanceAs (Decidable (_ ∧ _))

def start (conf : DataStoreConfig) : Run := ⟨.fresh conf, [], [], []⟩

/-- The pages of a request that had an entry before and have none after. -/
def droppedPages (refcounts : List Refcount) (before after : RefTable) : List Nat :=
  (refcounts.map Refcount.stripeId).filter
    (fun t => (before t).isSome && (after t).isNone)

/-- One client request. A write is enabled on an allocation that was returned
and not yet written, with buffers of its size and counts for its pages. -/
def next (w : Run) : Action → Option Run
  | .allocate size =>
    if size < 2 ^ 64 then
      match w.store.allocate size w.page with
      | (.error _, store) => some { w with store := store }
      | (.ok a, store) => some { w with store := store, pending := a :: w.pending }
    else none
  | .write a buffers refcounts =>
    if a ∈ w.pending ∧ (buffers.map List.length).sum = a.size ∧
        CountsCover w.page a refcounts then
      match w.store.write a buffers refcounts with
      | (.error _, store) => some { w with store := store }
      | (.ok _, store) => some { w with
          store := store
          pending := w.pending.erase a
          written := ⟨a, buffers.flatten⟩ :: w.written }
    else none
  | .link refcounts => some { w with store := (w.store.link refcounts).2 }
  | .unlink refcounts =>
    let store := (w.store.unlink refcounts).2
    some { w with
      store := store
      removed := droppedPages refcounts w.store.refcounter store.refcounter ++ w.removed }

/-- Every readable range of written bytes in tracked pages reads back. -/
def Preserved (w : Run) : Prop :=
  ∀ v ∈ w.written, ∀ offset n,
    v.allocation.offset ≤ offset → offset + n ≤ v.allocation.finish →
    (∀ p, offset ≤ p → p < offset + n → w.Tracked (p / w.page)) →
    w.store.read offset n = .ok ((v.data.drop (offset - v.allocation.offset)).take n)

/-- Every range of a page whose entry was removed reads as zeroes, as far as
its addresses fit in 64 bits. -/
def Zeroed (w : Run) : Prop :=
  ∀ t ∈ w.removed, ∀ offset n,
    t * w.page ≤ offset → offset + n ≤ (t + 1) * w.page → offset + n ≤ 2 ^ 64 →
    w.store.read offset n = .ok (List.replicate n 0)

/-- The pages of an allocation of `size` bytes fit in 64-bit addresses, or the
capacity is short without the subtraction wrapping around. -/
def AllocationFits (conf : DataStoreConfig) (writeOffset size : Nat) : Prop :=
  alignUp (alignUp writeOffset conf.pageSize + size) conf.pageSize < 2 ^ 64 ∨
    (alignUp writeOffset conf.pageSize ≤ conf.maxDataStoreSize ∧
      conf.maxDataStoreSize - alignUp writeOffset conf.pageSize < size)

instance (conf : DataStoreConfig) (writeOffset size : Nat) :
    Decidable (AllocationFits conf writeOffset size) :=
  inferInstanceAs (Decidable (_ ∨ _))

/-- The condition on the steps of a run: allocations do not leave the 64-bit
address space. -/
def AllocationsFit (w : Run) : Action → Prop
  | .allocate size => AllocationFits w.store.conf w.store.writeOffset size
  | _ => True

instance (w : Run) (action : Action) : Decidable (AllocationsFit w action) := by
  cases action <;> unfold AllocationsFit <;> infer_instance

/-- Two allocations share no page. -/
def Apart (page : Nat) (a b : Allocation) : Prop :=
  alignUp a.finish page ≤ b.offset ∨ alignUp b.finish page ≤ a.offset

/-- A page-aligned allocation below the write offset whose last page ends
below the word size. -/
structure Placed (page writeOffset : Nat) (a : Allocation) : Prop where
  aligned : a.offset % page = 0
  nonempty : 0 < a.size
  below : a.finish ≤ writeOffset
  word : alignUp a.finish page < 2 ^ 64

variable {page t : Nat} {a b : Allocation} {w : Run} {v : Written}

theorem mem_coveredPages (hpage : 0 < page) (halign : a.offset % page = 0) (hsize : 0 < a.size) :
    t ∈ coveredPages page a ↔ a.offset ≤ t * page ∧ t * page < a.finish := by
  obtain ⟨k, hk⟩ := Nat.dvd_of_mod_eq_zero halign
  have hfin : a.finish = a.offset + a.size := rfl
  have hfirst : a.offset / page = k := by
    rw [hk]
    exact Nat.mul_div_cancel_left k hpage
  have hlow : k ≤ t ↔ a.offset ≤ t * page := by
    rw [hk, mul_comm page k]
    exact (Nat.mul_le_mul_right_iff hpage).symm
  have hhigh : t ≤ (a.finish - 1) / page ↔ t * page ≤ a.finish - 1 := Nat.le_div_iff_mul_le hpage
  have hmono : a.offset / page ≤ (a.finish - 1) / page := Nat.div_le_div_right (by omega)
  rw [coveredPages, List.mem_range'_1, hfirst] at *
  rw [hfirst] at hmono
  omega

theorem page_mem_coveredPages (hpage : 0 < page) (halign : a.offset % page = 0) (hsize : 0 < a.size)
    {p : Nat} (hlow : a.offset ≤ p) (hhigh : p < a.finish) : p / page ∈ coveredPages page a := by
  rw [mem_coveredPages hpage halign hsize]
  refine ⟨?_, lt_of_le_of_lt (Nat.div_mul_le_self p page) hhigh⟩
  rw [← Nat.div_mul_cancel (Nat.dvd_of_mod_eq_zero halign)]
  exact Nat.mul_le_mul_right page (Nat.div_le_div_right hlow)

/-- Allocations that share no page cover different pages. -/
theorem Apart.not_mem_coveredPages (hpage : 0 < page) {wo wo' : Nat} (happ : Apart page a b)
    (ha : Placed page wo a) (hb : Placed page wo' b) (hta : t ∈ coveredPages page a) :
    t ∉ coveredPages page b := by
  rw [mem_coveredPages hpage ha.aligned ha.nonempty] at hta
  rw [mem_coveredPages hpage hb.aligned hb.nonempty]
  rintro ⟨hb1, hb2⟩
  have ha3 := succ_mul_le_alignUp hpage hta.2
  have hb3 := succ_mul_le_alignUp hpage hb2
  rw [add_mul, one_mul] at ha3 hb3
  rcases happ with h | h <;> omega

theorem Apart.symm (h : Apart page a b) : Apart page b a :=
  Or.symm h

/-- What holds between the requests of a run. -/
structure Inv (w : Run) : Prop where
  filesOk : w.store.FilesOk
  word : w.store.writeOffset < 2 ^ 64
  placed : ∀ a ∈ w.allocations, Placed w.page w.store.writeOffset a
  apart : w.allocations.Pairwise (Apart w.page)
  length : ∀ v ∈ w.written, v.data.length = v.allocation.size
  extent : ∀ v ∈ w.written, v.allocation.finish ≤ w.store.extent
  tracked : ∀ t, w.Tracked t → ∃ v ∈ w.written, t ∈ coveredPages w.page v.allocation
  data : ∀ v ∈ w.written, ∀ i b, v.data[i]? = some b →
    w.Tracked ((v.allocation.offset + i) / w.page) →
    w.store.memory (v.allocation.offset + i) = b
  outside : ∀ p, (∀ v ∈ w.written, ¬ (v.allocation.offset ≤ p ∧ p < v.allocation.finish)) →
    w.store.memory p = 0
  removed : ∀ t ∈ w.removed, ¬ w.Tracked t ∧
    (∃ v ∈ w.written, t ∈ coveredPages w.page v.allocation) ∧
    ∀ p, p / w.page = t → w.store.memory p = 0

theorem Run.page_pos (w : Run) : 0 < w.page := w.store.conf.pageSize_pos

theorem Inv.placed_written (h : Inv w) (hv : v ∈ w.written) :
    Placed w.page w.store.writeOffset v.allocation :=
  h.placed _ (List.mem_append_right _ (List.mem_map_of_mem hv))

theorem Inv.page_extent (h : Inv w) (hv : v ∈ w.written) :
    alignUp v.allocation.finish w.page ≤ w.store.extent := by
  apply alignUp_le_of_mod_eq_zero w.page_pos (h.extent v hv)
  obtain ⟨k, hk⟩ := Nat.dvd_of_mod_eq_zero w.store.conf.maxFileSize_mod
  have hpage : w.page = w.store.conf.pageSize := rfl
  rw [DataStore.extent, hk, mul_assoc, hpage]
  exact Nat.mul_mod_right _ _

theorem Inv.releasable (h : Inv w) (hv : v ∈ w.written)
    (ht : t ∈ coveredPages w.page v.allocation) : DataStore.Releasable w.store t := by
  have hplace := h.placed_written hv
  rw [mem_coveredPages w.page_pos hplace.aligned hplace.nonempty] at ht
  have hend := succ_mul_le_alignUp w.page_pos ht.2
  exact ⟨lt_of_le_of_lt hend hplace.word, hend.trans (h.page_extent hv),
    lt_of_lt_of_le ht.2 hplace.below⟩

theorem Inv.releasable_tracked (h : Inv w) (t : Nat) (ht : w.Tracked t) :
    DataStore.Releasable w.store t := by
  obtain ⟨v, hv, hvt⟩ := h.tracked t ht
  exact h.releasable hv hvt

end UhCore.Storage.LivePages
