import UhCore.Storage.Reopen

/-!
The capacity of a data store. `allocate` compares the size with the difference
of the capacity and the aligned start, which is a 64-bit word: where the aligned
start is behind the capacity the difference is almost the whole address space,
and the allocation is let through.
-/

namespace UhCore.Storage

open Words Blocks Transition LivePages

/-- The number of files that the constructor reserves space for. -/
def DataStoreConfig.fileCapacity (conf : DataStoreConfig) : Nat :=
  conf.maxDataStoreSize / conf.maxFileSize + 1

namespace DataStore

/-- An allocation is refused and nothing changes, or it ends in the store; then
no write to it makes more files than there is space for. -/
def CapacityRespected (s : DataStore) (size alignment : Nat) : Prop :=
  match s.allocate size alignment with
  | (.error _, s') => s'.writeOffset = s.writeOffset
  | (.ok a, _) => a.finish ≤ s.conf.maxDataStoreSize ∧
      ∀ (t : DataStore) buffers refcounts, t.conf = s.conf → t.files.length ≤ s.conf.fileCapacity →
        (t.write a buffers refcounts).2.files.length ≤ s.conf.fileCapacity

def allocationStart (s : DataStore) (alignment : Nat) : Nat :=
  wrap 64 (alignUp s.writeOffset alignment)

variable {a : Allocation} {s : DataStore} {size alignment : Nat}

/-- A write makes the files up to the end of its allocation and no more. -/
theorem length_files_write (s : DataStore) (hword : a.finish < 2 ^ 64) (buffers : List (List UInt8))
    (refcounts : List Refcount) :
    (s.write a buffers refcounts).2.files.length =
      max s.files.length (a.finish / s.conf.maxFileSize + 1) := by
  have hfin : a.finish = a.offset + a.size := rfl
  have hgrown : (s.allocateFiles a.offset a.size).files.length =
      max s.files.length (a.finish / s.conf.maxFileSize + 1) := by
    simp only [allocateFiles, wrap_of_lt hword, List.length_append, List.length_replicate, ← hfin]
    omega
  have hwrite := length_writeBuffers s.conf.maxFileSize
    (s.allocateFiles a.offset a.size).files a.offset buffers
  have hconf : (s.allocateFiles a.offset a.size).conf = s.conf := rfl
  rw [← hgrown]
  simp only [write, hconf]
  split
  · rfl
  · split
    · rename_i hrun
      rwa [hrun] at hwrite
    · rename_i hrun
      rwa [hrun] at hwrite

theorem length_files_write_le {t : DataStore} (hend : a.finish ≤ s.conf.maxDataStoreSize)
    (hconf : t.conf = s.conf) (hfiles : t.files.length ≤ s.conf.fileCapacity)
    (buffers : List (List UInt8)) (refcounts : List Refcount) :
    (t.write a buffers refcounts).2.files.length ≤ s.conf.fileCapacity := by
  have hmax := s.conf.maxDataStoreSize_lt
  rw [length_files_write t (by omega), hconf]
  exact Nat.max_le.mpr ⟨hfiles, Nat.add_le_add_right (Nat.div_le_div_right hend) 1⟩

theorem capacityRespected_of_error {e : Exn}
    (h : allocateAt s.conf.maxDataStoreSize s.writeOffset size alignment = .error e) :
    s.CapacityRespected size alignment := by
  unfold CapacityRespected allocate
  rw [h]

theorem capacityRespected_of_ok
    (h : allocateAt s.conf.maxDataStoreSize s.writeOffset size alignment = .ok a) :
    s.CapacityRespected size alignment ↔ a.finish ≤ s.conf.maxDataStoreSize := by
  unfold CapacityRespected allocate
  rw [h]
  refine ⟨fun hrespected => hrespected.1, fun hend => ⟨hend, ?_⟩⟩
  intro t buffers refcounts hconf hfiles
  exact length_files_write_le hend hconf hfiles buffers refcounts

theorem allocateAt_eq_ite (writeOffset : Nat) {maxDataStoreSize : Nat}
    (hmax : maxDataStoreSize < 2 ^ 64) (hsize : 0 < size) (halignment : 0 < alignment) :
    allocateAt maxDataStoreSize writeOffset size alignment =
      if maxDataStoreSize + (if wrap 64 (alignUp writeOffset alignment) ≤ maxDataStoreSize then 0
          else 2 ^ 64) < wrap 64 (alignUp writeOffset alignment) + size then
        .error (.runtimeError ("datastore cannot store additional " ++ toString size ++ " bytes"))
      else .ok ⟨wrap 64 (alignUp writeOffset alignment), size⟩ := by
  have hstart : wrap 64 (alignUp writeOffset alignment) < 2 ^ 64 := wrap_lt 64 _
  unfold allocateAt
  rw [if_neg halignment.ne', if_neg hsize.ne']
  generalize wrap 64 (alignUp writeOffset alignment) = start at hstart
  split
  case isTrue hle =>
    have hfree := wsub_of_le hle (le_of_lt hstart) (by omega)
    simp only [hfree]
    congr 1
    exact propext (by omega)
  case isFalse hbehind =>
    have hfree : wsub 64 maxDataStoreSize start = maxDataStoreSize + (2 ^ 64 - start) :=
      wrap_of_lt (by omega)
    simp only [hfree]
    congr 1
    exact propext (by omega)

/-- The capacity is respected unless the aligned start is behind the capacity
and the size fits into what is left of the address space. -/
theorem capacity_respected_iff (s : DataStore) {size alignment : Nat} (hsize : 0 < size)
    (halignment : 0 < alignment) :
    s.CapacityRespected size alignment ↔
      s.allocationStart alignment ≤ s.conf.maxDataStoreSize ∨
        2 ^ 64 < size + (s.allocationStart alignment - s.conf.maxDataStoreSize) := by
  have hallocate := allocateAt_eq_ite s.writeOffset s.conf.maxDataStoreSize_lt hsize halignment
  have hstart : s.allocationStart alignment < 2 ^ 64 := wrap_lt 64 _
  change allocateAt _ _ _ _ = if _ + (if s.allocationStart alignment ≤ _ then 0 else 2 ^ 64) <
    s.allocationStart alignment + size then _ else .ok ⟨s.allocationStart alignment, size⟩ at hallocate
  split at hallocate
  case isTrue hle =>
    split at hallocate
    case isTrue => exact iff_of_true (capacityRespected_of_error hallocate) (.inl hle)
    case isFalse hfits =>
      refine iff_of_true ((capacityRespected_of_ok hallocate).mpr ?_) (.inl hle)
      simp only [Allocation.finish]
      omega
  case isFalse hbehind =>
    split at hallocate
    case isTrue hshort =>
      refine iff_of_true (capacityRespected_of_error hallocate) (.inr ?_)
      omega
    case isFalse hfits =>
      rw [capacityRespected_of_ok hallocate]
      refine iff_of_false ?_ ?_
      · simp only [Allocation.finish]
        omega
      · omega

theorem capacity_respected_small :
    (fresh smallConfig).allocationStart 4 ≤ smallConfig.maxDataStoreSize ∧
      (fresh smallConfig).CapacityRespected 9 4 := by
  have hstart : (fresh smallConfig).allocationStart 4 ≤
      smallConfig.maxDataStoreSize := by decide
  exact ⟨hstart, (capacity_respected_iff _ (by decide) (by decide)).mpr (.inl hstart)⟩

/-- In a store of ten bytes, a second allocation starts at the page border
behind the capacity; writing a third one makes a file more than there is space
for. -/
theorem capacity_exceeded :
    (∃ w : LivePages.Run,
      Reachable next (fun _ _ => True) (start smallConfig) w ∧
        (w.store.allocate 1 4).1 = .ok ⟨12, 1⟩ ∧ w.store.conf.maxDataStoreSize = 10) ∧
    ∃ w : LivePages.Run,
      Reachable next (fun _ _ => True) (start smallConfig) w ∧
        w.store.files.length = 3 ∧ w.store.conf.fileCapacity = 2 := by
  constructor
  · exact exists_reachable_of_runWhile _ [.allocate 9] (by decide +kernel)
  · exact exists_reachable_of_runWhile _
      [.allocate 9, .allocate 1, .allocate 1, .write ⟨16, 1⟩ [[7]] [⟨4, 1⟩]] (by decide +kernel)

end DataStore

end UhCore.Storage
