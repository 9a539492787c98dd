import UhCore.Storage.LivePagesInvariant
import UhCore.Lib.Decimals
import UhCore.Lib.Effects
import Mathlib.Data.Char
import Mathlib.Data.List.Sort

/-!
Closing a data store and opening it again on its directory. The destructor
writes the metadata of the data files; `ds.meta`, which has the write offset
and the used space, is written by `write` only, and the counts are in the
database already. The constructor finds the data files by a scan of the
directory and takes them in the order of their names.
-/

namespace UhCore.Storage

open Words Decimals Effects List DataStore

def extensionDataFile : String := ".data"

def extensionMetaFile : String := ".meta"

def baseName (number : Nat) : List Char := "data_".toList ++ zeroPadded 6 number

/-- What is kept in the directory of a store. `listing` has the stems and the
extensions of the entries in the order in which they are iterated over, and
`dataFile` what the two files of a data file hold. -/
structure Directory where
  listing : List (List Char × String)
  dataFile : List Char → Option DataFile
  metadata : Option Metadata
  refcounter : RefTable

namespace Directory

def empty : Directory := ⟨[], fun _ => none, none, fun _ => none⟩

/-- The data files of the scan, each name once and in the order of a set. -/
def dataFileNames (d : Directory) : List (List Char) :=
  ((d.listing.filter fun entry => entry.2 = extensionDataFile).map Prod.fst).insertionSort (· ≤ ·)

def openDataFile (d : Directory) (root : List Char) : Except Exn DataFile :=
  match d.dataFile root with
  | none => .error (.runtimeError
      ("could not open file " ++ String.ofList root ++ extensionDataFile))
  | some file => .ok file

def loadFiles (d : Directory) (filesize : Nat) : Except Exn (List DataFile) := do
  let rv ← d.dataFileNames.mapM d.openDataFile
  if rv.isEmpty then pure [DataFile.create filesize] else pure rv

end Directory

namespace DataStore

def fetchUsedSpace (files : List DataFile) : Nat :=
  files.foldl (fun acc file => wrap 64 (acc + file.used)) 0

def readMetadata (s : DataStore) : DataStore :=
  { s with writeOffset := s.metadata.writeOffset, usedSpace := s.metadata.usedSpace }

/-- The constructor. -/
def construct (conf : DataStoreConfig) (d : Directory) : Except Exn DataStore := do
  let files ← d.loadFiles conf.maxFileSize
  let s : DataStore :=
    { conf := conf
      files := files
      metadata := d.metadata.getD ⟨0, 0⟩
      writeOffset := 0
      usedSpace := fetchUsedSpace files
      refcounter := d.refcounter }
  pure s.readMetadata

/-- The directory that the destructor leaves. -/
def destroy (s : DataStore) : Directory where
  listing := (List.range s.files.length).flatMap
      (fun i => [(baseName i, extensionDataFile), (baseName i, extensionMetaFile)]) ++
    [("ds".toList, ".meta"), ("data".toList, ".mdb"), ("lock".toList, ".mdb")]
  dataFile root := ((List.range s.files.length).find? fun i => baseName i = root).bind
    (s.files[·]?)
  metadata := some s.metadata
  refcounter := s.refcounter

/-- Whatever order the entries of the directory are scanned in, the store that
is opened again agrees with the one that was closed. -/
def Reproduced (s : DataStore) : Prop :=
  ∀ listing, listing.Perm s.destroy.listing →
    ∃ s', construct s.conf { s.destroy with listing := listing } = .ok s' ∧
      s'.usedSpace = s.usedSpace ∧ s'.writeOffset = s.writeOffset ∧
      s'.refcounter = s.refcounter ∧ ∀ pointer n, s'.read pointer n = s.read pointer n

end DataStore

theorem baseName_lt {i j : Nat} (hj : j < 10 ^ 6) (h : i < j) : baseName i < baseName j :=
  append_left_lt (zeroPadded_lt hj h)

/-- Up to a million files the names are in the order of the files. -/
theorem baseNames_sorted {n : Nat} (h : n ≤ 10 ^ 6) :
    ((List.range n).map baseName).Pairwise (· < ·) := by
  rw [pairwise_map]
  apply pairwise_lt_range.imp_of_mem
  intro i j _ hj hlt
  exact baseName_lt (lt_of_lt_of_le (mem_range.mp hj) h) hlt

/-- The name of the file behind a million sorts before the one before it. -/
example : baseName 1000000 < baseName 999999 := by decide +kernel

namespace DataStore

/-- The scan finds the data files of the store and nothing else. -/
theorem filter_listing (s : DataStore) :
    (s.destroy.listing.filter fun entry => entry.2 = extensionDataFile).map Prod.fst =
      (List.range s.files.length).map baseName := by
  have hfiles : ∀ l : List Nat, ((l.flatMap fun i =>
      [(baseName i, extensionDataFile), (baseName i, extensionMetaFile)]).filter
        fun entry => entry.2 = extensionDataFile).map Prod.fst = l.map baseName := by
    intro l
    induction l with
    | nil => rfl
    | cons i rest ih =>
      rw [flatMap_cons, filter_append, map_append, ih]
      simp [extensionDataFile, extensionMetaFile]
  simp only [destroy, filter_append, map_append, hfiles]
  simp [extensionDataFile]

variable {s : DataStore} {listing : List (List Char × String)}

theorem dataFileNames_destroy (hcount : s.files.length ≤ 10 ^ 6)
    (hlisting : listing.Perm s.destroy.listing) :
    { s.destroy with listing := listing }.dataFileNames =
      (List.range s.files.length).map baseName := by
  have hperm := (hlisting.filter fun entry => entry.2 = extensionDataFile).map Prod.fst
  rw [filter_listing] at hperm
  have hsort := (baseNames_sorted hcount).imp fun h => le_of_lt h
  exact ((perm_insertionSort _ _).trans hperm).eq_of_pairwise
    (fun _ _ _ _ => le_antisymm) (pairwise_insertionSort _ _) hsort

theorem openDataFile_destroy (hcount : s.files.length ≤ 10 ^ 6)
    (listing : List (List Char × String)) (i : Fin s.files.length) :
    { s.destroy with listing := listing }.openDataFile (baseName i) = .ok (s.files.get i) := by
  have hfind : (List.range s.files.length).find? (fun j => baseName j = baseName i) =
      some i.val := by
    rw [find?_range_eq_some]
    refine ⟨by simp, mem_range.mpr i.isLt, ?_⟩
    intro j hj
    have hlt := baseName_lt (lt_of_lt_of_le i.isLt hcount) hj
    simpa using hlt.ne
  have hfile : s.destroy.dataFile (baseName i) = some (s.files.get i) := by
    simp only [destroy, hfind]
    simp
  simp only [Directory.openDataFile, hfile]

/-- What is opened again is the closed store with the write offset and the used
space of `ds.meta`. -/
theorem construct_destroy (hcount : s.files.length ≤ 10 ^ 6) (hfiles : s.files ≠ [])
    (hlisting : listing.Perm s.destroy.listing) :
    construct s.conf { s.destroy with listing := listing } = .ok s.readMetadata := by
  have hload : { s.destroy with listing := listing }.loadFiles s.conf.maxFileSize =
      .ok s.files := by
    have hopen := mapM_ok fun i (_ : i ∈ List.finRange s.files.length) =>
      openDataFile_destroy hcount listing i
    rw [map_get_finRange] at hopen
    rw [Directory.loadFiles, dataFileNames_destroy hcount hlisting,
      ← map_coe_finRange_eq_range, List.map_map, mapM_map]
    simp only [Function.comp_def, hopen]
    simp [Bind.bind, Except.bind, pure, Except.pure, hfiles]
  simp only [construct, hload]
  rfl

end DataStore

theorem length_writeLoop (filesize fuel : Nat) (files : List DataFile) (pointer : Nat)
    (data : List UInt8) :
    (writeLoop filesize fuel files pointer data).2.length = files.length := by
  induction fuel generalizing files pointer data with
  | zero => rfl
  | succ fuel ih =>
    simp only [writeLoop]
    split
    · rfl
    · split
      · rfl
      · split
        · rfl
        · rw [ih, length_set]

theorem length_writeBuffers (filesize : Nat) (files : List DataFile) (pointer : Nat)
    (buffers : List (List UInt8)) :
    (writeBuffers filesize files pointer buffers).2.length = files.length := by
  induction buffers generalizing files pointer with
  | nil => rfl
  | cons data rest ih =>
    have hone := length_writeLoop filesize data.length files pointer data
    simp only [writeBuffers]
    split
    · rename_i hrun
      rwa [hrun] at hone
    · rename_i hrun
      rw [hrun] at hone
      rw [ih, hone]

theorem length_releaseLoop (filesize fuel : Nat) (files : List DataFile) (pointer n : Nat) :
    (releaseLoop filesize fuel files pointer n).2.length = files.length := by
  induction fuel generalizing files pointer n with
  | zero => rfl
  | succ fuel ih =>
    simp only [releaseLoop]
    split
    · rfl
    · split
      · rfl
      · rename_i loc _
        split
        · rfl
        · have hrest := ih (files.set loc.index (loc.file.release loc.offset n).2)
            (wrap 64 (pointer + (loc.file.release loc.offset n).1))
            (n - (loc.file.release loc.offset n).1)
          rw [length_set] at hrest
          split <;> rename_i hrun <;> rwa [hrun] at hrest

namespace DataStore

/-- The stores differ at most in the used space and the contents of the data
files. -/
structure SameRecord (s s' : DataStore) : Prop where
  conf : s'.conf = s.conf
  count : s'.files.length = s.files.length
  metadata : s'.metadata = s.metadata
  writeOffset : s'.writeOffset = s.writeOffset
  refcounter : s'.refcounter = s.refcounter

theorem SameRecord.refl (s : DataStore) : SameRecord s s := ⟨rfl, rfl, rfl, rfl, rfl⟩

variable {s s' : DataStore} {a : Allocation} {buffers : List (List UInt8)}
  {refcounts : List Refcount}

theorem SameRecord.trans {s'' : DataStore} (h : SameRecord s s') (h' : SameRecord s' s'') :
    SameRecord s s'' :=
  ⟨h'.conf.trans h.conf, h'.count.trans h.count, h'.metadata.trans h.metadata,
    h'.writeOffset.trans h.writeOffset, h'.refcounter.trans h.refcounter⟩

theorem internalDelete_record (s : DataStore) (offset size : Nat) :
    SameRecord s (s.internalDelete offset size).2 := by
  simp only [internalDelete]
  split
  · exact SameRecord.refl s
  · have hcount := length_releaseLoop s.conf.maxFileSize (min size (s.writeOffset - offset))
      s.files offset (min size (s.writeOffset - offset))
    split <;> rename_i hrun <;> rw [hrun] at hcount <;> exact ⟨rfl, hcount, rfl, rfl, rfl⟩

theorem freeRangeList_record (ranges : List (Nat × Nat)) (s : DataStore) :
    SameRecord s (s.freeRangeList ranges).2 := by
  induction ranges generalizing s with
  | nil => exact SameRecord.refl s
  | cons r rest ih =>
    obtain ⟨first, last⟩ := r
    have hone := internalDelete_record s (wrap 64 (first * s.conf.pageSize))
      (wrap 64 ((wsub 64 last first + 1) * s.conf.pageSize))
    simp only [freeRangeList]
    split
    · rename_i hrun
      rwa [hrun] at hone
    · rename_i mid hrun
      rw [hrun] at hone
      have hrest := ih mid
      split <;> rename_i hrun' <;> rw [hrun'] at hrest <;> exact hone.trans hrest

theorem freeStripes_record (stripes : List Nat) (s : DataStore) :
    SameRecord s (s.freeStripes stripes).2 := by
  cases stripes with
  | nil => exact SameRecord.refl s
  | cons stripe rest => exact freeRangeList_record _ s

theorem files_le_write (s : DataStore) (a : Allocation) (buffers : List (List UInt8))
    (refcounts : List Refcount) :
    s.files.length ≤ (s.write a buffers refcounts).2.files.length := by
  have hgrow : s.files.length ≤ (s.allocateFiles a.offset a.size).files.length := by
    simp [allocateFiles]
  have hwrite := length_writeBuffers s.conf.maxFileSize
    (s.allocateFiles a.offset a.size).files a.offset buffers
  have hconf : (s.allocateFiles a.offset a.size).conf = s.conf := rfl
  simp only [write, hconf]
  split
  · exact hgrow
  · split <;> rename_i hrun <;> rw [hrun] at hwrite <;> exact hgrow.trans_eq hwrite.symm

theorem write_error {e : Exn} (h : s.write a buffers refcounts = (.error e, s')) :
    s.files.length ≤ s'.files.length ∧ s'.metadata = s.metadata ∧
      s'.writeOffset = s.writeOffset ∧ s'.usedSpace = s.usedSpace := by
  have hfiles := files_le_write s a buffers refcounts
  rw [h] at hfiles
  refine ⟨hfiles, ?_⟩
  simp only [write] at h
  split at h
  · cases h
    exact ⟨rfl, rfl, rfl⟩
  · split at h
    · cases h
      exact ⟨rfl, rfl, rfl⟩
    · cases h

theorem write_metadata (h : s.write a buffers refcounts = (.ok (), s')) :
    s.files.length ≤ s'.files.length ∧ s'.metadata = ⟨s'.writeOffset, s'.usedSpace⟩ := by
  have hfiles := files_le_write s a buffers refcounts
  rw [h] at hfiles
  refine ⟨hfiles, ?_⟩
  simp only [write] at h
  split at h
  · cases h
  · split at h
    · cases h
    · cases h
      rfl

theorem reproduced_of_metadata (hcount : s.files.length ≤ 10 ^ 6) (hfiles : s.files ≠ [])
    (hmeta : s.metadata = ⟨s.writeOffset, s.usedSpace⟩) : s.Reproduced := by
  intro listing hlisting
  refine ⟨_, construct_destroy hcount hfiles hlisting, ?_, ?_, rfl, fun _ _ => rfl⟩
  · exact congrArg Metadata.usedSpace hmeta
  · exact congrArg Metadata.writeOffset hmeta

end DataStore

namespace Reopen

open LivePages (droppedPages droppedPages_self mem_droppedPages_iff)
open Transition

/-- A store with the allocations that were made and not yet written, and the
pages whose entry was removed since the last completed write. -/
structure Run where
  store : DataStore
  pending : List Allocation
  freed : List Nat

inductive Action where
  | allocate (size alignment : Nat)
  | write (allocation : Allocation) (buffers : List (List UInt8)) (refcounts : List Refcount)
  | link (refcounts : List Refcount)
  | unlink (refcounts : List Refcount)

def start (conf : DataStoreConfig) : Run := ⟨.fresh conf, [], []⟩

/-- One call, with any arguments. -/
def next (w : Run) : Action → Option Run
  | .allocate size alignment =>
    match w.store.allocate size alignment with
    | (.error _, store) => some { w with store := store }
    | (.ok a, store) => some { w with store := store, pending := a :: w.pending }
  | .write a buffers refcounts =>
    match w.store.write a buffers refcounts with
    | (.error _, store) => some { w with store := store }
    | (.ok _, store) => some ⟨store, w.pending.erase a, []⟩
  | .link refcounts => some { w with store := (w.store.link refcounts).2 }
  | .unlink refcounts =>
    let store := (w.store.unlink refcounts).2
    some { w with
      store := store
      freed := droppedPages refcounts w.store.refcounter store.refcounter ++ w.freed }

/-- What `ds.meta` has between the calls of a run. -/
structure Inv (w : Run) : Prop where
  files : w.store.files ≠ []
  offset : w.pending = [] → w.store.metadata.writeOffset = w.store.writeOffset
  used : w.freed = [] → w.store.metadata.usedSpace = w.store.usedSpace

theorem inv_start (conf : DataStoreConfig) : Inv (start conf) :=
  ⟨cons_ne_nil _ _, fun _ => rfl, fun _ => rfl⟩

theorem ne_nil_of_length_le {α : Type} {l l' : List α} (h : l ≠ []) (hle : l.length ≤ l'.length) :
    l' ≠ [] :=
  ne_nil_of_length_pos (lt_of_lt_of_le (length_pos_of_ne_nil h) hle)

variable {w w' : Run} {refcounts : List Refcount}

theorem Inv.allocate_step (h : Inv w) {size alignment : Nat}
    (hnext : next w (.allocate size alignment) = some w') : Inv w' := by
  simp only [next, allocate] at hnext
  cases halloc : allocateAt w.store.conf.maxDataStoreSize w.store.writeOffset size alignment with
  | error e =>
    simp only [halloc, Option.some.injEq] at hnext
    exact hnext ▸ h
  | ok a =>
    simp only [halloc, Option.some.injEq] at hnext
    subst hnext
    exact ⟨h.files, fun hnil => absurd hnil (cons_ne_nil _ _), h.used⟩

theorem Inv.write_step (h : Inv w) {a : Allocation} {buffers : List (List UInt8)}
    (hnext : next w (.write a buffers refcounts) = some w') : Inv w' := by
  simp only [next] at hnext
  split at hnext
  · rename_i e store hrun
    obtain ⟨hgrow, hmeta, hoff, hused⟩ := write_error hrun
    cases hnext
    refine ⟨ne_nil_of_length_le h.files hgrow, ?_, ?_⟩
    · intro hnil
      rw [hmeta, hoff]
      exact h.offset hnil
    · intro hnil
      rw [hmeta, hused]
      exact h.used hnil
  · rename_i store hrun
    obtain ⟨hgrow, hmeta⟩ := write_metadata hrun
    cases hnext
    exact ⟨ne_nil_of_length_le h.files hgrow, fun _ => congrArg Metadata.writeOffset hmeta,
      fun _ => congrArg Metadata.usedSpace hmeta⟩

theorem Inv.unlink_step (h : Inv w) (hnext : next w (.unlink refcounts) = some w') : Inv w' := by
  simp only [next, unlink, Option.some.injEq] at hnext
  cases htxn : decrementTxn refcounts w.store.refcounter with
  | error e =>
    simp only [htxn, droppedPages_self, nil_append] at hnext
    exact hnext ▸ h
  | ok result =>
    obtain ⟨stripes, refcounter⟩ := result
    have hsame := freeStripes_record stripes { w.store with refcounter := refcounter }
    simp only [htxn] at hnext
    subst hnext
    refine ⟨ne_nil_of_length_le h.files hsame.count.ge, ?_, ?_⟩
    · intro hnil
      exact (congrArg Metadata.writeOffset hsame.metadata).trans
        ((h.offset hnil).trans hsame.writeOffset.symm)
    · intro hnil
      obtain ⟨hdropped, hfreed⟩ := append_eq_nil_iff.mp hnil
      simp only [hsame.refcounter] at hdropped
      have hstrs : stripes = [] := by
        apply eq_nil_iff_forall_not_mem.mpr
        intro t ht
        have hmem := (mem_droppedPages_iff htxn t).mpr ht
        rw [hdropped] at hmem
        cases hmem
      subst hstrs
      exact h.used hfreed

theorem Inv.step {action : Action} (h : Inv w) (hnext : next w action = some w') : Inv w' := by
  cases action with
  | allocate size alignment => exact h.allocate_step hnext
  | write a buffers refcounts => exact h.write_step hnext
  | link refcounts =>
    cases hnext
    exact ⟨h.files, h.offset, h.used⟩
  | unlink refcounts => exact h.unlink_step hnext

/-- After every run in which all allocations were written, a store of at most a
million files is reproduced if no page was freed since the last write. -/
theorem reopened_store_reproduced (conf : DataStoreConfig) {w : Run}
    (h : Reachable next (fun _ _ => True) (start conf) w) (hpending : w.pending = [])
    (hfreed : w.freed = []) (hcount : w.store.files.length ≤ 10 ^ 6) : w.store.Reproduced := by
  have hinv : Inv w := by
    apply Reachable.invariant (inv_start conf) _ h
    intro s a s' hs _ hnext
    exact hs.step hnext
  apply reproduced_of_metadata hcount hinv.files
  exact congrArg₂ Metadata.mk (hinv.offset hpending) (hinv.used hfreed)

/-- Two pages are written, the first is freed before the second write. -/
theorem reopened_store_reproduced_small :
    ∃ w, Reachable next (fun _ _ => True) (start LivePages.smallConfig) w ∧
      (w.pending = [] ∧ w.freed = [] ∧ w.store.files.length ≤ 10 ^ 6 ∧
        w.store.usedSpace = 2 ∧ w.store.writeOffset = 6) ∧ w.store.Reproduced :=
  exists_sample
    [.allocate 4 4, .write ⟨0, 4⟩ [[1, 2, 3, 4]] [⟨0, 1⟩], .allocate 2 4, .unlink [⟨0, 1⟩],
      .write ⟨4, 2⟩ [[5, 6]] [⟨1, 1⟩]] (by decide +kernel)
    fun _ hreach hw => reopened_store_reproduced _ hreach hw.1 hw.2.1 hw.2.2.1

/-- An unlink does not write `ds.meta`: a page that is freed after the last
write counts as used again in the opened store. -/
theorem unlink_not_recorded :
    ¬ ∀ (conf : DataStoreConfig) (w : Run), Reachable next (fun _ _ => True) (start conf) w →
      w.pending = [] → w.store.Reproduced := by
  intro hall
  obtain ⟨w, hreproduced, hpending, hcount, hused, hmetadata⟩ :=
    exists_of_forall (hall LivePages.smallConfig)
    (fun w => w.pending = [] ∧ w.store.files.length = 1 ∧ w.store.usedSpace = 0 ∧
      w.store.metadata.usedSpace = 4)
    [.allocate 4 4, .write ⟨0, 4⟩ [[1, 2, 3, 4]] [⟨0, 1⟩], .unlink [⟨0, 1⟩]]
    (by decide +kernel)
  obtain ⟨s', hopen, hsame, _⟩ := hreproduced hpending _ (List.Perm.refl _)
  have hclosed := construct_destroy (by omega)
    (ne_nil_of_length_pos (show 0 < w.store.files.length by omega)) (List.Perm.refl _)
  obtain rfl : w.store.readMetadata = s' := Except.ok.inj (hclosed.symm.trans hopen)
  have hstale : w.store.readMetadata.usedSpace = 4 := hmetadata
  omega

end Reopen

end UhCore.Storage
