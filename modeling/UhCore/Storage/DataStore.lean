import UhCore.Storage.DataFile
import UhCore.Storage.ReferenceCounter

/-!
The data store of one storage: a write offset that allocations advance, the
data files, and the reference counter whose freed stripes are released from
the files. Operations return their result or the exception together with the
state they leave, also when they throw.
-/

namespace UhCore.Storage

open Words Blocks Bytes List

/-- The configuration of a data store that its constructor accepts: the file
size is a multiple of the page size. All sizes are 64-bit words. -/
structure DataStoreConfig where
  maxFileSize : Nat
  maxDataStoreSize : Nat
  pageSize : Nat
  pageSize_pos : 0 < pageSize
  maxFileSize_pos : 0 < maxFileSize
  maxFileSize_mod : maxFileSize % pageSize = 0
  maxDataStoreSize_lt : maxDataStoreSize < 2 ^ 64

/-- The contents of `ds.meta`. -/
structure Metadata where
  writeOffset : Nat
  usedSpace : Nat
  deriving DecidableEq

structure DataStore where
  conf : DataStoreConfig
  files : List DataFile
  metadata : Metadata
  writeOffset : Nat
  usedSpace : Nat
  refcounter : RefTable

/-- The allocation made at a given write offset. The capacity check subtracts
the aligned start from the capacity in 64 bits. -/
def allocateAt (maxDataStoreSize currentOffset size alignment : Nat) : Except Exn Allocation :=
  if alignment = 0 then
    .error (.invalidArgument "alignment must be larger than zero")
  else if size = 0 then
    .error (.invalidArgument "allocation size must be larger than zero")
  else
    let allocationStart := wrap 64 (alignUp currentOffset alignment)
    if wsub 64 maxDataStoreSize allocationStart < size then
      .error (.runtimeError
        ("datastore cannot store additional " ++ toString size ++ " bytes"))
    else .ok ⟨allocationStart, size⟩

section

variable {maxDataStoreSize currentOffset size alignment : Nat} {a : Allocation}
  (h : allocateAt maxDataStoreSize currentOffset size alignment = .ok a)

include h

theorem allocateAt_eq_ok : 0 < alignment ∧ 0 < size ∧
    a = ⟨wrap 64 (alignUp currentOffset alignment), size⟩ ∧
    size ≤ wsub 64 maxDataStoreSize (wrap 64 (alignUp currentOffset alignment)) := by
  unfold allocateAt at h
  split at h
  · cases h
  · split at h
    · cases h
    · dsimp only at h
      split at h
      · cases h
      · exact ⟨by omega, by omega, (Except.ok.inj h).symm, by omega⟩

theorem allocateAt_within (hstart : alignUp currentOffset alignment ≤ maxDataStoreSize)
    (hmax : maxDataStoreSize < 2 ^ 64) : a = ⟨alignUp currentOffset alignment, size⟩ ∧
      alignUp currentOffset alignment + size ≤ maxDataStoreSize := by
  obtain ⟨_, _, rfl, hfree⟩ := allocateAt_eq_ok h
  rw [wrap_of_lt (by omega)] at hfree ⊢
  rw [wsub_of_le hstart (by omega) (by omega)] at hfree
  exact ⟨rfl, by omega⟩

end

namespace DataStore

/-- A store on an empty directory: one data file, nothing allocated. -/
def fresh (conf : DataStoreConfig) : DataStore where
  conf := conf
  files := [DataFile.create conf.maxFileSize]
  metadata := ⟨0, 0⟩
  writeOffset := 0
  usedSpace := 0
  refcounter := fun _ => none

def allocate (s : DataStore) (size alignment : Nat) : Except Exn Allocation × DataStore :=
  match allocateAt s.conf.maxDataStoreSize s.writeOffset size alignment with
  | .error e => (.error e, s)
  | .ok a => (.ok a, { s with writeOffset := wrap 64 (a.offset + a.size) })

def allocateFiles (s : DataStore) (offset size : Nat) : DataStore :=
  let requiredFileCount := wrap 64 (offset + size) / s.conf.maxFileSize + 1
  let newFiles := List.replicate (requiredFileCount - s.files.length)
    (DataFile.create s.conf.maxFileSize)
  { s with files := s.files ++ newFiles }

def sync (s : DataStore) : DataStore := { s with metadata := ⟨s.writeOffset, s.usedSpace⟩ }

def write (s : DataStore) (allocation : Allocation) (buffers : List (List UInt8))
    (refcounts : List Refcount) : Except Exn Unit × DataStore :=
  let s := s.allocateFiles allocation.offset allocation.size
  let sizeSum := wrap 64 (buffers.map List.length).sum
  if sizeSum ≠ allocation.size then
    (.error (.runtimeError ("data is shorter than allocation size: " ++
      toString sizeSum ++ " vs " ++ toString allocation.size)), s)
  else
    match writeBuffers s.conf.maxFileSize s.files allocation.offset buffers with
    | (.error e, files) => (.error e, { s with files := files })
    | (.ok _, files) =>
      let desired := wrap 64 (allocation.offset + allocation.size)
      let s := { s with
        files := files
        usedSpace := wrap 64 (s.usedSpace + allocation.size)
        writeOffset := max s.writeOffset desired }
      let s := s.sync
      (.ok (), { s with refcounter := (increment refcounts false s.refcounter).2 })

def read (s : DataStore) (pointer n : Nat) : Except Exn (List UInt8) :=
  readLoop s.conf.maxFileSize s.files n pointer n

def internalDelete (s : DataStore) (offset size : Nat) : Except Exn Nat × DataStore :=
  if s.writeOffset ≤ offset then
    (.error (.outOfRange "pointer for delete operation is out of range"), s)
  else
    let adjustedSize := min size (s.writeOffset - offset)
    match releaseLoop s.conf.maxFileSize adjustedSize s.files offset adjustedSize with
    | (.error e, files) => (.error e, { s with files := files })
    | (.ok released, files) =>
      (.ok released, { s with
        files := files
        usedSpace := wsub 64 s.usedSpace released })

def freeRangeList (s : DataStore) : List (Nat × Nat) → Except Exn Nat × DataStore
  | [] => (.ok 0, s)
  | (rangeStart, rangeEnd) :: rest =>
    let delOffset := wrap 64 (rangeStart * s.conf.pageSize)
    let delSize := wrap 64 ((wsub 64 rangeEnd rangeStart + 1) * s.conf.pageSize)
    match s.internalDelete delOffset delSize with
    | (.error e, s') => (.error e, s')
    | (.ok freed, s') =>
      match s'.freeRangeList rest with
      | (.error e, s'') => (.error e, s'')
      | (.ok more, s'') => (.ok (wrap 64 (freed + more)), s'')

def freeStripes (s : DataStore) : List Nat → Except Exn Nat × DataStore
  | [] => (.ok 0, s)
  | stripe :: rest => s.freeRangeList (freeRanges stripe stripe rest)

def link (s : DataStore) (refcounts : List Refcount) : List Refcount × DataStore :=
  let (rejected, refcounter) := increment refcounts true s.refcounter
  (rejected, { s with refcounter := refcounter })

def unlink (s : DataStore) (refcounts : List Refcount) : Except Exn Nat × DataStore :=
  match decrementTxn refcounts s.refcounter with
  | .error e => (.error e, s)
  | .ok (stripes, refcounter) => { s with refcounter := refcounter }.freeStripes stripes

/-- The bytes of the store as one address space. -/
def memory (s : DataStore) : Nat → UInt8 := flat s.conf.maxFileSize s.files

/-- The number of bytes the files of the store hold. -/
def extent (s : DataStore) : Nat := s.conf.maxFileSize * s.files.length

def FilesOk (s : DataStore) : Prop := Uniform s.conf.maxFileSize s.files

def pageBytes (s : DataStore) (t : Nat) : Nat :=
  min ((t + 1) * s.conf.pageSize) s.writeOffset - t * s.conf.pageSize

theorem fresh_filesOk (conf : DataStoreConfig) : (fresh conf).FilesOk := by
  refine ⟨conf.maxFileSize_pos, ?_⟩
  intro file hfile
  rw [mem_singleton.mp hfile]
  rfl

@[simp] theorem memory_fresh (conf : DataStoreConfig) : (fresh conf).memory = fun _ => 0 := by
  exact flat_grow conf.maxFileSize [] 1

variable {s : DataStore} {offset page : Nat}

theorem read_eq (hfiles : s.FilesOk) {pointer n : Nat} (hroom : pointer + n ≤ s.extent)
    (hword : pointer + n ≤ 2 ^ 64) : s.read pointer n = .ok (window s.memory pointer n) :=
  readLoop_eq hfiles n pointer n (le_refl n) hroom hword

theorem memory_allocateFiles (s : DataStore) (offset size : Nat) :
    (s.allocateFiles offset size).memory = s.memory :=
  flat_grow _ _ _

/-- After `allocate_files` the files reach behind the allocation. -/
theorem lt_extent_allocateFiles (s : DataStore) {size : Nat} (hword : offset + size < 2 ^ 64) :
    offset + size < (s.allocateFiles offset size).extent := by
  have hpos := s.conf.maxFileSize_pos
  have hdiv := Nat.mod_add_div (offset + size) s.conf.maxFileSize
  have hmod := Nat.mod_lt (offset + size) hpos
  have hcount : (offset + size) / s.conf.maxFileSize + 1 ≤
      (s.allocateFiles offset size).files.length := by
    simp only [allocateFiles, wrap_of_lt hword, length_append, length_replicate]
    omega
  calc offset + size
      < s.conf.maxFileSize * ((offset + size) / s.conf.maxFileSize + 1) := by
        rw [mul_add, mul_one]
        omega
    _ ≤ (s.allocateFiles offset size).extent := Nat.mul_le_mul_left _ hcount

theorem extent_le_allocateFiles (s : DataStore) (offset size : Nat) :
    s.extent ≤ (s.allocateFiles offset size).extent := by
  apply Nat.mul_le_mul_left
  simp [allocateFiles]

/-- What a write of buffers of the right total size leaves behind. -/
structure WriteEffect (s : DataStore) (a : Allocation) (data : List UInt8)
    (refcounts : List Refcount) (s' : DataStore) : Prop where
  conf : s'.conf = s.conf
  filesOk : s'.FilesOk
  extent : s.extent ≤ s'.extent
  reaches : a.finish ≤ s'.extent
  memory : s'.memory = splice s.memory a.offset data
  writeOffset : s'.writeOffset = max s.writeOffset a.finish
  refcounter : s'.refcounter = (increment refcounts false s.refcounter).2

theorem write_ok (hfiles : s.FilesOk) {a : Allocation} {buffers : List (List UInt8)}
    (refcounts : List Refcount) (hsize : (buffers.map List.length).sum = a.size)
    (hword : a.finish < 2 ^ 64) : ∃ s', s.write a buffers refcounts = (.ok (), s') ∧
      WriteEffect s a buffers.flatten refcounts s' := by
  have hlen : buffers.flatten.length = a.size := by rw [length_flatten, hsize]
  have hfin : a.offset + a.size = a.finish := rfl
  have hreach := lt_extent_allocateFiles s hword
  have hgrown : Uniform s.conf.maxFileSize (s.allocateFiles a.offset a.size).files := hfiles.grow _
  obtain ⟨files', hrun, hcount, hfiles', hflat⟩ := writeBuffers_eq buffers
    (s.allocateFiles a.offset a.size).files a.offset hgrown
    (by rw [hlen]; exact le_of_lt hreach) (by omega)
  have hsum : wrap 64 (buffers.map List.length).sum = a.size := by
    rw [hsize]
    exact wrap_of_lt (by omega)
  have hext : s.conf.maxFileSize * files'.length = (s.allocateFiles a.offset a.size).extent := by
    rw [hcount]
    rfl
  have hmemo := memory_allocateFiles s a.offset a.size
  have hconf : (s.allocateFiles a.offset a.size).conf = s.conf := rfl
  refine ⟨(s.write a buffers refcounts).2, ?_, ?_⟩
  · simp only [write, hsum, ne_eq, not_true_eq_false, if_false, hconf, hrun]
  · simp only [write, hsum, ne_eq, not_true_eq_false, if_false, hconf, hrun]
    refine ⟨rfl, hfiles', ?_, ?_, ?_, ?_, rfl⟩
    · exact (extent_le_allocateFiles s a.offset a.size).trans_eq hext.symm
    · exact (le_of_lt hreach).trans_eq hext.symm
    · exact hflat.trans (congrArg (splice · a.offset buffers.flatten) hmemo)
    · exact congrArg (max s.writeOffset) (wrap_of_lt hword)

/-- The states differ at most in the bytes of the files and the space
accounting. -/
structure SameButBytes (s s' : DataStore) : Prop where
  conf : s'.conf = s.conf
  filesOk : s'.FilesOk
  extent : s'.extent = s.extent
  writeOffset : s'.writeOffset = s.writeOffset
  refcounter : s'.refcounter = s.refcounter

theorem SameButBytes.trans {s s' s'' : DataStore} (h : SameButBytes s s')
    (h' : SameButBytes s' s'') : SameButBytes s s'' :=
  ⟨h'.conf.trans h.conf, h'.filesOk, h'.extent.trans h.extent,
    h'.writeOffset.trans h.writeOffset, h'.refcounter.trans h.refcounter⟩

theorem internalDelete_ok (hfiles : s.FilesOk) (size : Nat) (hlt : offset < s.writeOffset)
    (hword : s.writeOffset < 2 ^ 64) (hroom : offset + size ≤ s.extent) :
    ∃ s', s.internalDelete offset size =
        (.ok (min size (s.writeOffset - offset)), s') ∧ SameButBytes s s' ∧
      s'.memory = fill s.memory offset (min size (s.writeOffset - offset)) 0 ∧
      s'.usedSpace = wsub 64 s.usedSpace (min size (s.writeOffset - offset)) := by
  have hmin : min size (s.writeOffset - offset) ≤ size := min_le_left _ _
  have hmin' : min size (s.writeOffset - offset) ≤ s.writeOffset - offset := min_le_right _ _
  have hroom' : offset + min size (s.writeOffset - offset) ≤ s.conf.maxFileSize * s.files.length :=
    le_trans (by omega) hroom
  obtain ⟨files', hrun, hcount, hfiles', hflat⟩ := releaseLoop_eq
    (min size (s.writeOffset - offset)) s.files offset
    (min size (s.writeOffset - offset)) hfiles (le_refl _) hroom' (by omega)
  simp only [internalDelete, not_le.mpr hlt, if_false, hrun]
  exact ⟨_, rfl, ⟨rfl, hfiles', congrArg (s.conf.maxFileSize * ·) hcount, rfl, rfl⟩, hflat, rfl⟩

/-- A page that can be released: its byte range is below the word size, lies
in the files and starts below the write offset. -/
structure Releasable (s : DataStore) (page : Nat) : Prop where
  word : (page + 1) * s.conf.pageSize < 2 ^ 64
  extent : (page + 1) * s.conf.pageSize ≤ s.extent
  below : page * s.conf.pageSize < s.writeOffset

theorem Releasable.congr {s s' : DataStore} (h : SameButBytes s s') (hpage : Releasable s page) :
    Releasable s' page := by
  refine ⟨?_, ?_, ?_⟩
  · rw [h.conf]
    exact hpage.word
  · rw [h.conf, h.extent]
    exact hpage.extent
  · rw [h.conf, h.writeOffset]
    exact hpage.below

theorem Releasable.succ_lt (h : Releasable s page) : page + 1 < 2 ^ 64 := by
  have hmul : (page + 1) * 1 ≤ (page + 1) * s.conf.pageSize :=
    Nat.mul_le_mul_left _ s.conf.pageSize_pos
  have hword := h.word
  omega

theorem sum_pageBytes (s : DataStore) {first n : Nat}
    (hbelow : (first + n) * s.conf.pageSize < s.writeOffset) :
    ((range' first (n + 1)).map s.pageBytes).sum =
      min ((n + 1) * s.conf.pageSize) (s.writeOffset - first * s.conf.pageSize) := by
  induction n with
  | zero =>
    simp only [zero_add, range'_one, map_singleton, sum_singleton, pageBytes, add_mul, one_mul]
    omega
  | succ n ih =>
    rw [range'_concat, map_append, sum_append, map_singleton, sum_singleton]
    simp only [add_mul, one_mul, pageBytes] at hbelow ih ⊢
    rw [ih (by omega)]
    omega

/-- Some pages were freed: their bytes below the write offset are zero, and no
longer used as far as so much was. -/
structure Freed (s : DataStore) (pages : List Nat) (s' : DataStore) : Prop
    extends SameButBytes s s' where
  memory : ∀ p, s'.memory p =
    if p / s.conf.pageSize ∈ pages ∧ p < s.writeOffset then 0 else s.memory p
  usedSpace : s.usedSpace < 2 ^ 64 → (pages.map s.pageBytes).sum ≤ s.usedSpace →
    s'.usedSpace + (pages.map s.pageBytes).sum = s.usedSpace

/-- Freeing ranges of pages frees the pages one by one. -/
theorem freeRangeList_ok (runs : List (List Nat)) (s : DataStore) (hfiles : s.FilesOk)
    (hword : s.writeOffset < 2 ^ 64) (hruns : ∀ run ∈ runs, ∃ first n, run = range' first (n + 1))
    (hpages : ∀ t ∈ runs.flatten, Releasable s t) :
    ∃ s', s.freeRangeList (runs.map runEnds) =
        (.ok (wrap 64 (runs.flatten.map s.pageBytes).sum), s') ∧ Freed s runs.flatten s' := by
  induction runs generalizing s with
  | nil => exact ⟨s, rfl, ⟨rfl, hfiles, rfl, rfl, rfl⟩, by simp, by simp⟩
  | cons run rest ih =>
    obtain ⟨first, n, rfl⟩ := hruns run mem_cons_self
    rw [flatten_cons] at hpages ⊢
    have hlast : Releasable s (first + n) := by
      apply hpages
      exact mem_append_left _ (by simp)
    have hsucc := hlast.succ_lt
    obtain ⟨hlastWord, hlastExtent, hlastBelow⟩ := hlast
    have hpage := s.conf.pageSize_pos
    have hsum : first * s.conf.pageSize + (n + 1) * s.conf.pageSize =
        (first + n + 1) * s.conf.pageSize := by ring
    have hmono : first * s.conf.pageSize ≤ (first + n) * s.conf.pageSize :=
      Nat.mul_le_mul_right _ (Nat.le_add_right _ _)
    obtain ⟨mid, hone, hmid, hmidmem, hmidUsed⟩ := internalDelete_ok hfiles
      ((n + 1) * s.conf.pageSize)
      (show first * s.conf.pageSize < s.writeOffset by omega) hword (by omega)
    obtain ⟨s', hrun, hfreed⟩ := ih mid hmid.filesOk (by rw [hmid.writeOffset]; exact hword)
      (fun run hrun => hruns run (mem_cons_of_mem _ hrun))
      (fun t ht => (hpages t (mem_append_right _ ht)).congr hmid)
    have hbytes : mid.pageBytes = s.pageBytes := by
      funext t
      simp only [pageBytes, hmid.conf, hmid.writeOffset]
    have hspace := hfreed.usedSpace
    rw [hbytes] at hrun hspace
    rw [map_append, sum_append, sum_pageBytes s hlastBelow]
    refine ⟨s', ?_, hmid.trans hfreed.toSameButBytes, ?_, ?_⟩
    · have hsize : wsub 64 (first + n) first + 1 = n + 1 := by
        rw [wsub_of_le (by omega) (by omega) (by omega), Nat.add_sub_cancel_left]
      rw [map_cons, ← wrapped_eq (by omega), runEnds_wrapped, wrap_of_lt (by omega),
        wrap_of_lt (by omega), freeRangeList]
      rw [hsize, wrap_of_lt (by omega), wrap_of_lt (by omega), hone]
      simp only [hrun]
      rw [add_comm, wrap_wrap_add, add_comm]
    · intro p
      have hin : p / s.conf.pageSize ∈ range' first (n + 1) ↔
          first * s.conf.pageSize ≤ p ∧ p < (first + n + 1) * s.conf.pageSize := by
        rw [mem_range'_1, Nat.le_div_iff_mul_le hpage, Nat.div_lt_iff_lt_mul hpage, add_assoc]
      rw [hfreed.memory p, hmidmem, hmid.conf, hmid.writeOffset]
      simp only [mem_append, or_and_right, hin]
      by_cases hfill : (first * s.conf.pageSize ≤ p ∧ p < (first + n + 1) * s.conf.pageSize) ∧
          p < s.writeOffset
      · rw [fill_in hfill.1.1 (by omega), ite_self, if_pos (Or.inl hfill)]
      · rw [fill_out (by omega)]
        simp only [hfill, false_or]
    · intro hlt hused
      rw [map_append, sum_append, sum_pageBytes s hlastBelow] at hused ⊢
      rw [wsub_of_le (by omega) (by omega) (by omega)] at hmidUsed
      have hrest := hspace (by omega) (by omega)
      omega

/-- A committed unlink frees the pages whose counts were used up. -/
theorem unlink_ok (hfiles : s.FilesOk) (hword : s.writeOffset < 2 ^ 64) {refcounts : List Refcount}
    {stripes : List Nat} {table : RefTable}
    (htxn : decrementTxn refcounts s.refcounter = .ok (stripes, table))
    (htrack : ∀ t, (s.refcounter t).isSome → Releasable s t) :
    ∃ s', s.unlink refcounts = (.ok (wrap 64 (stripes.map s.pageBytes).sum), s') ∧
      Freed { s with refcounter := table } stripes s' := by
  have hstrs : ∀ t ∈ stripes, Releasable { s with refcounter := table } t := by
    intro t ht
    obtain ⟨hfits, hext, hbelow⟩ := htrack t ((decrementTxn_tracked htxn t).2.mp ht).1
    exact ⟨hfits, hext, hbelow⟩
  rw [unlink, htxn]
  cases stripes with
  | nil => exact ⟨_, rfl, ⟨rfl, hfiles, rfl, rfl, rfl⟩, by simp, by simp⟩
  | cons stripe rest =>
    have hruns : ∀ run ∈ (stripe :: rest).splitBy follows, ∃ first n, run = range' first (n + 1) := by
      intro run hrun
      have hlt : ∀ t ∈ stripe :: rest, t < 2 ^ 64 :=
        fun t ht => (Nat.lt_succ_self t).trans (hstrs t ht).succ_lt
      obtain ⟨first, n, hat, rfl⟩ := exists_runAt hlt hrun
      refine ⟨first, n, wrapped_eq ?_⟩
      have hfirst := hat.lt
      by_contra hover
      have htop := hat.mem (mem_wrapped (t := 2 ^ 64 - 1) (by omega) (by omega) (by omega))
      exact absurd (hstrs _ htop).succ_lt (by omega)
    have hok := freeRangeList_ok _ { s with refcounter := table } hfiles hword hruns
    rw [flatten_splitBy, ← freeRanges_eq] at hok
    exact hok hstrs

end DataStore

end UhCore.Storage
