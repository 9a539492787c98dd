import UhCore.Types
import UhCore.Lib.Blocks
import UhCore.Lib.Bytes

/-!
The data files of a storage. All files have one size; a local pointer `p`
names byte `p % filesize` of file `p / filesize`. The read, write and release
loops of the data store walk over the files; `flat` is the address space they
present, and each loop is one operation on it.
-/

namespace UhCore.Storage

open Words Blocks Bytes List

structure DataFile where
  filesize : Nat
  used : Nat
  bytes : Nat → UInt8

namespace DataFile

/-- A new file of zeroes. -/
def create (size : Nat) : DataFile := ⟨size, 0, fun _ => 0⟩

/-- Returns the number of bytes written. -/
def write (file : DataFile) (offset : Nat) (buffer : List UInt8) : Nat × DataFile :=
  let size := min (file.filesize - offset) buffer.length
  (size, { file with
    used := wrap 64 (file.used + size)
    bytes := splice file.bytes offset (buffer.take size) })

def read (file : DataFile) (offset n : Nat) : List UInt8 :=
  window file.bytes offset (min (file.filesize - offset) n)

/-- Punches a hole, which reads as zeroes, and returns its size. -/
def release (file : DataFile) (offset size : Nat) : Nat × DataFile :=
  let count := min (file.filesize - offset) size
  (count, { file with
    used := wsub 64 file.used count
    bytes := fill file.bytes offset count 0 })

end DataFile

structure Location where
  index : Nat
  file : DataFile
  offset : Nat

def fileLocation (filesize : Nat) (files : List DataFile) (pointer : Nat) : Except Exn Location :=
  match files[pointer / filesize]? with
  | none => .error (.outOfRange "pointer out of range")
  | some file => .ok ⟨pointer / filesize, file, pointer % filesize⟩

/-- The loop of `read`. Every round reads at least one byte, so the number of
bytes still wanted bounds the number of rounds. -/
def readLoop (filesize : Nat) (files : List DataFile) :
    Nat → Nat → Nat → Except Exn (List UInt8)
  | 0, _, _ => .ok []
  | fuel + 1, pointer, n =>
    if n = 0 then .ok []
    else do
      let loc ← fileLocation filesize files pointer
      let bytes := loc.file.read loc.offset n
      if bytes.length = 0 then pure []
      else
        let rest ← readLoop filesize files fuel
          (wrap 64 (pointer + bytes.length)) (n - bytes.length)
        pure (bytes ++ rest)

/-- The loop of `write` over one buffer. -/
def writeLoop (filesize : Nat) :
    Nat → List DataFile → Nat → List UInt8 → Except Exn Nat × List DataFile
  | 0, files, pointer, _ => (.ok pointer, files)
  | fuel + 1, files, pointer, data =>
    if data.length = 0 then (.ok pointer, files)
    else
      match fileLocation filesize files pointer with
      | .error e => (.error e, files)
      | .ok loc =>
        let (count, file) := loc.file.write loc.offset data
        if count = 0 then
          (.error (.runtimeError "could not complete buffer write"), files)
        else writeLoop filesize fuel (files.set loc.index file)
          (wrap 64 (pointer + count)) (data.drop count)

def writeBuffers (filesize : Nat) :
    List DataFile → Nat → List (List UInt8) → Except Exn Nat × List DataFile
  | files, pointer, [] => (.ok pointer, files)
  | files, pointer, data :: rest =>
    match writeLoop filesize data.length files pointer data with
    | (.error e, files') => (.error e, files')
    | (.ok pointer', files') => writeBuffers filesize files' pointer' rest

/-- The loop of `internal_delete`; returns the number of bytes released. -/
def releaseLoop (filesize : Nat) :
    Nat → List DataFile → Nat → Nat → Except Exn Nat × List DataFile
  | 0, files, _, _ => (.ok 0, files)
  | fuel + 1, files, pointer, n =>
    if n = 0 then (.ok 0, files)
    else
      match fileLocation filesize files pointer with
      | .error e => (.error e, files)
      | .ok loc =>
        let (count, file) := loc.file.release loc.offset n
        if count = 0 then (.ok 0, files)
        else
          match releaseLoop filesize fuel (files.set loc.index file)
            (wrap 64 (pointer + count)) (n - count) with
          | (.error e, files') => (.error e, files')
          | (.ok released, files') => (.ok (count + released), files')

/-- The address space that files of one size present. Addresses behind the
last file read as zero here; the loops fail on them. -/
def flat (filesize : Nat) (files : List DataFile) (pointer : Nat) : UInt8 :=
  match files[pointer / filesize]? with
  | none => 0
  | some file => file.bytes (pointer % filesize)

/-- All files have the given size, which is not zero. -/
structure Uniform (filesize : Nat) (files : List DataFile) : Prop where
  pos : 0 < filesize
  size : ∀ file ∈ files, file.filesize = filesize

variable {filesize : Nat} {files : List DataFile} {file file' : DataFile} {p q : Nat}

theorem Uniform.set (h : Uniform filesize files) (index : Nat) (file : DataFile)
    (hsize : file.filesize = filesize) : Uniform filesize (files.set index file) := by
  refine ⟨h.pos, ?_⟩
  intro f hf
  rcases mem_or_eq_of_mem_set hf with hold | rfl
  · exact h.size f hold
  · exact hsize

theorem Uniform.grow (h : Uniform filesize files) (n : Nat) :
    Uniform filesize (files ++ List.replicate n (DataFile.create filesize)) := by
  refine ⟨h.pos, ?_⟩
  intro f hf
  rcases mem_append.mp hf with hold | hnew
  · exact h.size f hold
  · rw [eq_of_mem_replicate hnew]
    rfl

/-- New files add zeroes, which is what the addresses read as before. -/
theorem flat_grow (filesize : Nat) (files : List DataFile) (n : Nat) :
    flat filesize (files ++ List.replicate n (DataFile.create filesize)) = flat filesize files := by
  funext p
  unfold flat
  by_cases hp : p / filesize < files.length
  · rw [getElem?_append_left hp]
  · have hge : files.length ≤ p / filesize := by omega
    rw [getElem?_append_right hge, getElem?_eq_none hge]
    by_cases hnew : p / filesize - files.length < n
    · simp [hnew, DataFile.create]
    · simp [hnew]

theorem fileLocation_ok {pointer : Nat} (huni : Uniform filesize files)
    (hlt : pointer < filesize * files.length) :
    ∃ file, files[pointer / filesize]? = some file ∧ file.filesize = filesize ∧
      fileLocation filesize files pointer = .ok ⟨pointer / filesize, file, pointer % filesize⟩ := by
  have hindex := Nat.div_lt_of_lt_mul hlt
  have hget := getElem?_eq_getElem hindex
  refine ⟨files[pointer / filesize], hget, ?_, ?_⟩
  · exact huni.size _ (getElem_mem hindex)
  · simp only [fileLocation, hget]

theorem flat_set_same (hget : files[p / filesize]? = some file) (hq : q / filesize = p / filesize) :
    flat filesize (files.set (p / filesize) file') q = file'.bytes (q % filesize) := by
  have hlt : p / filesize < files.length := (List.getElem?_eq_some_iff.mp hget).1
  simp [flat, hq, hlt]

theorem flat_set_other {file' : DataFile} (hq : q / filesize ≠ p / filesize) :
    flat filesize (files.set (p / filesize) file') q = flat filesize files q := by
  simp [flat, getElem?_set_ne (Ne.symm hq)]

theorem flat_of_getElem? {file : DataFile} (hget : files[p / filesize]? = some file)
    (hq : q / filesize = p / filesize) : flat filesize files q = file.bytes (q % filesize) := by
  simp [flat, hq, hget]

/-- An address of the file of `p`, relative to the part from `p` on that one
round of a loop works on. -/
private theorem offset_in_file {filesize : Nat} (hpos : 0 < filesize)
    (hq : q / filesize = p / filesize) (hle : p ≤ q) :
    q % filesize = p % filesize + (q - p) ∧ p % filesize + (q - p) < filesize := by
  have hp := Nat.mod_add_div p filesize
  have hqd := Nat.mod_add_div q filesize
  have hlt := Nat.mod_lt q hpos
  rw [hq] at hqd
  omega

private theorem mod_lt_mod_of_same_file {filesize : Nat} (hq : q / filesize = p / filesize)
    (hlt : q < p) : q % filesize < p % filesize := by
  have hp := Nat.mod_add_div p filesize
  have hqd := Nat.mod_add_div q filesize
  rw [hq] at hqd
  omega

theorem flat_write {data : List UInt8} (hpos : 0 < filesize)
    (hget : files[p / filesize]? = some file)
    (hbytes : file'.bytes = splice file.bytes (p % filesize) data)
    (hroom : p % filesize + data.length ≤ filesize) :
    flat filesize (files.set (p / filesize) file') = splice (flat filesize files) p data := by
  funext q
  by_cases hq : q / filesize = p / filesize
  · rw [flat_set_same hget hq, hbytes]
    by_cases hle : p ≤ q
    · obtain ⟨hmod, -⟩ := offset_in_file hpos hq hle
      have hoff : p % filesize ≤ q % filesize := by omega
      have hindex : q % filesize - p % filesize = q - p := by omega
      simp only [splice, hoff, hle, if_true, hindex, flat_of_getElem? hget hq]
    · have hmod := mod_lt_mod_of_same_file hq (by omega)
      rw [splice_of_lt hmod, splice_of_lt (by omega), flat_of_getElem? hget hq]
  · rw [flat_set_other hq]
    by_cases hle : p ≤ q
    · have hge : p + data.length ≤ q := by
        by_contra hnot
        apply hq
        have hp := Nat.mod_add_div p filesize
        have hsum : q = (p % filesize + (q - p)) + filesize * (p / filesize) := by omega
        rw [hsum, Nat.add_mul_div_left _ _ hpos, Nat.div_eq_of_lt (by omega), zero_add]
      rw [splice_of_ge hge]
    · rw [splice_of_lt (by omega)]

theorem flat_release {n : Nat} (hpos : 0 < filesize) (hget : files[p / filesize]? = some file)
    (hbytes : file'.bytes = fill file.bytes (p % filesize) n 0)
    (hroom : p % filesize + n ≤ filesize) : flat filesize (files.set (p / filesize) file') =
      fill (flat filesize files) p n 0 := by
  rw [fill_eq_splice] at hbytes ⊢
  exact flat_write hpos hget hbytes (by simpa using hroom)

theorem readLoop_eq (huni : Uniform filesize files) (fuel pointer n : Nat) (hfuel : n ≤ fuel)
    (hroom : pointer + n ≤ filesize * files.length) (hword : pointer + n ≤ 2 ^ 64) :
    readLoop filesize files fuel pointer n = .ok (window (flat filesize files) pointer n) := by
  induction fuel generalizing pointer n with
  | zero =>
    obtain rfl : n = 0 := by omega
    rfl
  | succ fuel ih =>
    by_cases hn : n = 0
    · subst hn
      simp [readLoop]
    · obtain ⟨file, hget, hsize, hloc⟩ :=
        fileLocation_ok huni (show pointer < filesize * files.length by omega)
      have hread : file.read (pointer % filesize) n =
          window (flat filesize files) pointer (blockStep filesize pointer n) := by
        have hmin : min (filesize - pointer % filesize) n = blockStep filesize pointer n := rfl
        rw [DataFile.read, hsize, hmin]
        apply window_eq_of_getElem? (length_window _ _ _)
        intro i hi
        have hdiv := div_eq_of_lt_blockStep huni.pos hi
        have hmod := mod_eq_of_lt_blockStep huni.pos hi
        rw [getElem?_window hi, flat_of_getElem? hget hdiv, hmod]
      have hpos := blockStep_pos pointer huni.pos (pos_of_ne_zero hn)
      have hle := blockStep_le filesize pointer n
      generalize blockStep filesize pointer n = k at hread hpos hle
      have hrest : readLoop filesize files fuel (wrap 64 (pointer + k)) (n - k) =
          .ok (window (flat filesize files) (pointer + k) (n - k)) := by
        by_cases hdone : k = n
        · rw [hdone, Nat.sub_self]
          cases fuel <;> simp [readLoop]
        · rw [wrap_of_lt (by omega)]
          exact ih _ _ (by omega) (by omega) (by omega)
      have hsplit : window (flat filesize files) pointer n =
          window (flat filesize files) pointer k ++
            window (flat filesize files) (pointer + k) (n - k) := by
        rw [← window_append, Nat.add_sub_cancel' hle]
      rw [hsplit]
      simp [readLoop, hn, hloc, hread, hpos.ne', hrest, Bind.bind, Except.bind, pure, Except.pure]

theorem writeLoop_eq (fuel : Nat) (files : List DataFile) (pointer : Nat) (data : List UInt8)
    (huni : Uniform filesize files) (hfuel : data.length ≤ fuel)
    (hroom : pointer + data.length ≤ filesize * files.length)
    (hword : pointer + data.length < 2 ^ 64) :
    ∃ files', writeLoop filesize fuel files pointer data =
        (.ok (pointer + data.length), files') ∧
      files'.length = files.length ∧ Uniform filesize files' ∧
      flat filesize files' = splice (flat filesize files) pointer data := by
  induction fuel generalizing files pointer data with
  | zero =>
    obtain rfl : data = [] := length_eq_zero_iff.mp (by omega)
    exact ⟨files, rfl, rfl, huni, (splice_nil _ _).symm⟩
  | succ fuel ih =>
    by_cases hn : data.length = 0
    · obtain rfl : data = [] := length_eq_zero_iff.mp hn
      exact ⟨files, rfl, rfl, huni, (splice_nil _ _).symm⟩
    · obtain ⟨file, hget, hsize, hloc⟩ :=
        fileLocation_ok huni (show pointer < filesize * files.length by omega)
      have hpos := blockStep_pos pointer huni.pos (pos_of_ne_zero hn)
      have hle := blockStep_le filesize pointer data.length
      have hblock := mod_add_blockStep_le pointer data.length huni.pos
      have hcount : (file.write (pointer % filesize) data).1 =
          blockStep filesize pointer data.length := by
        simp [DataFile.write, blockStep, hsize]
      have hbytes : (file.write (pointer % filesize) data).2.bytes =
          splice file.bytes (pointer % filesize)
            (data.take (blockStep filesize pointer data.length)) := by
        simp [DataFile.write, blockStep, hsize]
      generalize blockStep filesize pointer data.length = k at hpos hle hblock hcount hbytes
      have hround := flat_write huni.pos hget hbytes (by rw [length_take]; omega)
      have huni' := huni.set (pointer / filesize) (file.write (pointer % filesize) data).2 hsize
      obtain ⟨files', hrun, hlen, hfiles, hflat⟩ := ih
        (files.set (pointer / filesize) (file.write (pointer % filesize) data).2)
        (pointer + k) (data.drop k) huni'
        (by rw [length_drop]; omega)
        (by rw [length_drop, length_set]; omega)
        (by rw [length_drop]; omega)
      refine ⟨files', ?_, by simpa using hlen, hfiles, ?_⟩
      · have hend : pointer + k + (data.drop k).length = pointer + data.length := by
          rw [length_drop]
          omega
        rw [hend] at hrun
        simp [writeLoop, hn, hloc, hcount, hpos.ne', wrap_of_lt
          (show pointer + k < 2 ^ 64 by omega), hrun]
      · have happ := splice_append (flat filesize files) pointer (data.take k) (data.drop k)
        rw [length_take, min_eq_left hle, take_append_drop] at happ
        rw [hflat, hround, happ]

theorem writeBuffers_eq (buffers : List (List UInt8)) (files : List DataFile) (pointer : Nat)
    (huni : Uniform filesize files)
    (hroom : pointer + buffers.flatten.length ≤ filesize * files.length)
    (hword : pointer + buffers.flatten.length < 2 ^ 64) :
    ∃ files', writeBuffers filesize files pointer buffers =
        (.ok (pointer + buffers.flatten.length), files') ∧
      files'.length = files.length ∧ Uniform filesize files' ∧
      flat filesize files' = splice (flat filesize files) pointer buffers.flatten := by
  induction buffers generalizing files pointer with
  | nil => exact ⟨files, rfl, rfl, huni, (splice_nil _ _).symm⟩
  | cons data rest ih =>
    simp only [flatten_cons, length_append] at hroom hword ⊢
    obtain ⟨mid, hone, hmidlen, hmid, hmidflat⟩ := writeLoop_eq data.length files
      pointer data huni (le_refl _) (by omega) (by omega)
    obtain ⟨files', hrest, hlen, hfiles, hflat⟩ := ih mid (pointer + data.length) hmid
      (by rw [hmidlen]; omega) (by omega)
    refine ⟨files', ?_, by omega, hfiles, ?_⟩
    · simp only [writeBuffers, hone, hrest]
      rw [add_assoc]
    · rw [hflat, hmidflat, splice_append]

theorem releaseLoop_eq (fuel : Nat) (files : List DataFile) (pointer n : Nat)
    (huni : Uniform filesize files) (hfuel : n ≤ fuel)
    (hroom : pointer + n ≤ filesize * files.length) (hword : pointer + n < 2 ^ 64) :
    ∃ files', releaseLoop filesize fuel files pointer n = (.ok n, files') ∧
      files'.length = files.length ∧ Uniform filesize files' ∧
      flat filesize files' = fill (flat filesize files) pointer n 0 := by
  induction fuel generalizing files pointer n with
  | zero =>
    obtain rfl : n = 0 := by omega
    exact ⟨files, rfl, rfl, huni, by simp [fill_eq_splice]⟩
  | succ fuel ih =>
    by_cases hn : n = 0
    · subst hn
      exact ⟨files, rfl, rfl, huni, by simp [fill_eq_splice]⟩
    · obtain ⟨file, hget, hsize, hloc⟩ :=
        fileLocation_ok huni (show pointer < filesize * files.length by omega)
      have hpos := blockStep_pos pointer huni.pos (pos_of_ne_zero hn)
      have hle := blockStep_le filesize pointer n
      have hcount : (file.release (pointer % filesize) n).1 = blockStep filesize pointer n := by
        simp [DataFile.release, blockStep, hsize]
      have hbytes : (file.release (pointer % filesize) n).2.bytes =
          fill file.bytes (pointer % filesize) (blockStep filesize pointer n) 0 := by
        simp [DataFile.release, blockStep, hsize]
      have hround := flat_release huni.pos hget hbytes (mod_add_blockStep_le pointer n huni.pos)
      generalize blockStep filesize pointer n = k at hpos hle hcount hround
      have huni' := huni.set (pointer / filesize) (file.release (pointer % filesize) n).2 hsize
      obtain ⟨files', hrun, hlen, hfiles, hflat⟩ := ih
        (files.set (pointer / filesize) (file.release (pointer % filesize) n).2)
        (pointer + k) (n - k) huni' (by omega) (by rw [length_set]; omega) (by omega)
      refine ⟨files', ?_, by simpa using hlen, hfiles, ?_⟩
      · simp [releaseLoop, hn, hloc, hcount, hpos.ne', wrap_of_lt
          (show pointer + k < 2 ^ 64 by omega), hrun,
          Nat.add_sub_cancel' hle]
      · rw [hflat, hround, fill_append, Nat.add_sub_cancel' hle]

end UhCore.Storage
