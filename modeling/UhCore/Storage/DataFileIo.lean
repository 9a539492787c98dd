import UhCore.Storage.DataFile

/-!
How a data file is read from and written to the disk. A call to the kernel moves a
part of what it is asked for, or fails; `safe_pread` and `safe_pwrite` call until
all is moved.
-/

namespace UhCore.Storage

open Bytes List

/-- What the kernel answers to the calls of a loop: the text for `errno`, or how
many bytes it is ready to move. -/
abbrev KernelAnswers := Nat → Except String Nat

structure DiskFile where
  length : Nat
  bytes : Nat → UInt8

/-- Reads at least one byte, unless the file ends at `pos`. -/
def DiskFile.pread (file : DiskFile) (pos count answer : Nat) : List UInt8 :=
  window file.bytes pos (min (max 1 answer) (min count (file.length - pos)))

/-- Writes at least one byte. A gap behind the end of the file becomes zeroes. -/
def DiskFile.pwrite (file : DiskFile) (pos : Nat) (data : List UInt8) (answer : Nat) :
    Nat × DiskFile :=
  let count := min (max 1 answer) data.length
  (count, ⟨max file.length (pos + count),
    splice (fill file.bytes file.length (pos - file.length) 0) pos (data.take count)⟩)

def throwFromErrno (msg errno : String) : Exn := .runtimeError (msg ++ ": " ++ errno)

/-- The bytes read, whose number the source returns; `none` while the loop still
runs after `fuel` calls. -/
def safePread (file : DiskFile) (size offset fuel : Nat) (answers : KernelAnswers)
    (read : List UInt8) : Option (Except Exn (List UInt8)) :=
  if read.length < size then
    match fuel, answers 0 with
    | 0, _ => none
    | _ + 1, .error errno => some (.error (throwFromErrno "pread failed" errno))
    | fuel + 1, .ok k => safePread file size offset fuel (fun i => answers (i + 1))
        (read ++ file.pread (offset + read.length) (size - read.length) k)
  else some (.ok read)

def safePwrite (buffer : List UInt8) (offset fuel : Nat) (answers : KernelAnswers) (written : Nat)
    (file : DiskFile) : Option (Except Exn Nat) × DiskFile :=
  if written < buffer.length then
    match fuel, answers 0 with
    | 0, _ => (none, file)
    | _ + 1, .error errno => (some (.error (throwFromErrno "pwrite failed" errno)), file)
    | fuel + 1, .ok k =>
      let (rc, file') := file.pwrite (offset + written) (buffer.drop written) k
      safePwrite buffer offset fuel (fun i => answers (i + 1)) (written + rc) file'
  else (some (.ok written), file)

variable {file : DiskFile} {size offset fuel written : Nat} {read buffer : List UInt8}

/-- The loop has the next bytes of the file, and each call that does not fail
adds one. -/
theorem safePread_inside (h : offset + size ≤ file.length) (answers : KernelAnswers)
    (hread : read = window file.bytes offset read.length) (hle : read.length ≤ size)
    (hfuel : size ≤ read.length + fuel) :
    safePread file size offset fuel answers read = some (.ok (window file.bytes offset size)) ∨
      ∃ i e, answers i = .error e ∧ safePread file size offset fuel answers read =
        some (.error (throwFromErrno "pread failed" e)) := by
  fun_induction safePread file size offset fuel answers read with
  | case1 answers read hlt => omega
  | case2 answers read hlt fuel e herror => exact .inr ⟨0, e, herror, rfl⟩
  | case3 answers read hlt fuel k _ ih =>
    simp only [DiskFile.pread, length_append, length_window, window_append, ← hread] at ih
    exact (ih trivial (by omega) (by omega)).imp_right fun ⟨i, h⟩ => ⟨i + 1, h⟩
  | case4 fuel answers read hlt =>
    rw [le_antisymm hle (by omega)] at hread
    exact .inl (congrArg _ (congrArg _ hread))

/-- At the end of the file `pread` returns nothing, and is called again. -/
theorem safePread_beyond (h : max offset file.length < offset + size)
    (hread : offset + read.length ≤ max offset file.length) (fuel k : Nat) :
    safePread file size offset fuel (fun _ => .ok k) read = none := by
  induction fuel generalizing read with
  | zero => exact if_pos (by omega)
  | succ fuel ih =>
    unfold safePread
    rw [if_pos (by omega)]
    apply ih
    simp only [DiskFile.pread, length_append, length_window]
    omega

theorem safePwrite_inside {disk : DiskFile} (h : offset + buffer.length ≤ disk.length)
    (answers : KernelAnswers)
    (hfile : file = ⟨disk.length, splice disk.bytes offset (buffer.take written)⟩)
    (hle : written ≤ buffer.length) (hfuel : buffer.length ≤ written + fuel) :
    safePwrite buffer offset fuel answers written file =
        (some (.ok buffer.length), ⟨disk.length, splice disk.bytes offset buffer⟩) ∨
      ∃ i e, answers i = .error e ∧ ∃ m < buffer.length,
        safePwrite buffer offset fuel answers written file =
        (some (.error (throwFromErrno "pwrite failed" e)),
          ⟨disk.length, splice disk.bytes offset (buffer.take m)⟩) := by
  fun_induction safePwrite buffer offset fuel answers written file with
  | case1 answers written file hlt => omega
  | case2 answers written file hlt fuel e herror =>
    exact .inr ⟨0, e, herror, written, hlt, by rw [hfile]⟩
  | case3 answers written file hlt fuel k _ rc file' hcall ih =>
    have hgap : offset + written - disk.length = 0 := by omega
    have hlen : (buffer.take written).length = written := by
      rw [length_take]
      omega
    have happ := splice_append disk.bytes offset (buffer.take written)
      ((buffer.drop written).take rc)
    rw [hlen, ← take_add] at happ
    simp only [hfile, DiskFile.pwrite, hgap, fill_eq_splice, replicate_zero, splice_nil,
      length_drop, Prod.mk.injEq] at hcall
    obtain ⟨hrc, hfile'⟩ := hcall
    rw [hrc, happ, max_eq_left (by omega)] at hfile'
    exact (ih hfile'.symm (by omega) (by omega)).imp_right fun ⟨i, h⟩ => ⟨i + 1, h⟩
  | case4 fuel answers written file hlt =>
    obtain rfl : written = buffer.length := by omega
    simp [hfile]

end UhCore.Storage
