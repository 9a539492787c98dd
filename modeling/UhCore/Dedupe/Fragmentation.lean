import UhCore.Dedupe.FragmentSet

/-!
The list of fragments that one request is cut into. Stored fragments refer to
bytes already in storage, unstored ones are written in one buffer; the
fragments that the write returns are mapped back to the list by a walk with
two cursors.
-/

namespace UhCore.Dedupe

open Memory List

inductive FragmentType where
  | stored
  | unstored
  deriving DecidableEq

structure DdFragment where
  type : FragmentType
  data : List UInt8
  header : Bool
  storedPointer : Nat
  storedSize : Nat
  hint : Option Nat
  addr : Address

/-- The calls made on the fragment set, in order. -/
inductive SetCall where
  | erase (frag : Fragment) (header : Bool)
  | markDeduplication (frag : Fragment)
  | insert (pointer : Nat) (data : List UInt8) (header : Bool) (hint : Option Nat)
  deriving DecidableEq

structure Fragmentation where
  frags : List DdFragment
  offsets : List Nat
  effectiveSize : Nat
  unstoredSize : Nat
  bufferAddress : Address

namespace Fragmentation

def empty : Fragmentation := ⟨[], [], 0, 0, []⟩

def pushStored (fr : Fragmentation) (pointer size : Nat) (data : List UInt8)
    (header : Bool) : Fragmentation :=
  if data.isEmpty then fr
  else { fr with frags := fr.frags ++ [⟨.stored, data, header, pointer, size, none, []⟩] }

def pushUnstored (fr : Fragmentation) (data : List UInt8) (header : Bool)
    (hint : Option Nat) : Fragmentation :=
  { fr with
    frags := fr.frags ++ [⟨.unstored, data, header, 0, data.length, hint, []⟩]
    effectiveSize := fr.effectiveSize + data.length
    unstoredSize := fr.unstoredSize + data.length }

end Fragmentation

/-- The fragment of storage that a stored entry refers to. -/
def DdFragment.storedFragment (f : DdFragment) : Fragment := ⟨f.storedPointer, f.storedSize⟩

def makeAddress : List DdFragment → Address
  | [] => []
  | f :: rest =>
    match f.type with
    | .unstored => f.addr ++ makeAddress rest
    | .stored => f.storedFragment :: makeAddress rest

def getStoredFragments (frags : List DdFragment) : Address :=
  (frags.filter (fun f => f.type = .stored)).map DdFragment.storedFragment

/-- The first rejected fragment from position `last` on that is the stored
fragment of `f`. -/
def rejectedIndex (addr : Address) (last : Nat) (f : DdFragment) : Option Nat :=
  ((addr.drop last).findIdx? (fun r => decide (r = f.storedFragment))).map (last + ·)

/-- A stored entry turned into an unstored one. -/
def DdFragment.rejected (f : DdFragment) : DdFragment :=
  { f with type := .unstored, storedPointer := 0, hint := none }

/-- The loop of `handle_rejected_fragments`: the new list, the calls on the
set and the number of bytes that became unstored. -/
def handleRejectedLoop (addr : Address) :
    Nat → List DdFragment → List DdFragment × List SetCall × Nat
  | _, [] => ([], [], 0)
  | last, f :: rest =>
    if f.type ≠ .stored then
      let (frags, calls, size) := handleRejectedLoop addr last rest
      (f :: frags, calls, size)
    else
      match rejectedIndex addr last f with
      | none =>
        let (frags, calls, size) := handleRejectedLoop addr last rest
        (f :: frags, calls, size)
      | some i =>
        let (frags, calls, size) := handleRejectedLoop addr (i + 1) rest
        (f.rejected :: frags, .erase f.storedFragment f.header :: calls, f.data.length + size)

def Fragmentation.handleRejectedFragments (fr : Fragmentation) (addr : Address) :
    Fragmentation × List SetCall :=
  let (frags, calls, size) := handleRejectedLoop addr 0 fr.frags
  ({ fr with
    frags := frags
    effectiveSize := fr.effectiveSize + size
    unstoredSize := fr.unstoredSize + size }, calls)

def unstoredBuffer : List DdFragment → List UInt8
  | [] => []
  | f :: rest =>
    if f.type ≠ .unstored then unstoredBuffer rest else f.data ++ unstoredBuffer rest

def unstoredOffsets : Nat → List DdFragment → List Nat
  | _, [] => []
  | offs, f :: rest =>
    if f.type ≠ .unstored then unstoredOffsets offs rest
    else offs :: unstoredOffsets (offs + f.data.length) rest

/-- The position of the walk in the written fragments. -/
structure Cursor where
  frag : Option Fragment
  offset : Nat
  id : Nat

def Cursor.fetch (bufferAddress : Address) (c : Cursor) : Except Exn (Fragment × Cursor) :=
  match bufferAddress[c.id]? with
  | none => .error (.runtimeError "insufficient data")
  | some f => .ok (f, ⟨some f, 0, c.id + 1⟩)

def Cursor.current (bufferAddress : Address) (c : Cursor) : Except Exn (Fragment × Cursor) :=
  match c.frag with
  | none => c.fetch bufferAddress
  | some f => if c.offset = f.size then c.fetch bufferAddress else .ok (f, c)

/-- The inner loop of `compute_unstored_addresses`: collect the address of one
entry of which `remaining` bytes are not yet mapped. -/
def fillAddress (bufferAddress : Address) :
    Nat → Nat → Cursor → Address → Except Exn (Address × Cursor)
  | 0, _, c, addr => .ok (addr, c)
  | fuel + 1, remaining, c, addr =>
    if remaining = 0 then .ok (addr, c)
    else do
      let (f, c) ← c.current bufferAddress
      let size := min (f.size - c.offset) remaining
      let c' := { c with offset := c.offset + size }
      if f.size < c'.offset then .error (.outOfRange "storage fragment overflow")
      else
        let addr' := addr ++ [⟨f.pointer + c.offset, size⟩]
        fillAddress bufferAddress fuel (remaining - size) c' addr'

/-- Every round of the inner loop maps a byte or moves to the next written
fragment. -/
def computeUnstoredAddresses (bufferAddress : Address) :
    Cursor → List DdFragment → Except Exn (List DdFragment)
  | _, [] => .ok []
  | c, f :: rest =>
    if f.type ≠ .unstored then do
      let frags ← computeUnstoredAddresses bufferAddress c rest
      pure (f :: frags)
    else do
      let fuel := f.data.length + bufferAddress.length + 1
      let (addr, c') ← fillAddress bufferAddress fuel f.data.length c f.addr
      let frags ← computeUnstoredAddresses bufferAddress c' rest
      pure ({ f with addr := addr } :: frags)

/-- Write the unstored fragments in one buffer. `alloc` gives the pointer at
which storage writes a buffer of a given size. -/
def Fragmentation.flushStorage (mem : GlobalMemory) (alloc : Nat → Nat)
    (fr : Fragmentation) : Except Exn (Fragmentation × GlobalMemory) :=
  if fr.unstoredSize = 0 then .ok (fr, mem)
  else do
    let buffer := unstoredBuffer fr.frags
    let offsets := fr.offsets ++ unstoredOffsets 0 fr.frags
    let base := alloc buffer.length
    let bufferAddress := computeAddress (base + ·) buffer.length offsets
    let frags ← computeUnstoredAddresses bufferAddress ⟨none, 0, 0⟩ fr.frags
    pure ({ fr with frags := frags, offsets := offsets, bufferAddress := bufferAddress },
      store mem base buffer)

def flushFragmentsInternal : List DdFragment → Except Exn (List SetCall)
  | [] => .ok []
  | f :: rest =>
    match f.type with
    | .stored => do
      let calls ← flushFragmentsInternal rest
      pure (.markDeduplication f.storedFragment :: calls)
    | .unstored =>
      match f.addr with
      | [] => .error (.undefinedBehaviour "frag.addr.fragments[0]")
      | first :: _ => do
        let calls ← flushFragmentsInternal rest
        pure (.insert first.pointer (f.data.take first.size) f.header f.hint :: calls)

def Fragmentation.flushFragmentSet (fr : Fragmentation) :
    Except Exn (Fragmentation × List SetCall) :=
  if fr.unstoredSize = 0 then .ok (fr, [])
  else do
    let calls ← flushFragmentsInternal fr.frags
    pure ({ fr with unstoredSize := 0 }, calls)

def readAddress (mem : GlobalMemory) : Address → Option (List UInt8)
  | [] => some []
  | f :: rest =>
    match load mem f.pointer f.size, readAddress mem rest with
    | some bytes, some more => some (bytes ++ more)
    | _, _ => none

theorem readAddress_cons {mem : GlobalMemory} {f : Fragment} {rest : Address}
    {bytes more : List UInt8} (hone : load mem f.pointer f.size = some bytes)
    (hrest : readAddress mem rest = some more) :
    readAddress mem (f :: rest) = some (bytes ++ more) := by
  simp [readAddress, hone, hrest]

/-- An entry of the list before its write: its data is not empty, a stored
entry refers to its data, an unstored one has no address yet. -/
structure DdFragment.Good (mem : GlobalMemory) (f : DdFragment) : Prop where
  nonempty : 0 < f.data.length
  stored : f.type = .stored → load mem f.storedPointer f.storedSize = some f.data
  addr : f.addr = []

theorem DdFragment.Good.rejected {mem : GlobalMemory} {f : DdFragment} (h : f.Good mem) :
    f.rejected.Good mem := by
  refine ⟨h.nonempty, ?_, h.addr⟩
  intro htype
  cases htype

/-- The list that the rejection of the fragments selected by `reject` leaves. -/
def markRejected (reject : Fragment → Bool) (f : DdFragment) : DdFragment :=
  if f.type = .stored ∧ reject f.storedFragment then f.rejected else f

def rejectedEntries (reject : Fragment → Bool) (frags : List DdFragment) : List DdFragment :=
  frags.filter fun f => decide (f.type = .stored ∧ reject f.storedFragment = true)

/-- The scan finds exactly the rejected entries, when the rejected fragments
come in the order of the list. -/
theorem handleRejectedLoop_eq (reject : Fragment → Bool) (frags : List DdFragment)
    (before : Address) :
    handleRejectedLoop (before ++ (getStoredFragments frags).filter reject)
      before.length frags =
        (frags.map (markRejected reject),
          (rejectedEntries reject frags).map (fun f => .erase f.storedFragment f.header),
          ((rejectedEntries reject frags).map fun f => f.data.length).sum) := by
  induction frags generalizing before with
  | nil => rfl
  | cons f rest ih =>
    by_cases htype : f.type = .stored
    · have hstore : getStoredFragments (f :: rest) =
          f.storedFragment :: getStoredFragments rest := by
        simp [getStoredFragments, htype]
      by_cases hrej : reject f.storedFragment = true
      · have hindex : rejectedIndex (before ++
            (getStoredFragments (f :: rest)).filter reject) before.length f =
            some before.length := by
          simp [rejectedIndex, hstore, hrej, findIdx?_cons]
        have hrest := ih (before ++ [f.storedFragment])
        rw [append_assoc, singleton_append, length_append, length_singleton] at hrest
        simp only [handleRejectedLoop, htype, ne_eq, not_true_eq_false, if_false, hindex, map_cons]
        rw [hstore, filter_cons_of_pos hrej, hrest]
        simp [markRejected, rejectedEntries, htype, hrej]
      · have hindex : rejectedIndex (before ++
            (getStoredFragments (f :: rest)).filter reject) before.length f = none := by
          rw [rejectedIndex, drop_left, Option.map_eq_none_iff, findIdx?_eq_none_iff]
          intro r hr
          have hrejected := (mem_filter.mp hr).2
          apply decide_eq_false
          rintro rfl
          exact hrej hrejected
        simp only [handleRejectedLoop, htype, ne_eq, not_true_eq_false, if_false, hindex, map_cons]
        rw [hstore, filter_cons_of_neg hrej, ih before]
        simp [markRejected, rejectedEntries, hrej]
    · have hstore : getStoredFragments (f :: rest) = getStoredFragments rest := by
        simp [getStoredFragments, htype]
      simp only [handleRejectedLoop, htype, ne_eq, not_false_eq_true, if_true, map_cons]
      rw [hstore, ih before]
      simp [markRejected, rejectedEntries, htype]

theorem Fragmentation.handleRejectedFragments_eq (fr : Fragmentation)
    (reject : Fragment → Bool) :
    fr.handleRejectedFragments ((getStoredFragments fr.frags).filter reject) =
      ({ fr with
        frags := fr.frags.map (markRejected reject)
        effectiveSize := fr.effectiveSize +
          ((rejectedEntries reject fr.frags).map fun f => f.data.length).sum
        unstoredSize := fr.unstoredSize +
          ((rejectedEntries reject fr.frags).map fun f => f.data.length).sum },
        (rejectedEntries reject fr.frags).map fun f => .erase f.storedFragment f.header) := by
  have hloop := handleRejectedLoop_eq reject fr.frags []
  rw [nil_append, length_nil] at hloop
  rw [Fragmentation.handleRejectedFragments, hloop]

theorem handleRejectedLoop_size (addr : Address) (last : Nat) (frags : List DdFragment) :
    (unstoredBuffer (handleRejectedLoop addr last frags).1).length =
      (unstoredBuffer frags).length + (handleRejectedLoop addr last frags).2.2 := by
  induction frags generalizing last with
  | nil => rfl
  | cons f rest ih =>
    by_cases htype : f.type = .stored
    · cases hindex : rejectedIndex addr last f with
      | none =>
        have hrest := ih last
        rcases hrun : handleRejectedLoop addr last rest with ⟨frags, calls, size⟩
        rw [hrun] at hrest
        simp only [handleRejectedLoop, htype, hindex, hrun, unstoredBuffer, ne_eq,
          not_true_eq_false, if_false, reduceCtorEq, not_false_eq_true, if_true]
        exact hrest
      | some i =>
        have hrest := ih (i + 1)
        rcases hrun : handleRejectedLoop addr (i + 1) rest with ⟨frags, calls, size⟩
        rw [hrun] at hrest
        simp only [handleRejectedLoop, htype, hindex, hrun, unstoredBuffer, ne_eq,
          not_true_eq_false, if_false, reduceCtorEq, not_false_eq_true, if_true,
          DdFragment.rejected, length_append, hrest]
        omega
    · have hunstored : f.type = .unstored := by
        cases h : f.type with
        | stored => exact absurd h htype
        | unstored => rfl
      have hrest := ih last
      rcases hrun : handleRejectedLoop addr last rest with ⟨frags, calls, size⟩
      rw [hrun] at hrest
      simp only [handleRejectedLoop, hunstored, hrun, unstoredBuffer, ne_eq,
        not_true_eq_false, if_false, reduceCtorEq, not_false_eq_true, if_true,
        length_append, hrest]
      omega

end UhCore.Dedupe
