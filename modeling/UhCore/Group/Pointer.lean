import UhCore.Types
import UhCore.Lib.Blocks

/-!
Global pointers. A pointer has 128 bits with the group id from bit 96 on. In a
round robin group the storage id follows from bit 64 on; in an erasure coded
group the lower bits are an address in the striped space of the group, which
names a storage and a local pointer by division.
-/

namespace UhCore.Group

open Words Blocks

def groupIdBitOffset : Nat := 96

def storageIdBitOffset : Nat := 64

def groupBits (groupId : Nat) : Nat := wrap 128 (groupId <<< groupIdBitOffset)

theorem groupBits_eq (groupId : Nat) : groupBits groupId = 2 ^ 96 * (groupId % 2 ^ 32) := by
  rw [groupBits, wrap, groupIdBitOffset, Nat.shiftLeft_eq, mul_comm,
    show 2 ^ 128 = 2 ^ 96 * 2 ^ 32 by decide, Nat.mul_mod_mul_left]

theorem groupBits_or (groupId : Nat) {p : Nat} (hp : p < 2 ^ 96) :
    groupBits groupId ||| p = groupBits groupId + p := by
  rw [groupBits_eq, Nat.two_pow_add_eq_or_of_lt hp]

def getGroupId (globalPointer : Nat) : Nat := wrap 64 (globalPointer >>> groupIdBitOffset)

def getGroupPointer (globalPointer : Nat) : Nat := globalPointer % 2 ^ groupIdBitOffset

namespace Rr

def getGlobalPointer (storagePointer groupId storageId : Nat) : Nat :=
  groupBits groupId ||| wrap 128 (storageId <<< storageIdBitOffset) ||| storagePointer

def getStoragePointer (globalPointer : Nat) : Nat × Nat :=
  ((globalPointer >>> storageIdBitOffset) % 2 ^ 32, wrap 64 globalPointer)

end Rr

namespace Ec

def getGlobalPointer (storagePointer groupId storageId chunkSize stripeSize : Nat) : Nat :=
  let groupPtr := wrap 128 ((storagePointer / chunkSize) * stripeSize +
    storagePointer % chunkSize + chunkSize * storageId)
  groupBits groupId ||| groupPtr

def getStoragePointer (groupPointer chunkSize stripeSize : Nat) : Nat × Nat :=
  let groupMod := groupPointer % stripeSize
  let storageId := groupMod / chunkSize
  (storageId, wrap 64 ((groupPointer / stripeSize) * chunkSize +
    (groupMod - storageId * chunkSize)))

end Ec

/-- Byte `offset` of chunk `chunk` of stripe `stripe`, in a space of stripes of
`k` chunks of `c` bytes. -/
def stripedAddress (k c stripe chunk offset : Nat) : Nat := k * c * stripe + (chunk * c + offset)

theorem exists_stripedAddress {k c : Nat} (hk : 0 < k) (hc : 0 < c) (p : Nat) :
    ∃ stripe chunk offset, chunk < k ∧ offset < c ∧ p = stripedAddress k c stripe chunk offset := by
  refine ⟨p / (k * c), p % (k * c) / c, p % (k * c) % c, ?_, Nat.mod_lt _ hc, ?_⟩
  · exact Nat.div_lt_of_lt_mul (mul_comm k c ▸ Nat.mod_lt p (Nat.mul_pos hk hc))
  · have hstripe := Nat.mod_add_div p (k * c)
    have hchunk := Nat.mod_add_div (p % (k * c)) c
    rw [mul_comm c] at hchunk
    unfold stripedAddress
    omega

section Striped

variable {k c stripe chunk offset : Nat} (hchunk : chunk < k) (hoffset : offset < c)

include hchunk hoffset

theorem chunk_add_lt : chunk * c + offset < k * c := by
  have hle : (chunk + 1) * c ≤ k * c := Nat.mul_le_mul_right c hchunk
  rw [add_mul, one_mul] at hle
  omega

theorem stripedAddress_div : stripedAddress k c stripe chunk offset / (k * c) = stripe := by
  have hlt := chunk_add_lt hchunk hoffset
  rw [stripedAddress, add_comm, Nat.add_mul_div_left _ _ (by omega), Nat.div_eq_of_lt hlt, zero_add]

theorem stripedAddress_mod :
    stripedAddress k c stripe chunk offset % (k * c) = chunk * c + offset := by
  rw [stripedAddress, Nat.mul_add_mod, Nat.mod_eq_of_lt (chunk_add_lt hchunk hoffset)]

omit hchunk in
theorem stripedAddress_mod_chunk : stripedAddress k c stripe chunk offset % c = offset := by
  have hsum : stripedAddress k c stripe chunk offset = offset + c * (k * stripe + chunk) := by
    unfold stripedAddress
    ring
  rw [hsum, Nat.add_mul_mod_self_left, Nat.mod_eq_of_lt hoffset]

/-- The storage pointer of an address is its chunk and its place in the column
of that chunk. -/
theorem Ec.getStoragePointer_striped :
    Ec.getStoragePointer (stripedAddress k c stripe chunk offset) c (k * c) =
      (chunk, wrap 64 (stripe * c + offset)) := by
  simp only [Ec.getStoragePointer, stripedAddress_mod hchunk hoffset,
    stripedAddress_div hchunk hoffset, mul_add_div_of_lt chunk hoffset,
    Nat.add_sub_cancel_left]

end Striped

/-- A storage pointer and the id of its storage give the address back, without
the group id. -/
theorem Ec.getGlobalPointer_striped {k c stripe chunk offset : Nat} (groupId : Nat)
    (hoffset : offset < c) (hlt : stripedAddress k c stripe chunk offset < 2 ^ 128) :
    Ec.getGlobalPointer (stripe * c + offset) groupId chunk c (k * c) =
      groupBits groupId ||| stripedAddress k c stripe chunk offset := by
  have hsum : stripe * (k * c) + offset + c * chunk = stripedAddress k c stripe chunk offset := by
    unfold stripedAddress
    ring
  simp only [Ec.getGlobalPointer, mul_add_div_of_lt stripe hoffset,
    mul_add_mod_of_lt stripe hoffset, hsum, wrap_of_lt hlt]

end UhCore.Group
