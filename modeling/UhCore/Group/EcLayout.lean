import UhCore.Group.EcView

/-!
Where the bytes of a write lie. The write places data byte `x` at the striped
address `offset * dataShards + x` of the group, that is on the storage and at
the local pointer which the pointer arithmetic computes for that address; the
rest of the last stripe is zero.
-/

namespace UhCore.Group

open Words Blocks Bytes Memory List

namespace EcGeometry

variable (g : EcGeometry)

theorem stripeSize_pos : 0 < g.stripeSize := Nat.mul_pos g.dataShards_pos g.chunkSize_pos

theorem le_numStripes_mul (dataSize : Nat) : dataSize ≤ g.numStripes dataSize * g.stripeSize := by
  have hdiv := Nat.mod_add_div dataSize g.stripeSize
  have hmod := Nat.mod_lt dataSize g.stripeSize_pos
  unfold numStripes
  split
  · rw [add_mul, one_mul, mul_comm (dataSize / g.stripeSize)]
    omega
  · rw [add_zero, mul_comm]
    omega

theorem stripe_full {dataSize i : Nat} (hi : i + 1 < g.numStripes dataSize) :
    (i + 1) * g.stripeSize ≤ dataSize := by
  have hdiv := Nat.div_mul_le_self dataSize g.stripeSize
  have hle : i + 1 ≤ dataSize / g.stripeSize := by
    unfold numStripes at hi
    split at hi <;> omega
  exact (Nat.mul_le_mul_right _ hle).trans hdiv

variable {data : List UInt8} {i : Nat} (rs : g.Coder) {q j r t n : Nat}
  {mem : Nat → Nat → Option UInt8}

section

variable (hi : i < g.numStripes data.length)

include hi

theorem length_stripeData : (g.stripeData data i).length = g.stripeSize := by
  simp only [stripeData]
  split
  · rw [length_append, length_replicate]
    omega
  · rename_i hfull
    rw [length_take, length_drop] at *
    apply min_eq_left
    by_cases hlast : i = g.numStripes data.length - 1
    · omega
    · have hle := g.stripe_full (show i + 1 < g.numStripes data.length by omega)
      rw [add_mul, one_mul] at hle
      omega

theorem getElem?_stripeData (hq : q < g.stripeSize) :
    (g.stripeData data i)[q]? = some (data.getD (i * g.stripeSize + q) 0) := by
  have hlen := g.length_stripeData hi
  simp only [stripeData] at hlen ⊢
  rw [getD_eq_getElem?_getD]
  split at hlen
  · rename_i hshort
    rw [if_pos hshort]
    by_cases hin : q < (data.drop (i * g.stripeSize)).length
    · rw [getElem?_append_left hin, getElem?_drop,
        getElem?_eq_getElem (by rw [length_drop] at hin; omega)]
      rfl
    · rw [getElem?_append_right (by omega),
        getElem?_eq_none (show data.length ≤ i * g.stripeSize + q by
          rw [length_drop] at hin; omega), getElem?_replicate,
        if_pos (by omega)]
      rfl
  · rename_i hfull
    rw [if_neg hfull, getElem?_take_of_lt hq, getElem?_drop]
    rw [length_take, length_drop] at hlen
    rw [getElem?_eq_getElem (by omega)]
    rfl

theorem length_dataView : (g.dataView data i).length = g.dataShards := by
  rw [dataView, splitBuffer, length_map, length_range, g.length_stripeData hi,
    stripeSize, Nat.mul_div_cancel _ g.chunkSize_pos]

theorem getElem?_dataView (hj : j < g.dataShards) : (g.dataView data i)[j]? =
      some (((g.stripeData data i).drop (j * g.chunkSize)).take g.chunkSize) := by
  have hcount : (g.stripeData data i).length / g.chunkSize = g.dataShards := by
    rw [g.length_stripeData hi, stripeSize, Nat.mul_div_cancel _ g.chunkSize_pos]
  simp [dataView, splitBuffer, hcount, hj]

theorem length_of_mem_dataView : ∀ chunk ∈ g.dataView data i, chunk.length = g.chunkSize := by
  intro chunk hchunk
  obtain ⟨j, hj⟩ := getElem?_of_mem hchunk
  have hlt : j < g.dataShards := by
    have := (List.getElem?_eq_some_iff.mp hj).1
    rwa [g.length_dataView hi] at this
  rw [g.getElem?_dataView hi hlt, Option.some.injEq] at hj
  have hle : (j + 1) * g.chunkSize ≤ g.stripeSize := Nat.mul_le_mul_right _ hlt
  rw [add_mul, one_mul] at hle
  rw [← hj, length_take, length_drop, g.length_stripeData hi]
  omega

theorem getElem?_dataChunk (hj : j < g.dataShards)
    (hr : r < g.chunkSize) : ((g.dataView data i).getD j [])[r]? =
      some (data.getD (i * g.stripeSize + (j * g.chunkSize + r)) 0) := by
  rw [getD_eq_getElem?_getD, g.getElem?_dataView hi hj, Option.getD_some,
    getElem?_take_of_lt hr, getElem?_drop]
  exact g.getElem?_stripeData hi (chunk_add_lt hj hr)

theorem length_shards : (g.shards rs data i).length = g.storages := by
  rw [shards, length_append, g.length_dataView hi, rs.length_encode]
  rfl

theorem length_of_mem_shards : ∀ shard ∈ g.shards rs data i, shard.length = g.chunkSize := by
  intro shard hshard
  rcases mem_append.mp hshard with hdata | hparity
  · exact g.length_of_mem_dataView hi shard hdata
  · exact rs.length_parity _ shard hparity

theorem length_shard {id : Nat} (hid : id < g.storages) :
    ((g.shards rs data i).getD id []).length = g.chunkSize := by
  have hlt : id < (g.shards rs data i).length := by rwa [g.length_shards rs hi]
  rw [getD_eq_getElem?_getD, getElem?_eq_getElem hlt]
  exact g.length_of_mem_shards rs hi _ (getElem_mem hlt)

theorem shards_getD_data (hj : j < g.dataShards) :
    (g.shards rs data i).getD j [] = (g.dataView data i).getD j [] := by
  have hlt := g.length_dataView hi
  rw [shards, getD_eq_getElem?_getD, getD_eq_getElem?_getD, getElem?_append_left (by omega)]

end

theorem flatten_storageBuffers (data : List UInt8) (id : Nat) :
    (g.storageBuffers rs data id).flatten =
      (List.range (g.numStripes data.length)).flatMap
        (fun i => (g.shards rs data i).getD id []) := by
  simp only [storageBuffers]
  split
  · rename_i hid
    rw [← flatMap_def]
    apply flatMap_congr
    intro i hi
    have hlt := g.length_dataView (mem_range.mp hi)
    rw [shards, getD_eq_getElem?_getD, getD_eq_getElem?_getD, getElem?_append_left (by omega)]
  · rename_i hid
    rw [flatten_singleton]
    apply flatMap_congr
    intro i hi
    have hlt := g.length_dataView (mem_range.mp hi)
    rw [shards, getD_eq_getElem?_getD, getD_eq_getElem?_getD, getElem?_append_right (by omega), hlt]

/-- Each storage holds the buffers it was handed, from the allocation offset
on. -/
def StoresWrite (rs : g.Coder) (offset : Nat) (data : List UInt8)
    (mem : Nat → Nat → Option UInt8) : Prop :=
  ∀ id, id < g.storages →
    load (mem id) offset (g.numStripes data.length * g.chunkSize) =
      some (g.storageBuffers rs data id).flatten

/-- The byte that a write puts at a striped address of the group. -/
def groupByte (offset : Nat) (data : List UInt8) (p : Nat) : UInt8 :=
  data.getD (p - offset * g.dataShards) 0

/-- The striped addresses that a write fills. -/
structure InWrite (offset : Nat) (data : List UInt8) (p n : Nat) : Prop where
  low : offset * g.dataShards ≤ p
  start : p < offset * g.dataShards + g.numStripes data.length * g.stripeSize
  high : p + n ≤ offset * g.dataShards + g.numStripes data.length * g.stripeSize

theorem StoresWrite.load_shard {g : EcGeometry} {rs : g.Coder} {offset : Nat}
    (h : g.StoresWrite rs offset data mem) {i id : Nat} (hi : i < g.numStripes data.length)
    (hid : id < g.storages) :
    load (mem id) (offset + i * g.chunkSize) g.chunkSize =
      some ((g.shards rs data i).getD id []) := by
  have hload := h id hid
  rw [g.flatten_storageBuffers] at hload
  have hend : (i + 1) * g.chunkSize ≤ g.numStripes data.length * g.chunkSize :=
    Nat.mul_le_mul_right _ hi
  rw [add_mul, one_mul] at hend
  have hsub := load_sub (i * g.chunkSize) g.chunkSize hload hend
  rw [hsub]
  congr 1
  have hblocks : ∀ t, t < g.numStripes data.length →
      ((g.shards rs data t).getD id []).length = g.chunkSize := by
    intro t ht
    exact g.length_shard rs ht hid
  apply ext_getElem?
  intro r
  by_cases hr : r < g.chunkSize
  · rw [getElem?_take_of_lt hr, getElem?_drop,
      getElem?_flatMap_blocks hblocks (by omega), mul_add_div_of_lt i hr,
      mul_add_mod_of_lt i hr]
  · rw [getElem?_eq_none (by rw [length_take]; omega),
      getElem?_eq_none (by rw [hblocks i hi]; omega)]

theorem InWrite.stripe {g : EcGeometry} (hj : j < g.dataShards) (hr : r < g.chunkSize)
    (h : g.InWrite (q * g.chunkSize) data (stripedAddress g.dataShards g.chunkSize t j r) n) :
    q ≤ t ∧ t - q < g.numStripes data.length := by
  have hbase : q * g.chunkSize * g.dataShards = g.stripeSize * q := by
    unfold stripeSize
    ring
  obtain ⟨hlow, hstart, -⟩ := h
  have hin := chunk_add_lt hj hr
  rw [hbase, stripedAddress] at hlow hstart
  change g.stripeSize * q ≤ g.stripeSize * t + _ at hlow
  change g.stripeSize * t + _ < g.stripeSize * q + _ at hstart
  change j * g.chunkSize + r < g.stripeSize at hin
  have hq : q ≤ t := by
    have hlt : g.stripeSize * q < g.stripeSize * (t + 1) := by
      rw [mul_add, mul_one]
      omega
    exact Nat.lt_succ_iff.mp (Nat.lt_of_mul_lt_mul_left hlt)
  refine ⟨hq, ?_⟩
  have hlt : g.stripeSize * t < g.stripeSize * (q + g.numStripes data.length) := by
    rw [mul_add, mul_comm g.stripeSize (g.numStripes data.length)]
    omega
  have := Nat.lt_of_mul_lt_mul_left hlt
  omega

theorem StoresWrite.load_piece {g : EcGeometry} {rs : g.Coder}
    (h : g.StoresWrite rs (q * g.chunkSize) data mem) (hj : j < g.dataShards) (hr : r < g.chunkSize)
    (hroom : r + n ≤ g.chunkSize)
    (hin : g.InWrite (q * g.chunkSize) data (stripedAddress g.dataShards g.chunkSize t j r) n) :
    load (mem j) (t * g.chunkSize + r) n =
      some (window (g.groupByte (q * g.chunkSize) data)
        (stripedAddress g.dataShards g.chunkSize t j r) n) := by
  obtain ⟨hq, hstripe⟩ := hin.stripe hj hr
  have hid : j < g.storages := by
    unfold storages
    omega
  have hbase : q * g.chunkSize + (t - q) * g.chunkSize = t * g.chunkSize := by
    rw [← add_mul, Nat.add_sub_cancel' hq]
  have hload := h.load_shard hstripe hid
  rw [hbase] at hload
  rw [load_sub r n hload hroom]
  congr 1
  symm
  apply window_eq_of_getElem?
  · rw [length_take, length_drop, g.length_shard rs hstripe hid]
    omega
  · intro x hx
    rw [getElem?_take_of_lt hx, getElem?_drop]
    have hdata := g.shards_getD_data rs hstripe hj
    rw [hdata, g.getElem?_dataChunk hstripe hj (by omega), groupByte]
    congr 2
    have hsub : g.stripeSize * t = g.stripeSize * q + (t - q) * g.stripeSize := by
      rw [mul_comm (t - q), ← mul_add, Nat.add_sub_cancel' hq]
    have hoff : q * g.chunkSize * g.dataShards = g.stripeSize * q := by
      unfold stripeSize
      ring
    rw [hoff, stripedAddress]
    change _ = g.stripeSize * t + _ + x - _
    omega

end EcGeometry

end UhCore.Group
