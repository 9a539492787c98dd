import UhCore.Group.EcFirstRead

/-!
Round trip of a write and a read on healthy storages. A write computes the
pointers it returns in 64 bits, while a read takes its pointers as 128-bit
numbers: the round trip holds exactly as long as the pointers do not wrap
around.
-/

namespace UhCore.Group

open Words Blocks Bytes Memory List

/-- The fragment of an offset: up to the next offset or the end of the data. -/
theorem getElem?_computeAddress (place : Nat → Nat) (dataSize : Nat) (offsets : List Nat)
    (i : Nat) :
    (computeAddress place dataSize offsets)[i]? =
      (offsets[i]?).map (fun o => ⟨place o, (offsets[i + 1]?).getD dataSize - o⟩) := by
  induction offsets generalizing i with
  | nil => rfl
  | cons x rest ih =>
    cases i with
    | zero => cases rest <;> rfl
    | succ i =>
      cases rest with
      | nil => rfl
      | cons y more => exact ih i

/-- The offsets of a write: they start at zero, do not decrease and lie in the
data. -/
structure OffsetsOk (offsets : List Nat) (dataSize : Nat) : Prop where
  head : offsets.head? = some 0
  sorted : offsets.Pairwise (· ≤ ·)
  inside : ∀ o ∈ offsets, o < dataSize

theorem OffsetsOk.fragment_le {offsets : List Nat} {dataSize : Nat}
    (h : OffsetsOk offsets dataSize) {i o : Nat} (ho : offsets[i]? = some o) :
    o + ((offsets[i + 1]?).getD dataSize - o) ≤ dataSize := by
  have hin := h.inside o (mem_of_getElem? ho)
  cases hnext : offsets[i + 1]? with
  | none => simp; omega
  | some next =>
    have := h.inside next (mem_of_getElem? hnext)
    simp only [Option.getD_some]
    omega

namespace EcGeometry

variable (g : EcGeometry)

/-- Every nonempty part of every fragment that a write returns reads back from
healthy storages, in pieces that stay inside a chunk of a data storage. -/
def ReadsBack (rs : g.Coder) (offset : Nat) (data : List UInt8) (offsets : List Nat) : Prop :=
  ∀ mem, g.StoresWrite rs offset data mem →
    ∀ (i o : Nat) (f : Fragment), offsets[i]? = some o →
      (g.computeAddress offset data.length offsets)[i]? = some f →
      ∀ lo n, 0 < n → lo + n ≤ f.size → ∀ buffer,
        (∃ buffer', g.readAddress rs (.healthy mem) [⟨f.pointer + lo, n⟩] buffer =
            .ok (n, buffer') ∧
          window buffer' 0 n = (data.drop (o + lo)).take n) ∧
        ∃ pieces, g.extractNodeAddressMap
            (g.getAlignedAddress [⟨f.pointer + lo, n⟩]) 0 = .ok pieces ∧
          ∀ piece ∈ pieces, piece.id < g.dataShards ∧
            piece.pointer % g.chunkSize + piece.size ≤ g.chunkSize

variable {f : Fragment} {p n : Nat} {data : List UInt8} {q : Nat} {mem : Nat → Nat → Option UInt8}
  (rs : g.Coder) {addr : Address} {offset : Nat} {offsets : List Nat}

theorem mem_alignedAddress (hf : f ∈ g.getAlignedAddress addr) :
    ∃ frag ∈ addr, InChunk g.chunkSize f ∧ PartOf frag.pointer frag.size f := by
  obtain ⟨frag, hfrag, hf⟩ := mem_flatMap.mp hf
  exact ⟨frag, hfrag, (splitFragment_spec g.chunkSize_pos (fun _ => 0) _ _).2 f hf⟩

theorem cuts_range (hn : 0 < n) (hword : p + n < 2 ^ 128) : g.Cuts [⟨p, n⟩] := by
  apply g.extractNodeAddressMap_ok
  intro f hf
  obtain ⟨frag, hfrag, hchunk, hpart⟩ := g.mem_alignedAddress hf
  obtain rfl := mem_singleton.mp hfrag
  have hhigh : f.pointer + f.size ≤ p + n := hpart.high
  exact ⟨hchunk, hpart.nonempty hn, by omega⟩

theorem InWrite.part {g : EcGeometry} (h : g.InWrite offset data p n) (hpart : PartOf p n f) :
    g.InWrite offset data f.pointer f.size := by
  obtain ⟨hlow, hstart, hhigh⟩ := h
  obtain ⟨hlow', hhigh', hpos⟩ := hpart
  refine ⟨hlow.trans hlow', ?_, hhigh'.trans hhigh⟩
  rcases Nat.eq_zero_or_pos n with rfl | hn
  · omega
  · have := hpos hn
    omega

def targetOf (bytes : List UInt8) (x : Nat) : UInt8 := bytes.getD x 0

theorem window_targetOf (bytes : List UInt8) : window (targetOf bytes) 0 bytes.length = bytes := by
  apply window_eq_of_getElem? rfl
  intro i hi
  rw [zero_add, targetOf, getD_eq_getElem?_getD, getElem?_eq_getElem hi]
  rfl

theorem local_pointer_lt
    (hspace : q * g.chunkSize + g.numStripes data.length * g.chunkSize ≤ 2 ^ 64) {t r : Nat}
    (hr : r < g.chunkSize) (ht : t - q < g.numStripes data.length) (hq : q ≤ t) :
    t * g.chunkSize + r < 2 ^ 64 := by
  have hle : (t + 1) * g.chunkSize ≤ (q + g.numStripes data.length) * g.chunkSize :=
    Nat.mul_le_mul_right _ (by omega)
  rw [add_mul, add_mul, one_mul] at hle
  omega

section

variable {rs} (hstore : g.StoresWrite rs (q * g.chunkSize) data mem)
    (hspace : q * g.chunkSize + g.numStripes data.length * g.chunkSize ≤ 2 ^ 64)

include hstore hspace

theorem load_pieceOf
    (hchunk : InChunk g.chunkSize f) (hin : g.InWrite (q * g.chunkSize) data f.pointer f.size)
    (off : Nat) : load (mem (g.pieceOf f off).id) (g.pieceOf f off).pointer f.size =
      some (window (g.groupByte (q * g.chunkSize) data) f.pointer f.size) := by
  obtain ⟨pointer, n⟩ := f
  obtain ⟨t, j, r, hj, hr, rfl⟩ := exists_stripedAddress g.dataShards_pos g.chunkSize_pos pointer
  rw [InChunk, stripedAddress_mod_chunk hr] at hchunk
  obtain ⟨hq, ht⟩ := hin.stripe hj hr
  rw [g.pieceOf_striped off hj hr, wrap_of_lt (g.local_pointer_lt hspace hr ht hq)]
  exact hstore.load_piece hj hr hchunk hin

theorem addressPieces_hold (hin : ∀ f ∈ addr, g.InWrite (q * g.chunkSize) data f.pointer f.size) :
    ∀ piece ∈ g.addressPieces addr,
      piece.Holds mem (targetOf (bytesAt (g.groupByte (q * g.chunkSize) data) addr)) := by
  apply g.piecesOf_hold
  · rw [g.dataSize_alignedAddress, ← length_bytesAt (g.groupByte (q * g.chunkSize) data),
      window_targetOf, g.bytesAt_alignedAddress]
  · intro f hf off
    obtain ⟨frag, hfrag, hchunk, hpart⟩ := g.mem_alignedAddress hf
    exact g.load_pieceOf hstore hspace hchunk ((hin frag hfrag).part hpart) off

theorem readAddress_range (hn : 0 < n)
    (hin : g.InWrite (q * g.chunkSize) data p n) (hword : p + n < 2 ^ 128) (buffer : Nat → UInt8) :
    ∃ buffer', g.readAddress rs (.healthy mem) [⟨p, n⟩] buffer = .ok (n, buffer') ∧
      window buffer' 0 n = window (g.groupByte (q * g.chunkSize) data) p n := by
  have hbytes : bytesAt (g.groupByte (q * g.chunkSize) data) [⟨p, n⟩] =
      window (g.groupByte (q * g.chunkSize) data) p n := by simp [bytesAt]
  have hhold := g.addressPieces_hold hstore hspace
    (show ∀ f ∈ ([⟨p, n⟩] : Address), _ by
      intro f hf
      rw [mem_singleton.mp hf]
      exact hin)
  obtain ⟨buffer', hrun, hwin⟩ := g.readAddress_up rs (g.not_failed_healthy mem _)
    (g.cuts_range hn hword) hhold buffer
  rw [← length_bytesAt (g.groupByte (q * g.chunkSize) data), window_targetOf, hbytes,
    length_window] at hwin
  exact ⟨buffer', hrun, hwin⟩

end

theorem window_groupByte {x n : Nat} (hle : x + n ≤ data.length) :
    window (g.groupByte offset data) (offset * g.dataShards + x) n = (data.drop x).take n := by
  apply window_eq_of_getElem?
  · rw [length_take, length_drop]
    omega
  · intro i hi
    have hindex : offset * g.dataShards + x + i - offset * g.dataShards = x + i := by omega
    rw [getElem?_take_of_lt hi, getElem?_drop, groupByte, hindex,
      getD_eq_getElem?_getD, getElem?_eq_getElem (by omega)]
    rfl

theorem addressPieces_inside
    (hspace : q * g.chunkSize + g.numStripes data.length * g.chunkSize ≤ 2 ^ 64)
    (hin : g.InWrite (q * g.chunkSize) data p n) :
    ∀ piece ∈ g.addressPieces [⟨p, n⟩], piece.id < g.dataShards ∧
      piece.pointer % g.chunkSize + piece.size ≤ g.chunkSize := by
  intro piece hpiece
  obtain ⟨f, hf, off, rfl⟩ := g.mem_piecesOf hpiece
  refine ⟨g.pieceOf_id_lt f off, ?_⟩
  obtain ⟨frag, hfrag, hchunk, hpart⟩ := g.mem_alignedAddress hf
  rw [mem_singleton.mp hfrag] at hpart
  have hin' := hin.part hpart
  obtain ⟨pointer, size⟩ := f
  obtain ⟨t, j, r, hj, hr, rfl⟩ := exists_stripedAddress g.dataShards_pos g.chunkSize_pos pointer
  rw [InChunk, stripedAddress_mod_chunk hr] at hchunk
  obtain ⟨hq, ht⟩ := hin'.stripe hj hr
  rw [g.pieceOf_striped off hj hr, wrap_of_lt (g.local_pointer_lt hspace hr ht hq),
    mul_add_mod_of_lt t hr]
  exact hchunk

theorem readsBack_of_lt (hdata : data.length < 2 ^ 64)
    (hspace : q * g.chunkSize + g.numStripes data.length * g.chunkSize ≤ 2 ^ 64)
    (hoffs : OffsetsOk offsets data.length)
    (hlt : ∀ o ∈ offsets, q * g.chunkSize * g.dataShards + o < 2 ^ 64) :
    g.ReadsBack rs (q * g.chunkSize) data offsets := by
  intro mem hstore i o f ho hf lo n hn hle buffer
  have hbound := hlt o (mem_of_getElem? ho)
  have hfrag := hoffs.fragment_le ho
  rw [EcGeometry.computeAddress, getElem?_computeAddress, ho, Option.map_some,
    Option.some.injEq] at hf
  subst hf
  simp only at hle ⊢
  have hplace : wrap 64 (wrap 64 (q * g.chunkSize * g.dataShards) + o) =
      q * g.chunkSize * g.dataShards + o := by
    rw [wrap_wrap_add, wrap_of_lt hbound]
  have hstrs := g.le_numStripes_mul data.length
  have hin : g.InWrite (q * g.chunkSize) data (q * g.chunkSize * g.dataShards + (o + lo)) n :=
    ⟨Nat.le_add_right _ _, by omega, by omega⟩
  rw [hplace, add_assoc]
  obtain ⟨buffer', hrun, hwin⟩ := g.readAddress_range hstore hspace hn hin (by omega) buffer
  refine ⟨⟨buffer', hrun, ?_⟩, g.addressPieces _, g.cuts_range hn (by omega),
    g.addressPieces_inside hspace hin⟩
  rw [hwin]
  exact g.window_groupByte (by omega)

/-- Storages that hold a write, and `b` everywhere below it. -/
def memoryAbove (rs : g.Coder) (offset : Nat) (data : List UInt8) (b : UInt8) (id x : Nat) :
    Option UInt8 :=
  if x < offset then some b else (g.storageBuffers rs data id).flatten[x - offset]?

theorem memoryAbove_stores (offset : Nat) (data : List UInt8) (b : UInt8) :
    g.StoresWrite rs offset data (g.memoryAbove rs offset data b) := by
  intro id hid
  apply load_eq_some_iff.mpr
  refine ⟨?_, ?_⟩
  · rw [g.flatten_storageBuffers]
    exact length_flatMap_blocks (fun i hi => g.length_shard rs hi hid)
  · intro i c hc
    simp [memoryAbove, hc]

theorem pieceOf_below {q p : Nat} (hlt : p < q * g.chunkSize * g.dataShards) (n off : Nat) :
    (g.pieceOf ⟨p, n⟩ off).pointer < q * g.chunkSize := by
  obtain ⟨t, j, r, hj, hr, rfl⟩ := exists_stripedAddress g.dataShards_pos g.chunkSize_pos p
  have hbase : q * g.chunkSize * g.dataShards = g.dataShards * g.chunkSize * q := by ring
  have ht : t < q := by
    rw [hbase, stripedAddress] at hlt
    exact Nat.lt_of_mul_lt_mul_left (lt_of_le_of_lt (Nat.le_add_right _ _) hlt)
  have hle : (t + 1) * g.chunkSize ≤ q * g.chunkSize := Nat.mul_le_mul_right _ ht
  rw [add_mul, one_mul] at hle
  rw [g.pieceOf_striped off hj hr]
  exact lt_of_le_of_lt (wrap_le 64 _) (by omega)

theorem readAddress_below (data : List UInt8) (b : UInt8) {p : Nat}
    (hlt : p < q * g.chunkSize * g.dataShards) (hword : p + 1 < 2 ^ 128) (buffer : Nat → UInt8) :
    ∃ buffer', g.readAddress rs
        (.healthy (g.memoryAbove rs (q * g.chunkSize) data b)) [⟨p, 1⟩] buffer = .ok (1, buffer') ∧
      window buffer' 0 1 = [b] := by
  have hhold : ∀ piece ∈ g.addressPieces [⟨p, 1⟩],
      piece.Holds (g.memoryAbove rs (q * g.chunkSize) data b) (fun _ => b) := by
    apply g.piecesOf_hold (h := fun _ => b)
    · rw [g.dataSize_alignedAddress, g.bytesAt_alignedAddress]
      rfl
    · intro f hf off
      obtain ⟨frag, hfrag, -, hlow, hhigh, hpos⟩ := g.mem_alignedAddress hf
      rw [mem_singleton.mp hfrag] at hlow hhigh hpos
      have hsize := hpos Nat.one_pos
      obtain ⟨pointer, n⟩ := f
      simp only at hsize hlow hhigh
      obtain rfl : n = 1 := by omega
      obtain rfl : pointer = p := by omega
      have hbelow := g.pieceOf_below hlt 1 off
      simp only [load, memoryAbove, hbelow, if_true]
      rfl
  obtain ⟨buffer', hrun, hwin⟩ := g.readAddress_up rs (g.not_failed_healthy _ _)
    (g.cuts_range Nat.one_pos hword) hhold buffer
  exact ⟨buffer', hrun, hwin⟩

theorem byte_ne_add_one (b : UInt8) : b ≠ b + 1 := by
  intro h
  have hnat := congrArg UInt8.toNat h
  rw [UInt8.toNat_add] at hnat
  have hlt := b.toNat_lt
  simp only [UInt8.toNat_one] at hnat
  omega

/-- A write whose last pointer wraps around does not read back: the pointer
names an address below the write. -/
theorem not_readsBack_of_wrap (hdata : data.length < 2 ^ 64) (hoffs : OffsetsOk offsets data.length)
    {o : Nat} (ho : o ∈ offsets) (hge : 2 ^ 64 ≤ q * g.chunkSize * g.dataShards + o) :
    ¬ g.ReadsBack rs (q * g.chunkSize) data offsets := by
  intro hreads
  have hne : offsets ≠ [] := ne_nil_of_mem ho
  have hlast : offsets[offsets.length - 1]? = some (offsets.getLast hne) := by
    rw [← getLast?_eq_getElem?, getLast?_eq_some_getLast hne]
  have hnext : offsets[offsets.length - 1 + 1]? = none := by
    apply getElem?_eq_none
    omega
  have hmax : o ≤ offsets.getLast hne := by
    obtain ⟨i, hi, rfl⟩ := mem_iff_getElem.mp ho
    rcases Nat.lt_or_ge i (offsets.length - 1) with hlt | hge'
    · rw [getLast_eq_getElem]
      exact (pairwise_iff_getElem.mp hoffs.sorted) i _ hi (by omega) hlt
    · rw [getLast_eq_getElem]
      apply le_of_eq
      congr 1
      omega
  have hin := hoffs.inside _ (getLast_mem hne)
  have hfrag := getElem?_computeAddress
    (fun off => wrap 64 (wrap 64 (q * g.chunkSize * g.dataShards) + off)) data.length
    offsets (offsets.length - 1)
  rw [hlast, hnext, Option.getD_none, Option.map_some] at hfrag
  have hwrap := wrap_add_period_le
    (show 2 ^ 64 ≤ q * g.chunkSize * g.dataShards + offsets.getLast hne by omega)
  have hread := (hreads (g.memoryAbove rs (q * g.chunkSize) data
    (data.getD (offsets.getLast hne) 0 + 1)) (g.memoryAbove_stores rs _ data _) _ _ _ hlast
    hfrag 0 1 Nat.one_pos (by simp only; omega) (fun _ => 0)).1
  obtain ⟨buffer', hrun, hwin⟩ := hread
  simp only [wrap_wrap_add, add_zero] at hrun hwin
  have hlow := wrap_lt 64 (q * g.chunkSize * g.dataShards + offsets.getLast hne)
  obtain ⟨buffer'', hrun', hwin'⟩ := g.readAddress_below rs data
    (data.getD (offsets.getLast hne) 0 + 1)
    (show wrap 64 (q * g.chunkSize * g.dataShards + offsets.getLast hne) <
      q * g.chunkSize * g.dataShards by omega) (by omega) (fun _ => 0)
  rw [hrun] at hrun'
  cases hrun'
  rw [hwin] at hwin'
  have hbyte : (data.drop (offsets.getLast hne)).take 1 = [data.getD (offsets.getLast hne) 0] := by
    rw [drop_eq_getElem_cons hin, getD_eq_getElem?_getD, getElem?_eq_getElem hin]
    rfl
  rw [hbyte, cons.injEq] at hwin'
  exact byte_ne_add_one _ hwin'.1

/-- Round trip of a write and a read: every part of every returned fragment
reads back exactly when no returned pointer leaves 64 bits. -/
theorem reads_back_iff (rs : g.Coder) {offset : Nat} (halign : offset % g.chunkSize = 0)
    {data : List UInt8} (hdata : data.length < 2 ^ 64)
    (hspace : offset + g.numStripes data.length * g.chunkSize ≤ 2 ^ 64)
    {offsets : List Nat} (hoffsets : OffsetsOk offsets data.length) :
    g.ReadsBack rs offset data offsets ↔ ∀ o ∈ offsets, offset * g.dataShards + o < 2 ^ 64 := by
  obtain ⟨q, rfl⟩ : ∃ q, offset = q * g.chunkSize :=
    ⟨offset / g.chunkSize, (Nat.div_mul_cancel (Nat.dvd_of_mod_eq_zero halign)).symm⟩
  constructor
  · intro hreads o ho
    by_contra hge
    exact g.not_readsBack_of_wrap rs hdata hoffsets ho (by omega) hreads
  · intro hlt
    exact g.readsBack_of_lt rs hdata hspace hoffsets hlt

end EcGeometry

def twoShards : EcGeometry where
  groupId := 0
  dataShards := 2
  parityShards := 0
  chunkSize := 1
  dataShards_pos := Nat.two_pos
  chunkSize_pos := Nat.one_pos
  stripeSize_lt := by decide

theorem offsetsOk_sample : OffsetsOk [0, 2] [10, 20, 30].length := ⟨rfl, by decide, by decide⟩

theorem reads_back_sample : twoShards.ReadsBack (plainCoder 2 1) 4 [10, 20, 30] [0, 2] :=
  (twoShards.reads_back_iff (plainCoder 2 1) (by decide) (by decide) (by decide)
    offsetsOk_sample).mpr (by decide)

/-- An allocation in the upper half of the address space of two data shards
returns a pointer that wraps around to zero. -/
theorem wrapped_pointer_reads_wrong :
    ¬ ∀ (g : EcGeometry) (rs : g.Coder) (offset : Nat) (data : List UInt8)
      (offsets : List Nat), offset % g.chunkSize = 0 → data.length < 2 ^ 64 →
      offset + g.numStripes data.length * g.chunkSize ≤ 2 ^ 64 →
      OffsetsOk offsets data.length → g.ReadsBack rs offset data offsets := by
  intro hall
  have hreads := hall twoShards (plainCoder 2 1) (2 ^ 63 * twoShards.chunkSize) [10] [0]
    (by decide) (by decide) (by decide) ⟨rfl, by decide, by decide⟩
  exact twoShards.not_readsBack_of_wrap (plainCoder 2 1) (by decide)
    ⟨rfl, by decide, by decide⟩ mem_cons_self (by decide) hreads

end UhCore.Group
