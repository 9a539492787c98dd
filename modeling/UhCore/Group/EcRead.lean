import UhCore.Group.EcLayout

/-!
Reading an address piece by piece. An address is cut into pieces that stay
inside a chunk; each piece is a range of one storage and a range of the
buffer. `target` stands for the buffer that a read has to produce.
-/

namespace UhCore.Group

open Words Blocks Bytes Memory List

def bytesAt (h : Nat → UInt8) (addr : Address) : List UInt8 :=
  addr.flatMap (fun f => window h f.pointer f.size)

theorem length_bytesAt (h : Nat → UInt8) (addr : Address) :
    (bytesAt h addr).length = addr.dataSize := by
  induction addr with
  | nil => rfl
  | cons f rest ih => simp_all [Address.dataSize, bytesAt]

/-- A range that stays inside a chunk. -/
def InChunk (c : Nat) (f : Fragment) : Prop := f.pointer % c + f.size ≤ c

/-- A part of a range: it is inside the range, and not empty unless the range
is. -/
structure PartOf (pointer n : Nat) (f : Fragment) : Prop where
  low : pointer ≤ f.pointer
  high : f.pointer + f.size ≤ pointer + n
  nonempty : 0 < n → 0 < f.size

theorem splitRest_spec {c : Nat} (hc : 0 < c) (h : Nat → UInt8) (finish fuel current : Nat)
    (hfuel : finish ≤ current + fuel) (halign : current % c = 0) :
    bytesAt h (splitRest c finish fuel current) = window h current (finish - current) ∧
      ∀ f ∈ splitRest c finish fuel current,
        InChunk c f ∧ current ≤ f.pointer ∧ f.pointer + f.size ≤ finish ∧ 0 < f.size := by
  induction fuel generalizing current with
  | zero =>
    have hdone : finish - current = 0 := by omega
    simp [splitRest, bytesAt, hdone]
  | succ fuel ih =>
    by_cases hlt : current < finish
    · have hsize : min (current + c) finish - current = min c (finish - current) := by omega
      simp only [splitRest, hlt, if_true, hsize]
      by_cases hlast : finish - current ≤ c
      · have hmin : min c (finish - current) = finish - current := by omega
        have hend : current + (finish - current) = finish := by omega
        have hrest : splitRest c finish fuel finish = [] := by
          cases fuel <;> simp [splitRest]
        rw [hmin, hend, hrest]
        refine ⟨by simp [bytesAt], ?_⟩
        intro f hf
        rw [mem_singleton.mp hf]
        simp only [InChunk, halign]
        omega
      · have hmin : min c (finish - current) = c := by omega
        rw [hmin]
        obtain ⟨hbytes, hpieces⟩ := ih (current + c) (by omega)
          (by rw [Nat.add_mod_right]; exact halign)
        refine ⟨?_, ?_⟩
        · have hsplit : finish - current = c + (finish - (current + c)) := by omega
          rw [hsplit, window_append, ← hbytes]
          simp [bytesAt]
        · intro f hf
          rcases mem_cons.mp hf with rfl | hf
          · simp only [InChunk, halign]
            omega
          · obtain ⟨hchunk, hlow, hhigh, hpos⟩ := hpieces f hf
            exact ⟨hchunk, by omega, hhigh, hpos⟩
    · have hdone : finish - current = 0 := by omega
      simp [splitRest, hlt, bytesAt, hdone]

/-- The pieces of a range: they stay inside chunks and together are the
range. -/
theorem splitFragment_spec {c : Nat} (hc : 0 < c) (h : Nat → UInt8) (pointer n : Nat) :
    bytesAt h (splitFragment c pointer n) = window h pointer n ∧
      ∀ f ∈ splitFragment c pointer n, InChunk c f ∧ PartOf pointer n f := by
  have hmod := Nat.mod_lt pointer hc
  have hdecomp := Nat.mod_add_div pointer c
  have hsize : min ((pointer / c + 1) * c) (pointer + n) - pointer = blockStep c pointer n := by
    rw [add_mul, one_mul, mul_comm (pointer / c)]
    unfold blockStep
    omega
  have hle := blockStep_le c pointer n
  simp only [splitFragment, hsize]
  have hhead : InChunk c ⟨pointer, blockStep c pointer n⟩ ∧
      PartOf pointer n ⟨pointer, blockStep c pointer n⟩ :=
    ⟨mod_add_blockStep_le pointer n hc, le_refl _, Nat.add_le_add_left hle _,
      blockStep_pos pointer hc⟩
  have hsplit : window h pointer n = window h pointer (blockStep c pointer n) ++
      window h (pointer + blockStep c pointer n) (n - blockStep c pointer n) := by
    rw [← window_append, Nat.add_sub_cancel' hle]
  have hrest : bytesAt h (splitRest c (pointer + n) n (pointer + blockStep c pointer n)) =
        window h (pointer + blockStep c pointer n) (n - blockStep c pointer n) ∧
      ∀ f ∈ splitRest c (pointer + n) n (pointer + blockStep c pointer n),
        InChunk c f ∧ pointer + blockStep c pointer n ≤ f.pointer ∧
          f.pointer + f.size ≤ pointer + n ∧ 0 < f.size := by
    by_cases hdone : blockStep c pointer n = n
    · have hnil : splitRest c (pointer + n) n (pointer + n) = [] := by
        cases n <;> simp [splitRest]
      rw [hdone, hnil]
      simp [bytesAt]
    · have hspec := splitRest_spec hc h (pointer + n) n (pointer + blockStep c pointer n)
        (by omega) (blockStep_ends_block hc (by omega))
      rw [Nat.add_sub_add_left] at hspec
      exact hspec
  refine ⟨?_, ?_⟩
  · rw [hsplit, ← hrest.1]
    simp [bytesAt]
  · intro f hf
    rcases mem_cons.mp hf with rfl | hf
    · exact hhead
    · obtain ⟨hchunk, hlow, hhigh, hpos⟩ := hrest.2 f hf
      exact ⟨hchunk, by omega, hhigh, fun _ => hpos⟩

namespace EcGeometry

variable (g : EcGeometry) {addr : Address} {offset : Nat}

/-- The piece of a range inside a chunk. -/
def pieceOf (f : Fragment) (offset : Nat) : Piece :=
  ⟨f.pointer % g.stripeSize / g.chunkSize,
    wrap 64 (f.pointer / g.stripeSize * g.chunkSize + f.pointer % g.chunkSize),
    f.size, offset⟩

/-- The pieces of ranges that fill a buffer from `offset` on. -/
def piecesOf : Address → Nat → List Piece
  | [], _ => []
  | f :: rest, offset => g.pieceOf f offset :: piecesOf rest (offset + f.size)

theorem pieceOf_striped {t j r n : Nat} (offset : Nat) (hj : j < g.dataShards)
    (hr : r < g.chunkSize) :
    g.pieceOf ⟨stripedAddress g.dataShards g.chunkSize t j r, n⟩ offset =
      ⟨j, wrap 64 (t * g.chunkSize + r), n, offset⟩ := by
  simp only [pieceOf, stripeSize, stripedAddress_mod hj hr, stripedAddress_div hj hr,
    mul_add_div_of_lt j hr, stripedAddress_mod_chunk hr]

theorem getStoragePointer_striped {t j r : Nat} (hj : j < g.dataShards)
    (hr : r < g.chunkSize) :
    g.getStoragePointer (stripedAddress g.dataShards g.chunkSize t j r) =
      .ok (j, wrap 64 (t * g.chunkSize + r)) := by
  have hid : ¬ g.storages ≤ j := by
    unfold storages
    omega
  simp only [getStoragePointer, stripeSize, Ec.getStoragePointer_striped hj hr, hid, if_false]

/-- Ranges inside chunks that are not empty are mapped to their pieces without
an error. -/
theorem extractNodeAddressMap_ok (addr : Address) (offset : Nat)
    (haddr : ∀ f ∈ addr, InChunk g.chunkSize f ∧ 0 < f.size ∧ f.pointer + f.size < 2 ^ 128) :
    g.extractNodeAddressMap addr offset = .ok (g.piecesOf addr offset) := by
  induction addr generalizing offset with
  | nil => rfl
  | cons f rest ih =>
    have hrest := ih (offset + f.size) (fun x hx => haddr x (mem_cons_of_mem _ hx))
    obtain ⟨hroom, hpos, hlt⟩ := haddr f mem_cons_self
    obtain ⟨pointer, n⟩ := f
    obtain ⟨t, j, r, hj, hr, rfl⟩ := exists_stripedAddress g.dataShards_pos g.chunkSize_pos pointer
    simp only [InChunk, stripedAddress_mod_chunk hr] at hroom hpos hlt hrest
    have hlast : wsub 128 (stripedAddress g.dataShards g.chunkSize t j r + n) 1 =
        stripedAddress g.dataShards g.chunkSize t j (r + (n - 1)) := by
      rw [wsub_of_le (by omega) (by omega) (by omega)]
      unfold stripedAddress
      omega
    simp only [extractNodeAddressMap, piecesOf, g.getStoragePointer_striped hj hr, hlast,
      g.getStoragePointer_striped hj (show r + (n - 1) < g.chunkSize by omega), Bind.bind,
      Except.bind, ne_eq, not_true_eq_false, if_false, hrest, pure, Except.pure,
      g.pieceOf_striped offset hj hr]

/-- Whenever an address is mapped without an error, it is mapped to its
pieces. -/
theorem extractNodeAddressMap_eq {pieces : List Piece}
    (h : g.extractNodeAddressMap addr offset = .ok pieces) : pieces = g.piecesOf addr offset := by
  induction addr generalizing offset pieces with
  | nil =>
    cases h
    rfl
  | cons f rest ih =>
    obtain ⟨pointer, n⟩ := f
    obtain ⟨t, j, r, hj, hr, rfl⟩ := exists_stripedAddress g.dataShards_pos g.chunkSize_pos pointer
    simp only [extractNodeAddressMap, g.getStoragePointer_striped hj hr, Bind.bind,
      Except.bind] at h
    split at h
    · cases h
    · split at h
      · cases h
      · split at h
        · cases h
        · rename_i more hmore
          cases h
          rw [piecesOf, g.pieceOf_striped offset hj hr, ih hmore]

theorem mem_piecesOf {piece : Piece} (h : piece ∈ g.piecesOf addr offset) :
    ∃ f ∈ addr, ∃ off, piece = g.pieceOf f off := by
  induction addr generalizing offset with
  | nil => cases h
  | cons f rest ih =>
    rcases mem_cons.mp h with rfl | h
    · exact ⟨f, mem_cons_self, offset, rfl⟩
    · obtain ⟨x, hx, off, rfl⟩ := ih h
      exact ⟨x, mem_cons_of_mem _ hx, off, rfl⟩

theorem pieceOf_id_lt (f : Fragment) (offset : Nat) : (g.pieceOf f offset).id < g.dataShards := by
  apply Nat.div_lt_of_lt_mul
  rw [mul_comm]
  exact Nat.mod_lt _ g.stripeSize_pos

end EcGeometry

def EcGeometry.addressPieces (g : EcGeometry) (addr : Address) : List Piece :=
  g.piecesOf (g.getAlignedAddress addr) 0

/-- The piece fills position `x` of the buffer. -/
def Piece.Covers (piece : Piece) (x : Nat) : Prop :=
  piece.offset ≤ x ∧ x < piece.offset + piece.size

def Piece.Holds (mem : Nat → Nat → Option UInt8) (target : Nat → UInt8) (piece : Piece) : Prop :=
  load (mem piece.id) piece.pointer piece.size = some (window target piece.offset piece.size)

namespace EcGeometry

variable (g : EcGeometry)

variable {addr : Address} {offset x : Nat}

theorem piecesOf_offset {piece : Piece} (h : piece ∈ g.piecesOf addr offset) (hx : piece.Covers x) :
    offset ≤ x ∧ x < offset + addr.dataSize := by
  induction addr generalizing offset with
  | nil => cases h
  | cons f rest ih =>
    have hsum := Address.dataSize_cons f rest
    rcases mem_cons.mp h with rfl | h
    · obtain ⟨hlow, hhigh⟩ := hx
      simp only [pieceOf] at hlow hhigh
      omega
    · have := ih h
      omega

theorem piecesOf_covers (hlow : offset ≤ x) (hhigh : x < offset + addr.dataSize) :
    ∃ piece ∈ g.piecesOf addr offset, piece.Covers x := by
  induction addr generalizing offset with
  | nil => simp [Address.dataSize] at hhigh; omega
  | cons f rest ih =>
    have hsum := Address.dataSize_cons f rest
    by_cases hin : x < offset + f.size
    · exact ⟨g.pieceOf f offset, mem_cons_self, hlow, hin⟩
    · obtain ⟨piece, hpiece, hcovers⟩ := ih (show offset + f.size ≤ x by omega) (by omega)
      exact ⟨piece, mem_cons_of_mem _ hpiece, hcovers⟩

theorem piecesOf_separate {p q : Piece} (hp : p ∈ g.piecesOf addr offset)
    (hq : q ∈ g.piecesOf addr offset) (hpx : p.Covers x) (hqx : q.Covers x) : p = q := by
  induction addr generalizing offset with
  | nil => cases hp
  | cons f rest ih =>
    have hhead : ∀ y : Piece, y ∈ g.piecesOf rest (offset + f.size) → y.Covers x →
        ¬ (g.pieceOf f offset).Covers x := by
      rintro y hy hyx ⟨hlow, hhigh⟩
      have := g.piecesOf_offset hy hyx
      simp only [pieceOf] at hlow hhigh
      omega
    rcases mem_cons.mp hp with rfl | hp <;> rcases mem_cons.mp hq with rfl | hq
    · rfl
    · exact absurd hpx (hhead q hq hqx)
    · exact absurd hqx (hhead p hp hpx)
    · exact ih hp hq

/-- Every piece holds its part of the bytes of the address, when the ranges
hold those bytes. -/
theorem piecesOf_hold {mem : Nat → Nat → Option UInt8} {target h : Nat → UInt8}
    (addr : Address) (offset : Nat)
    (htarget : window target offset addr.dataSize = bytesAt h addr)
    (hload : ∀ f ∈ addr, ∀ off, load (mem (g.pieceOf f off).id) (g.pieceOf f off).pointer
      f.size = some (window h f.pointer f.size)) :
    ∀ piece ∈ g.piecesOf addr offset, piece.Holds mem target := by
  induction addr generalizing offset with
  | nil => simp [piecesOf]
  | cons f rest ih =>
    have hsum := Address.dataSize_cons f rest
    have hbytes : bytesAt h (f :: rest) = window h f.pointer f.size ++ bytesAt h rest := by
      simp [bytesAt]
    rw [hsum, window_append, hbytes] at htarget
    obtain ⟨hhead, htail⟩ := append_inj htarget (by simp)
    intro piece hpiece
    rcases mem_cons.mp hpiece with rfl | hpiece
    · have hone := hload f mem_cons_self offset
      rw [← hhead] at hone
      exact hone
    · exact ih _ htail (fun x hx => hload x (mem_cons_of_mem _ hx)) piece hpiece

end EcGeometry

end UhCore.Group
