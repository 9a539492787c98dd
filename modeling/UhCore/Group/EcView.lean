import UhCore.Group.Pointer
import UhCore.Lib.Memory

/-!
The data view of an erasure coded group. A write cuts the data into stripes of
`dataShards` chunks, hands chunk `j` of every stripe to storage `j` and the
parities to the remaining storages; a read maps every piece of the address to
a storage by its global pointer, and reconstructs the stripes of the pieces
whose storage did not answer.
-/

namespace UhCore.Group

open Words Blocks Bytes Memory List List

/-- The geometry of an erasure coded group. -/
structure EcGeometry where
  groupId : Nat
  dataShards : Nat
  parityShards : Nat
  chunkSize : Nat
  dataShards_pos : 0 < dataShards
  chunkSize_pos : 0 < chunkSize
  stripeSize_lt : dataShards * chunkSize < 2 ^ 64

/-- The Reed-Solomon coder for `k` data and `m` parity shards of `c` bytes: it
recovers all shards of a stripe from any `k` valid ones. -/
structure ReedSolomon (k m c : Nat) where
  encode : List (List UInt8) → List (List UInt8)
  recover : List (List UInt8) → List Bool → List (List UInt8)
  length_encode : ∀ data, (encode data).length = m
  length_parity : ∀ data, ∀ parity ∈ encode data, parity.length = c
  recover_eq : ∀ (data shards : List (List UInt8)) (stats : List Bool),
    data.length = k → (∀ d ∈ data, d.length = c) →
    shards.length = k + m → (∀ s ∈ shards, s.length = c) → stats.length = k + m →
    k ≤ stats.count true →
    (∀ i : Nat, stats[i]? = some true → shards[i]? = (data ++ encode data)[i]?) →
    recover shards stats = data ++ encode data

/-- The coder of a group without parities. -/
def plainCoder (k c : Nat) : ReedSolomon k 0 c where
  encode := fun _ => []
  recover := fun shards _ => shards
  length_encode := fun _ => rfl
  length_parity := by simp
  recover_eq := by
    intro data shards stats hdata _ hshards _ hstats hcount hvalid
    have hall : ∀ i : Nat, i < k → stats[i]? = some true := by
      intro i hi
      have hcountLe : stats.count true ≤ stats.length := count_le_length
      have hfull := count_eq_length.mp (show stats.count true = stats.length by omega)
      have hlt : i < stats.length := by omega
      rw [getElem?_eq_getElem hlt, ← hfull _ (getElem_mem hlt)]
    rw [append_nil]
    apply ext_getElem?
    intro i
    by_cases hi : i < k
    · have := hvalid i (hall i hi)
      rwa [append_nil] at this
    · rw [getElem?_eq_none (by omega), getElem?_eq_none (by omega)]

/-- The coder for one data shard: the parities are copies of it. -/
def mirrorCoder (m c : Nat) : ReedSolomon 1 m c where
  encode := fun data => replicate m ((data.headD [] ++ replicate c 0).take c)
  recover := fun shards stats => replicate (1 + m) (shards.getD (stats.idxOf true) [])
  length_encode := by simp
  length_parity := by
    intro data parity hparity
    rw [eq_of_mem_replicate hparity]
    simp
  recover_eq := by
    intro data shards stats hdata hsize _ _ hstats hcount hvalid
    obtain ⟨d, rfl⟩ := length_eq_one_iff.mp hdata
    have hd : d.length = c := hsize d mem_cons_self
    have hcopies : [d] ++ replicate m (([d].headD [] ++ replicate c 0).take c) =
        replicate (1 + m) d := by
      rw [headD_cons, take_left' hd, add_comm, replicate_succ]
      rfl
    have hmem : true ∈ stats := count_pos_iff.mp hcount
    have hlt := idxOf_lt_length_of_mem hmem
    have hshard := hvalid _ (getElem?_idxOf hmem)
    rw [hcopies, getElem?_replicate_of_lt (by omega)] at hshard
    rw [hcopies, getD_eq_getElem?_getD, hshard, Option.getD_some]

namespace EcGeometry

variable (g : EcGeometry)

def stripeSize : Nat := g.dataShards * g.chunkSize

def storages : Nat := g.dataShards + g.parityShards

abbrev Coder : Type := ReedSolomon g.dataShards g.parityShards g.chunkSize

def numStripes (dataSize : Nat) : Nat :=
  dataSize / g.stripeSize + if dataSize % g.stripeSize ≠ 0 then 1 else 0

/-- The data of one stripe; a short last stripe is filled up with zeroes. -/
def stripeData (data : List UInt8) (i : Nat) : List UInt8 :=
  let subData := data.drop (i * g.stripeSize)
  if i = g.numStripes data.length - 1 ∧ subData.length < g.stripeSize then
    subData ++ replicate (g.stripeSize - subData.length) 0
  else subData.take g.stripeSize

end EcGeometry

def splitBuffer (chunkSize : Nat) (buffer : List UInt8) : List (List UInt8) :=
  (range (buffer.length / chunkSize)).map
    (fun j => (buffer.drop (j * chunkSize)).take chunkSize)

namespace EcGeometry

variable (g : EcGeometry)

/-- The data chunks of one stripe. -/
def dataView (data : List UInt8) (i : Nat) : List (List UInt8) :=
  splitBuffer g.chunkSize (g.stripeData data i)

def shards (rs : g.Coder) (data : List UInt8) (i : Nat) : List (List UInt8) :=
  g.dataView data i ++ rs.encode (g.dataView data i)

/-- The buffers that a write hands to one storage: a chunk for each stripe, or
the parities of all stripes in one buffer. -/
def storageBuffers (rs : g.Coder) (data : List UInt8) (id : Nat) : List (List UInt8) :=
  let stripes := range (g.numStripes data.length)
  if id < g.dataShards then stripes.map (fun i => (g.dataView data i).getD id [])
  else [stripes.flatMap (fun i => (rs.encode (g.dataView data i)).getD (id - g.dataShards) [])]

/-- The address a write returns. The base offset and the pointers are computed
in 64 bits. -/
def computeAddress (offset : Nat) (dataSize : Nat) (offsets : List Nat) : Address :=
  let baseOffset := wrap 64 (offset * g.dataShards)
  UhCore.computeAddress (fun off => wrap 64 (baseOffset + off)) dataSize offsets

end EcGeometry

/-- The pieces of a range behind the first chunk border. -/
def splitRest (chunkSize finish : Nat) : Nat → Nat → Address
  | 0, _ => []
  | fuel + 1, current =>
    if current < finish then
      let size := min (current + chunkSize) finish - current
      ⟨current, size⟩ :: splitRest chunkSize finish fuel (current + size)
    else []

/-- Cut a range at chunk borders. -/
def splitFragment (chunkSize pointer readSize : Nat) : Address :=
  let finish := pointer + readSize
  let size := min ((pointer / chunkSize + 1) * chunkSize) finish - pointer
  ⟨pointer, size⟩ :: splitRest chunkSize finish readSize (pointer + size)

/-- A piece of an address: its range on a storage and its place in the
buffer. -/
structure Piece where
  id : Nat
  pointer : Nat
  size : Nat
  offset : Nat
  deriving DecidableEq

def upperHex (n : Nat) : String := String.ofList ((Nat.toDigits 16 n).map Char.toUpper)

namespace EcGeometry

variable (g : EcGeometry)

def getStoragePointer (pointer : Nat) : Except Exn (Nat × Nat) :=
  let (id, storagePointer) := Ec.getStoragePointer pointer g.chunkSize g.stripeSize
  if g.storages ≤ id then .error (.runtimeError ("Invalid storage id: " ++ toString id))
  else .ok (id, storagePointer)

def getGlobalPointer (storagePointer id : Nat) : Nat :=
  Ec.getGlobalPointer storagePointer g.groupId id g.chunkSize g.stripeSize

/-- The pieces of an address; the entry of a storage in the map that the
source builds is the list of its pieces. -/
def extractNodeAddressMap : Address → Nat → Except Exn (List Piece)
  | [], _ => .ok []
  | frag :: rest, offset => do
    let (id, storagePtr) ← g.getStoragePointer frag.pointer
    let (lastId, _) ← g.getStoragePointer (wsub 128 (frag.pointer + frag.size) 1)
    if id ≠ lastId then
      .error (.outOfRange ("fragment covers multiple storages; " ++
        "storage_id_of_first_byte: " ++ toString id ++
        ", storage_id_of_last_byte: " ++ toString lastId ++
        ", pointer: " ++ upperHex frag.pointer ++ ", size: " ++ toString frag.size))
    else
      let pieces ← extractNodeAddressMap rest (offset + frag.size)
      pure (⟨id, storagePtr, frag.size, offset⟩ :: pieces)

def getAlignedAddress (addr : Address) : Address :=
  addr.flatMap (fun frag => splitFragment g.chunkSize frag.pointer frag.size)

end EcGeometry

inductive StorageState where
  | down
  | new
  | assigned
  deriving DecidableEq

/-- What a read meets. The services, states and answers are those of the first
attempt and those found when stripes are reconstructed; a read that fails may
leave `garbage` in its part of the buffer. -/
structure EcEnv where
  mem : Nat → Nat → Option UInt8
  firstService : Nat → Bool
  firstState : Nat → StorageState
  firstAnswers : Nat → Bool
  service : Nat → Bool
  state : Nat → StorageState
  answers : Nat → Nat → Bool
  garbage : Nat → UInt8

/-- Copy the pieces from one storage to the buffer; fails when a byte was
never written. -/
def readPieces (mem : Nat → Option UInt8) :
    List Piece → (Nat → UInt8) → Option (Nat → UInt8)
  | [], buffer => some buffer
  | piece :: rest, buffer =>
    match load mem piece.pointer piece.size with
    | none => none
    | some bytes => readPieces mem rest (splice buffer piece.offset bytes)

/-- The buffer after a failed read of the pieces. -/
def spoil (garbage : Nat → UInt8) : List Piece → (Nat → UInt8) → Nat → UInt8
  | [], buffer => buffer
  | piece :: rest, buffer =>
    spoil garbage rest (splice buffer piece.offset (window garbage piece.offset piece.size))

/-- The first attempt for one storage. -/
def readFromStorage (env : EcEnv) (pieces : List Piece) (buffer : Nat → UInt8) (id : Nat) :
    Bool × (Nat → UInt8) :=
  let own := pieces.filter (fun piece => piece.id = id)
  if env.firstService id ∧ env.firstState id = .assigned ∧ env.firstAnswers id then
    match readPieces (env.mem id) own buffer with
    | some buffer' => (true, buffer')
    | none => (false, spoil env.garbage own buffer)
  else (false, spoil env.garbage own buffer)

/-- The first attempt for all storages; returns those that failed. -/
def readFromStorages (env : EcEnv) (pieces : List Piece) :
    List Nat → (Nat → UInt8) → List Nat × (Nat → UInt8)
  | [], buffer => ([], buffer)
  | id :: rest, buffer =>
    let (success, buffer') := readFromStorage env pieces buffer id
    let (failed, buffer'') := readFromStorages env pieces rest buffer'
    (if success then failed else id :: failed, buffer'')

/-- A piece to reconstruct: the stripe it is looked for in and its global
pointer. -/
structure LostPiece where
  stripeId : Nat
  pointer : Nat
  size : Nat
  offset : Nat

namespace EcGeometry

variable (g : EcGeometry)

def getStripeIds (failed : List Nat) (pieces : List Piece) : List LostPiece :=
  (pieces.filter (fun piece => piece.id ∈ failed)).map (fun piece =>
    let globalPointer := g.getGlobalPointer piece.pointer piece.id
    ⟨wrap 64 (globalPointer / g.stripeSize), globalPointer, piece.size, piece.offset⟩)

/-- The storages that may serve shards for the reconstruction. -/
def usableStorages (env : EcEnv) (failed : List Nat) : List Bool :=
  (range g.storages).map (fun id =>
    decide (env.service id ∧ env.state id = .assigned ∧ id ∉ failed))

/-- The shards read for a stripe, `none` where the read failed. -/
def readShards (env : EcEnv) (usable : List Bool) (stripeId : Nat) : List (Option (List UInt8)) :=
  (range g.storages).map (fun id =>
    if usable.getD id false ∧ env.answers id stripeId then
      load (env.mem id) (wrap 64 (g.chunkSize * stripeId)) g.chunkSize
    else none)

def recoverStripe (rs : g.Coder) (env : EcEnv) (usable : List Bool) (stripeId : Nat) :
    Except Exn (List (List UInt8)) :=
  let reads := g.readShards env usable stripeId
  let succeeded := reads.map Option.isSome
  if succeeded.count true < g.dataShards then
    .error (.runtimeError "Failed to read address: there's not enough valid shards")
  else .ok (rs.recover (reads.map (·.getD (replicate g.chunkSize 0))) succeeded)

def copyRecovered (shards : List (List UInt8)) :
    List LostPiece → (Nat → UInt8) → Except Exn (Nat → UInt8)
  | [], buffer => .ok buffer
  | lost :: rest, buffer => do
    let (id, pointer) ← g.getStoragePointer lost.pointer
    let chunkOffset := pointer % g.chunkSize
    let shard := shards.getD id []
    if shard.length < chunkOffset + lost.size then
      .error (.undefinedBehaviour "shards[id].subspan(chunk_offset, frag.size)")
    else
      copyRecovered shards rest
        (splice buffer lost.offset ((shard.drop chunkOffset).take lost.size))

def reconstruct (rs : g.Coder) (env : EcEnv) (usable : List Bool) (lost : List LostPiece) :
    List Nat → (Nat → UInt8) → Except Exn (Nat → UInt8)
  | [], buffer => .ok buffer
  | stripeId :: rest, buffer => do
    let shards ← g.recoverStripe rs env usable stripeId
    let buffer' ← g.copyRecovered shards
      (lost.filter (fun piece => piece.stripeId = stripeId)) buffer
    reconstruct rs env usable lost rest buffer'

def reconstructFailed (rs : g.Coder) (env : EcEnv) (pieces : List Piece) (failed : List Nat)
    (buffer : Nat → UInt8) : Except Exn (Nat → UInt8) :=
  let usable := g.usableStorages env failed
  if usable.count true < g.dataShards then
    .error (.runtimeError "Failed to read address: there's not enough valid storages")
  else
    let lost := g.getStripeIds failed pieces
    g.reconstruct rs env usable lost (lost.map LostPiece.stripeId).dedup buffer

def readAddress (rs : g.Coder) (env : EcEnv) (addr : Address) (buffer : Nat → UInt8) :
    Except Exn (Nat × (Nat → UInt8)) := do
  let pieces ← g.extractNodeAddressMap (g.getAlignedAddress addr) 0
  match pieces.find? (fun piece => decide (g.dataShards ≤ piece.id)) with
  | some piece =>
    .error (.runtimeError ("Invalid storage id in address: " ++ toString piece.id))
  | none =>
    let ids := (pieces.map Piece.id).dedup
    let (failed, buffer') := readFromStorages env pieces ids buffer
    if failed.isEmpty then pure (addr.dataSize, buffer')
    else
      let buffer'' ← g.reconstructFailed rs env pieces failed buffer'
      pure (addr.dataSize, buffer'')

end EcGeometry

end UhCore.Group
