import UhCore.Group.EcLayout
import UhCore.Group.LinkExact
import UhCore.Storage.UsedSpace

/-!
A healthy erasure coded group over the data stores of its storages. The pages
of a store are chunks, so that stripe `i` of the group is page `i` of every
store. Writes, links and unlinks are sent to all storages.
-/

namespace UhCore.Group

open Words Blocks Bytes Storage List DataStore List

/-- A group with the configuration of its stores. The parities of zeroes are
zeroes. -/
structure StoredGroup where
  geometry : EcGeometry
  coder : geometry.Coder
  conf : DataStoreConfig
  pageSize_eq : conf.pageSize = geometry.chunkSize
  encode_zero :
    coder.encode (replicate geometry.dataShards (replicate geometry.chunkSize 0)) =
      replicate geometry.parityShards (replicate geometry.chunkSize 0)

abbrev Stores : Type := Nat → DataStore

/-- Fragments start in the order of their offsets inside of the data. -/
def Ascending (offsets : List Nat) (dataSize : Nat) : Prop :=
  offsets.Pairwise (· < ·) ∧ ∀ o ∈ offsets, o < dataSize

instance (offsets : List Nat) (dataSize : Nat) : Decidable (Ascending offsets dataSize) :=
  inferInstanceAs (Decidable (_ ∧ _))

namespace StoredGroup

inductive Action where
  | write (leader : Nat) (data : List UInt8) (offsets : List Nat)
  | link (addr : Address)
  | unlink (addr : Address)

variable (group : StoredGroup)

def start : Stores := fun _ => .fresh group.conf

/-- The stores after the leader made an allocation for the data and every
storage wrote its shards there. -/
def written (w : Stores) (leader : Nat) (data : List UInt8) (offsets : List Nat)
    (a : Allocation) (store : DataStore) : Stores :=
  let g := group.geometry
  let refcounts := g.extractRefcounts (g.computeAddress a.offset data.length offsets)
  fun id => ((Function.update w leader store id).write a
    (g.storageBuffers group.coder data id) refcounts).2

def next (w : Stores) : Action → Option Stores
  | .write leader data offsets =>
    let g := group.geometry
    let size := g.numStripes data.length * g.chunkSize
    if leader < g.storages ∧ size < 2 ^ 64 ∧ Ascending offsets data.length then
      match (w leader).allocate size g.chunkSize with
      | (.error _, _) => some w
      | (.ok a, store) => some (group.written w leader data offsets a store)
    else none
  | .link addr => some fun id => ((w id).link (group.geometry.extractRefcounts addr)).2
  | .unlink addr => some fun id => ((w id).unlink (group.geometry.extractRefcounts addr)).2

def chunkAt (s : DataStore) (i : Nat) : List UInt8 :=
  window s.memory (i * group.geometry.chunkSize) group.geometry.chunkSize

/-- The codeword of the data chunks of a stripe. -/
def codeword (w : Stores) (i : Nat) : List (List UInt8) :=
  let data := (range group.geometry.dataShards).map (fun j => group.chunkAt (w j) i)
  data ++ group.coder.encode data

structure Chunks (data : List (List UInt8)) : Prop where
  count : data.length = group.geometry.dataShards
  size : ∀ chunk ∈ data, chunk.length = group.geometry.chunkSize

/-- The storages have the shards of the data. -/
def Holds (w : Stores) (i : Nat) (data : List (List UInt8)) : Prop :=
  ∀ id, id < group.geometry.storages →
    group.chunkAt (w id) i = (data ++ group.coder.encode data).getD id []

/-- A store that has `n` stripes and these counts. -/
structure Keeps (n : Nat) (table : RefTable) (s : DataStore) : Prop where
  conf : s.conf = group.conf
  filesOk : s.FilesOk
  writeOffset : s.writeOffset = n * group.geometry.chunkSize
  extent : n * group.geometry.chunkSize ≤ s.extent
  refcounter : s.refcounter = table

/-- What holds in a healthy group of `n` stripes. -/
structure Inv (n : Nat) (table : RefTable) (w : Stores) : Prop where
  stores : ∀ id, id < group.geometry.storages → group.Keeps n table (w id)
  capacity : n * group.geometry.chunkSize ≤ group.conf.maxDataStoreSize
  tracked : ∀ t, (table t).isSome → t < n
  counts : ∀ t count, table t = some count → count < 2 ^ 64
  stripes : ∀ i, i < n → ∃ data, group.Chunks data ∧ group.Holds w i data

end StoredGroup

variable {offsets : List Nat}

theorem offset_of_mem_computeAddress {place : Nat → Nat} {dataSize : Nat}
    (h : Ascending offsets dataSize) {frag : Fragment}
    (hfrag : frag ∈ UhCore.computeAddress place dataSize offsets) :
    ∃ o, frag.pointer = place o ∧ 0 < frag.size ∧ o + frag.size ≤ dataSize := by
  induction offsets with
  | nil => cases hfrag
  | cons o rest ih =>
    obtain ⟨hsort, hinside⟩ := h
    have ho := hinside o mem_cons_self
    have hrest : Ascending rest dataSize :=
      ⟨(pairwise_cons.mp hsort).2, fun x hx => hinside x (mem_cons_of_mem _ hx)⟩
    cases rest with
    | nil =>
      obtain rfl := mem_singleton.mp hfrag
      exact ⟨o, rfl, Nat.sub_pos_of_lt ho, by simp only; omega⟩
    | cons o' rest =>
      rcases mem_cons.mp hfrag with rfl | hfrag
      · have hlt := (pairwise_cons.mp hsort).1 o' mem_cons_self
        have ho' := hinside o' (mem_cons_of_mem _ mem_cons_self)
        exact ⟨o, rfl, Nat.sub_pos_of_lt hlt, by simp only; omega⟩
      · exact ih hrest hfrag

theorem EcGeometry.stripe_lt_of_write (g : EcGeometry) {q : Nat} {data : List UInt8}
    (h : Ascending offsets data.length) {rc : Refcount}
    (hrc : rc ∈ g.extractRefcounts (g.computeAddress (q * g.chunkSize) data.length offsets)) :
    rc.stripeId < q + g.numStripes data.length := by
  have hmem := mem_countStripes.mp (mem_map_of_mem hrc)
  obtain ⟨frag, hfrag, hstripe⟩ := mem_flatMap.mp hmem
  obtain ⟨o, hptr, hpos, hend⟩ := offset_of_mem_computeAddress h hfrag
  have hgroup : getGroupPointer frag.pointer ≤ q * g.chunkSize * g.dataShards + o := by
    rw [hptr]
    refine (Nat.mod_le _ _).trans ((wrap_le 64 _).trans ?_)
    exact Nat.add_le_add_right (wrap_le 64 _) _
  have hlast := (mem_stripeLoop.mp hstripe).2
  have hsub := wsub_le (w := 128) (show 1 ≤ getGroupPointer frag.pointer + frag.size by omega)
    (by decide)
  have hstrs := g.le_numStripes_mul data.length
  have hbase : q * g.chunkSize * g.dataShards = q * g.stripeSize := by
    unfold EcGeometry.stripeSize
    ring
  refine lt_of_le_of_lt (hlast.trans (wrap_le 64 _)) ?_
  rw [Nat.div_lt_iff_lt_mul g.stripeSize_pos, add_mul]
  omega

namespace StoredGroup

variable {group : StoredGroup}

theorem inv_start : group.Inv 0 (fun _ => none) group.start := by
  refine ⟨?_, ?_, ?_, ?_, ?_⟩
  · intro id _
    refine ⟨rfl, fresh_filesOk _, ?_, ?_, rfl⟩
    · rw [zero_mul]
      rfl
    · rw [zero_mul]
      exact Nat.zero_le _
  · rw [zero_mul]
    exact Nat.zero_le _
  · intro t ht
    cases ht
  · intro t count ht
    cases ht
  · intro i hi
    exact absurd hi (Nat.not_lt_zero i)

variable {i : Nat} {data : List (List UInt8)} {w w' : Stores} {n : Nat} {table : RefTable}
  {s : DataStore} {id : Nat} {offsets : List Nat} {addr : Address}

theorem chunks_dataView {data : List UInt8} (hi : i < group.geometry.numStripes data.length) :
    group.Chunks (group.geometry.dataView data i) :=
  ⟨group.geometry.length_dataView hi, group.geometry.length_of_mem_dataView hi⟩

theorem Chunks.length_codeword (h : group.Chunks data) :
    (data ++ group.coder.encode data).length = group.geometry.storages := by
  rw [length_append, h.count, group.coder.length_encode]
  rfl

theorem Chunks.length_shard (h : group.Chunks data) (hid : id < group.geometry.storages) :
    ((data ++ group.coder.encode data).getD id []).length = group.geometry.chunkSize := by
  have hlt : id < (data ++ group.coder.encode data).length := by rwa [h.length_codeword]
  rw [getD_eq_getElem?_getD, getElem?_eq_getElem hlt, Option.getD_some]
  rcases mem_append.mp (getElem_mem hlt) with hdata | hparity
  · exact h.size _ hdata
  · exact group.coder.length_parity _ _ hparity

theorem Holds.codeword_eq {w : Stores} (h : group.Holds w i data) (hdata : group.Chunks data) :
    group.codeword w i = data ++ group.coder.encode data := by
  have hsame : (range group.geometry.dataShards).map (fun j => group.chunkAt (w j) i) =
      data := by
    apply ext_getElem?
    intro j
    by_cases hj : j < group.geometry.dataShards
    · have hlt : j < data.length := by rwa [hdata.count]
      have hid : j < group.geometry.storages := by
        unfold EcGeometry.storages
        omega
      rw [getElem?_map, getElem?_range hj, Option.map_some, h j hid,
        getD_eq_getElem?_getD, getElem?_append_left hlt, getElem?_eq_getElem hlt]
      rfl
    · rw [getElem?_eq_none (by simpa using hj), getElem?_eq_none (by rw [hdata.count]; omega)]
  simp only [codeword, hsame]

theorem Holds.congr (h : group.Holds w i data)
    (hsame : ∀ id, id < group.geometry.storages → group.chunkAt (w' id) i = group.chunkAt (w id) i)
    : group.Holds w' i data := by
  intro id hid
  rw [hsame id hid]
  exact h id hid

theorem chunkAt_congr {s s' : DataStore}
    (h : ∀ p, i * group.geometry.chunkSize ≤ p → p < (i + 1) * group.geometry.chunkSize → s'.memory p = s.memory p)
    : group.chunkAt s' i = group.chunkAt s i := by
  apply window_congr
  intro p hlow hhigh
  rw [add_mul, one_mul] at h
  exact h p hlow hhigh

theorem allocateAt_aligned {n m : Nat} {a : Allocation}
    (hn : n * group.geometry.chunkSize ≤ group.conf.maxDataStoreSize)
    (h : allocateAt group.conf.maxDataStoreSize (n * group.geometry.chunkSize)
      (m * group.geometry.chunkSize) group.geometry.chunkSize = .ok a) :
    a = ⟨n * group.geometry.chunkSize, m * group.geometry.chunkSize⟩ ∧
      (n + m) * group.geometry.chunkSize ≤ group.conf.maxDataStoreSize := by
  have hc := group.geometry.chunkSize_pos
  have hmax := group.conf.maxDataStoreSize_lt
  have halign : alignUp (n * group.geometry.chunkSize) group.geometry.chunkSize =
      n * group.geometry.chunkSize :=
    le_antisymm (alignUp_le_of_mod_eq_zero hc (le_refl _) (Nat.mul_mod_left _ _))
      (le_alignUp _ _)
  obtain ⟨rfl, hroom⟩ := allocateAt_within h (halign.trans_le hn) hmax
  rw [halign] at hroom ⊢
  exact ⟨rfl, add_mul n m _ ▸ hroom⟩

theorem Keeps.wrote {data : List UInt8} (hs : group.Keeps n table s)
    (hid : id < group.geometry.storages) (offset : Nat)
    (hoff : offset ≤ (n + group.geometry.numStripes data.length) * group.geometry.chunkSize)
    (hroom : (n + group.geometry.numStripes data.length) * group.geometry.chunkSize < 2 ^ 64)
    (refcounts : List Refcount) : ∃ s', { s with writeOffset := offset }.write
        ⟨n * group.geometry.chunkSize,
          group.geometry.numStripes data.length * group.geometry.chunkSize⟩
        (group.geometry.storageBuffers group.coder data id) refcounts = (.ok (), s') ∧
      group.Keeps (n + group.geometry.numStripes data.length)
        (increment refcounts false table).2 s' ∧
      s'.memory = splice s.memory (n * group.geometry.chunkSize)
        ((range (group.geometry.numStripes data.length)).flatMap
          (fun i => (group.geometry.shards group.coder data i).getD id [])) := by
  have hflat := group.geometry.flatten_storageBuffers group.coder data id
  have hsum : ((group.geometry.storageBuffers group.coder data id).map length).sum =
      group.geometry.numStripes data.length * group.geometry.chunkSize := by
    rw [← length_flatten, hflat]
    exact length_flatMap_blocks (fun i hi => group.geometry.length_shard group.coder hi hid)
  rw [add_mul] at hroom hoff
  obtain ⟨s', hrun, heff⟩ := write_ok
    (show { s with writeOffset := offset }.FilesOk from hs.filesOk) refcounts
    (show _ = (Allocation.mk (n * group.geometry.chunkSize) _).size from hsum) hroom
  refine ⟨s', hrun, ⟨heff.conf.trans hs.conf, heff.filesOk, ?_, ?_, ?_⟩, ?_⟩
  · rw [heff.writeOffset, add_mul]
    exact max_eq_right hoff
  · rw [add_mul]
    exact heff.reaches
  · rw [← hs.refcounter]
    exact heff.refcounter
  · rw [← hflat]
    exact heff.memory

theorem Inv.written_store {w : Stores} (h : group.Inv n table w) (leader : Nat) {data : List UInt8}
    (offsets : List Nat)
    (hroom : (n + group.geometry.numStripes data.length) * group.geometry.chunkSize < 2 ^ 64)
    (id : Nat) (hid : id < group.geometry.storages) :
    let a : Allocation := ⟨n * group.geometry.chunkSize,
      group.geometry.numStripes data.length * group.geometry.chunkSize⟩
    let s' := group.written w leader data offsets a { w leader with writeOffset := a.finish } id
    group.Keeps (n + group.geometry.numStripes data.length)
        (increment (group.geometry.extractRefcounts
          (group.geometry.computeAddress a.offset data.length offsets)) false table).2 s' ∧
      s'.memory = splice (w id).memory a.offset
        ((range (group.geometry.numStripes data.length)).flatMap
          (fun i => (group.geometry.shards group.coder data i).getD id [])) := by
  intro a s'
  have hkeeps := h.stores id hid
  have hfin : a.finish =
      (n + group.geometry.numStripes data.length) * group.geometry.chunkSize := by
    rw [add_mul]
    rfl
  have hbef : (w id).writeOffset ≤ a.finish := by
    rw [hkeeps.writeOffset]
    exact Nat.le_add_right _ _
  have hstore : Function.update w leader { w leader with writeOffset := a.finish } id =
      { w id with writeOffset := if id = leader then a.finish else (w id).writeOffset } := by
    by_cases hlead : id = leader
    · subst hlead
      rw [Function.update_self, if_pos rfl]
    · rw [Function.update_of_ne hlead, if_neg hlead]
  have hle : (if id = leader then a.finish else (w id).writeOffset) ≤
      (n + group.geometry.numStripes data.length) * group.geometry.chunkSize := by
    rw [← hfin]
    split
    · exact le_refl _
    · exact hbef
  obtain ⟨s'', hrun, hs'', hmemo⟩ := hkeeps.wrote hid _ hle hroom
    (group.geometry.extractRefcounts
      (group.geometry.computeAddress a.offset data.length offsets))
  have hsame : s' = s'' := by
    simp only [s', written, hstore]
    exact congrArg Prod.snd hrun
  rw [hsame]
  exact ⟨hs'', hmemo⟩

theorem Inv.written {w : Stores} (h : group.Inv n table w) (leader : Nat) {data : List UInt8}
    (hoffs : Ascending offsets data.length)
    (hroom :
    (n + group.geometry.numStripes data.length) * group.geometry.chunkSize ≤ group.conf.maxDataStoreSize) :
    let a : Allocation := ⟨n * group.geometry.chunkSize,
      group.geometry.numStripes data.length * group.geometry.chunkSize⟩
    group.Inv (n + group.geometry.numStripes data.length)
      (increment (group.geometry.extractRefcounts
        (group.geometry.computeAddress a.offset data.length offsets)) false table).2
      (group.written w leader data offsets a { w leader with writeOffset := a.finish }) := by
  intro a
  have hmax := group.conf.maxDataStoreSize_lt
  have hstore := h.written_store leader offsets (lt_of_le_of_lt hroom hmax)
  refine ⟨fun id hid => (hstore id hid).1, hroom, ?_, ?_, ?_⟩
  · intro t ht
    rw [increment_isSome] at ht
    rcases Bool.or_eq_true_iff.mp ht with hold | hnew
    · exact lt_of_lt_of_le (h.tracked t hold) (Nat.le_add_right _ _)
    · obtain ⟨rc, hrc, rfl⟩ := mem_map.mp (by simpa using hnew)
      exact group.geometry.stripe_lt_of_write hoffs hrc
  · intro t count ht
    exact increment_lt h.counts ht
  · intro i hi
    by_cases hold : i < n
    · obtain ⟨chunks, hchunks, hholds⟩ := h.stripes i hold
      refine ⟨chunks, hchunks, hholds.congr ?_⟩
      intro id hid
      apply chunkAt_congr
      intro p _ hp
      have hbelow : (i + 1) * group.geometry.chunkSize ≤ n * group.geometry.chunkSize :=
        Nat.mul_le_mul_right _ hold
      rw [(hstore id hid).2]
      exact splice_of_lt (lt_of_lt_of_le hp hbelow)
    · have hnew : i - n < group.geometry.numStripes data.length := by omega
      refine ⟨group.geometry.dataView data (i - n), chunks_dataView hnew, ?_⟩
      intro id hid
      have hptr : i * group.geometry.chunkSize =
          n * group.geometry.chunkSize + (i - n) * group.geometry.chunkSize := by
        rw [← add_mul]
        congr 1
        omega
      rw [chunkAt, (hstore id hid).2, hptr]
      exact window_splice_blocks (fun j hj => group.geometry.length_shard group.coder hj hid) hnew

theorem Inv.write_step (h : group.Inv n table w) {leader : Nat} {data : List UInt8}
    (hnext : group.next w (.write leader data offsets) = some w') :
    ∃ n' table', group.Inv n' table' w' := by
  simp only [next] at hnext
  split at hnext
  · rename_i hguard
    obtain ⟨hlead, _, hoffs⟩ := hguard
    have hkeeps := h.stores leader hlead
    have hmax := group.conf.maxDataStoreSize_lt
    cases halloc : allocateAt (w leader).conf.maxDataStoreSize (w leader).writeOffset
      (group.geometry.numStripes data.length * group.geometry.chunkSize)
      group.geometry.chunkSize with
    | error e =>
      simp only [allocate, halloc, Option.some.injEq] at hnext
      exact ⟨n, table, hnext ▸ h⟩
    | ok a =>
      have halign := halloc
      rw [hkeeps.conf, hkeeps.writeOffset] at halign
      obtain ⟨rfl, hroom⟩ := allocateAt_aligned h.capacity halign
      have hlt := hroom
      rw [add_mul] at hlt
      have hinv := h.written leader hoffs hroom
      simp only [allocate, halloc, Option.some.injEq,
        wrap_of_lt (lt_of_le_of_lt hlt hmax)] at hnext
      subst hnext
      exact ⟨_, _, hinv⟩
  · cases hnext

theorem Inv.link_step (h : group.Inv n table w) (hnext : group.next w (.link addr) = some w') :
    group.Inv n (increment (group.geometry.extractRefcounts addr) true table).2 w' := by
  cases hnext
  refine ⟨?_, h.capacity, ?_, ?_, h.stripes⟩
  · intro id hid
    have hkeeps := h.stores id hid
    refine ⟨hkeeps.conf, hkeeps.filesOk, hkeeps.writeOffset, hkeeps.extent, ?_⟩
    rw [← hkeeps.refcounter]
    rfl
  · intro t ht
    rw [increment_isSome] at ht
    exact h.tracked t (by simpa using ht)
  · intro t count ht
    exact increment_lt h.counts ht

theorem Keeps.releasable (h : group.Keeps n table s)
    (hcap : n * group.geometry.chunkSize ≤ group.conf.maxDataStoreSize) {t : Nat} (ht : t < n)
    : DataStore.Releasable s t := by
  have hmax := group.conf.maxDataStoreSize_lt
  have hc := group.geometry.chunkSize_pos
  have hle : (t + 1) * group.geometry.chunkSize ≤ n * group.geometry.chunkSize :=
    Nat.mul_le_mul_right _ ht
  have hpage : s.conf.pageSize = group.geometry.chunkSize := by
    rw [h.conf, group.pageSize_eq]
  refine ⟨?_, ?_, ?_⟩
  · rw [hpage]
    omega
  · rw [hpage]
    exact hle.trans h.extent
  · rw [hpage, h.writeOffset]
    rw [add_mul, one_mul] at hle
    omega

theorem Keeps.unlinked {table table' : RefTable} (h : group.Keeps n table s)
    (hcap : n * group.geometry.chunkSize ≤ group.conf.maxDataStoreSize)
    {refcounts : List Refcount} {stripes : List Nat}
    (htxn : decrementTxn refcounts table = .ok (stripes, table'))
    (htrack : ∀ t, (table t).isSome → t < n) : group.Keeps n table' (s.unlink refcounts).2 ∧
      ∀ p, (s.unlink refcounts).2.memory p =
        if p / group.geometry.chunkSize ∈ stripes ∧ p < n * group.geometry.chunkSize then 0
        else s.memory p := by
  have hmax := group.conf.maxDataStoreSize_lt
  have hpage : s.conf.pageSize = group.geometry.chunkSize := by
    rw [h.conf, group.pageSize_eq]
  obtain rfl := h.refcounter
  have hword : s.writeOffset < 2 ^ 64 := by
    rw [h.writeOffset]
    omega
  obtain ⟨s', hrun, hsame, hmemo, _⟩ := unlink_ok h.filesOk hword htxn
    fun t ht => h.releasable hcap (htrack t ht)
  rw [hrun]
  refine ⟨⟨hsame.conf.trans h.conf, hsame.filesOk, hsame.writeOffset.trans h.writeOffset,
    h.extent.trans_eq hsame.extent.symm, hsame.refcounter⟩, ?_⟩
  intro p
  rw [hmemo p]
  simp only [hpage, h.writeOffset]
  rfl

theorem chunks_zero : group.Chunks (replicate group.geometry.dataShards
    (replicate group.geometry.chunkSize 0)) := by
  refine ⟨length_replicate, ?_⟩
  intro chunk hchunk
  rw [eq_of_mem_replicate hchunk, length_replicate]

theorem Inv.unlink_step (h : group.Inv n table w) (hnext : group.next w (.unlink addr) = some w') :
    ∃ table', group.Inv n table' w' := by
  cases hnext
  cases htxn : decrementTxn (group.geometry.extractRefcounts addr) table with
  | error e =>
    refine ⟨table, ?_⟩
    have hsame : ∀ id, id < group.geometry.storages →
        ((w id).unlink (group.geometry.extractRefcounts addr)).2 = w id := by
      intro id hid
      simp only [unlink, (h.stores id hid).refcounter, htxn]
    refine ⟨?_, h.capacity, h.tracked, h.counts, ?_⟩
    · intro id hid
      rw [hsame id hid]
      exact h.stores id hid
    · intro i hi
      obtain ⟨data, hdata, hholds⟩ := h.stripes i hi
      refine ⟨data, hdata, hholds.congr ?_⟩
      intro id hid
      rw [hsame id hid]
  | ok result =>
    obtain ⟨stripes, table'⟩ := result
    have htrack := decrementTxn_tracked htxn
    have hstore := fun id hid => (h.stores id hid).unlinked h.capacity htxn h.tracked
    refine ⟨table', fun id hid => (hstore id hid).1, h.capacity, ?_, ?_, ?_⟩
    · intro t ht
      exact h.tracked t ((htrack t).1 ht)
    · intro t count ht
      obtain ⟨before, hbef, hle⟩ := decrementTxn_le htxn ht
      exact lt_of_le_of_lt hle (h.counts t before hbef)
    · intro i hi
      have hinside : ∀ p, i * group.geometry.chunkSize ≤ p →
          p < (i + 1) * group.geometry.chunkSize →
          p / group.geometry.chunkSize = i ∧ p < n * group.geometry.chunkSize := by
        intro p hlow hhigh
        refine ⟨Nat.div_eq_of_lt_le hlow hhigh, ?_⟩
        exact lt_of_lt_of_le hhigh (Nat.mul_le_mul_right _ hi)
      by_cases hfreed : i ∈ stripes
      · refine ⟨_, chunks_zero, ?_⟩
        intro id hid
        have hshard : (replicate group.geometry.storages
            (replicate group.geometry.chunkSize (0 : UInt8))).getD id [] =
            replicate group.geometry.chunkSize 0 := by
          rw [getD_eq_getElem?_getD, getElem?_replicate_of_lt hid, Option.getD_some]
        rw [group.encode_zero, replicate_append_replicate]
        refine Eq.trans ?_ hshard.symm
        apply window_eq_of_getElem? length_replicate
        intro j hj
        obtain ⟨hdiv, hbelow⟩ := hinside (i * group.geometry.chunkSize + j) (by omega)
          (by rw [add_mul, one_mul]; omega)
        rw [(hstore id hid).2, hdiv, if_pos ⟨hfreed, hbelow⟩, getElem?_replicate_of_lt hj]
      · obtain ⟨data, hdata, hholds⟩ := h.stripes i hi
        refine ⟨data, hdata, hholds.congr ?_⟩
        intro id hid
        apply chunkAt_congr
        intro p hlow hhigh
        rw [(hstore id hid).2, if_neg]
        rw [(hinside p hlow hhigh).1]
        exact fun hp => hfreed hp.1

theorem Inv.step {action : Action} (h : group.Inv n table w) (hnext : group.next w action = some w')
    : ∃ n' table', group.Inv n' table' w' := by
  cases action with
  | write leader data offsets => exact h.write_step hnext
  | link addr => exact ⟨_, _, h.link_step hnext⟩
  | unlink addr => exact ⟨_, h.unlink_step hnext⟩

end StoredGroup

end UhCore.Group
