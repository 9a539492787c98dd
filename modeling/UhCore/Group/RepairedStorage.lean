import UhCore.Group.StoredGroup
import UhCore.Group.Repair
import UhCore.Lib.Effects

/-!
The repair of replaced storages in a group of data stores. The repairer reads
every stripe from the assigned storages, recovers the shards and writes each to
its new storage together with the count it has read. It reads the count of a
stripe that is not tracked as zero, and a write starts to track the stripe.
-/

namespace UhCore.Group.StoredGroup

open Words Bytes Storage Effects Transition List DataStore List

/-- A read that fails when it is short. -/
def readAddress (s : DataStore) (pointer size : Nat) : Except Exn (List UInt8) := do
  let bytes ← s.read pointer size
  if bytes.length ≠ size then
    .error (.runtimeError "Could not read the data with the given size")
  else .ok bytes

section Repairer

variable (group : StoredGroup) (states : Nat → StorageState)

/-- Read a stripe into the shards of the repairer; those of new storages keep
what is in them. -/
def readStripe (i : Nat) (shards : List (List UInt8)) (stores : Stores) :
    Except Exn (List (List UInt8)) :=
  let c := group.geometry.chunkSize
  (range group.geometry.storages).mapM fun id =>
    if states id = .new then .ok (shards.getD id [])
    else readAddress (stores id) (i * c) c

def dataStats : List Bool :=
  (range group.geometry.storages).map fun id => decide (states id = .assigned)

def maxStripeRefcount (i : Nat) (stores : Stores) : Refcount :=
  let stripeRefcounts := (range group.geometry.storages).map fun id =>
    if states id = .new then 0
    else ((getRefcounts [i] (stores id).refcounter).map Refcount.count).headD 0
  ⟨i, stripeRefcounts.foldl max 0⟩

def writeShard (i : Nat) (shards : List (List UInt8)) (refcount : Refcount) (stores : Stores)
    (id : Nat) : Except Exn Unit × DataStore :=
  let c := group.geometry.chunkSize
  if states id = .new then (stores id).write ⟨i * c, c⟩ [shards.getD id []] [refcount]
  else (.ok (), stores id)

/-- The loop over the stripes; returns whether it came to its end. -/
def repairStripes : List Nat → List (List UInt8) → Stores → Bool × Stores
  | [], _, stores => (true, stores)
  | i :: rest, shards, stores =>
    match group.readStripe states i shards stores with
    | .error _ => (false, stores)
    | .ok shards =>
      let shards := group.coder.recover shards (group.dataStats states)
      let write := group.writeShard states i shards
        (group.maxStripeRefcount states i stores) stores
      let stores : Stores := fun id => (write id).2
      if (range group.geometry.storages).all (fun id => (write id).1.toBool) then
        repairStripes rest shards stores
      else (false, stores)

/-- `buffer` is what the shards of the repairer have before the first stripe. -/
def repair (repairingSize : Nat) (buffer : Nat → Nat → UInt8) (stores : Stores) : Bool × Stores :=
  let c := group.geometry.chunkSize
  if repairingSize % c ≠ 0 then (false, stores)
  else group.repairStripes states (range (repairingSize / c))
    ((range group.geometry.storages).map fun id => window (buffer id) 0 c) stores

/-- The stores of a group whose new storages are empty. -/
def replaced (w : Stores) : Stores :=
  fun id => if states id = .new then .fresh group.conf else w id

end Repairer

/-- The store of storage `id` after a repair, compared with that of an assigned
storage. The stripes are the first `n`, and `w` is what the group had before
storages were replaced. -/
structure Indistinguishable (group : StoredGroup) (w : Stores) (n id : Nat)
    (repaired assigned : DataStore) : Prop where
  shards : ∀ i, i < n → repaired.read (i * group.geometry.chunkSize) group.geometry.chunkSize =
    .ok ((group.codeword w i).getD id [])
  refcounts : ∀ i, i < n → repaired.refcounter i = assigned.refcounter i
  link : ∀ refcounts : List Refcount, (∀ rc ∈ refcounts, rc.stripeId < n) →
    (repaired.link refcounts).1 = (assigned.link refcounts).1
  unlink : ∀ refcounts : List Refcount, (∀ rc ∈ refcounts, rc.stripeId < n) →
    (repaired.unlink refcounts).1 = (assigned.unlink refcounts).1

variable {group : StoredGroup} {s : DataStore}

theorem Keeps.unlink_answer {n : Nat} {table : RefTable} {s' : DataStore}
    (h : group.Keeps n table s) (h' : group.Keeps n table s')
    (hcap : n * group.geometry.chunkSize ≤ group.conf.maxDataStoreSize)
    (htrack : ∀ t, (table t).isSome → t < n) (refcounts : List Refcount) :
    (s.unlink refcounts).1 = (s'.unlink refcounts).1 := by
  have hmax := group.conf.maxDataStoreSize_lt
  cases htxn : decrementTxn refcounts table with
  | error e => simp only [unlink, h.refcounter, h'.refcounter, htxn]
  | ok result =>
    have hans : ∀ {s : DataStore}, group.Keeps n table s → (s.unlink refcounts).1 =
        .ok (wrap 64 (result.1.map fun t => min ((t + 1) * group.conf.pageSize)
          (n * group.geometry.chunkSize) - t * group.conf.pageSize).sum) := by
      intro s hs
      have hword : s.writeOffset < 2 ^ 64 := by
        rw [hs.writeOffset]
        omega
      obtain rfl := hs.refcounter
      obtain ⟨_, hrun, _⟩ := unlink_ok hs.filesOk hword htxn
        fun t ht => hs.releasable hcap (htrack t ht)
      rw [hrun, ← hs.conf, ← hs.writeOffset]
      rfl
    rw [hans h, hans h']

theorem Keeps.read_chunk {n : Nat} {table : RefTable} (h : group.Keeps n table s)
    (hcap : n * group.geometry.chunkSize ≤ group.conf.maxDataStoreSize) {i : Nat} (hi : i < n) :
    s.read (i * group.geometry.chunkSize) group.geometry.chunkSize = .ok (group.chunkAt s i) := by
  have hmax := group.conf.maxDataStoreSize_lt
  have hle : (i + 1) * group.geometry.chunkSize ≤ n * group.geometry.chunkSize :=
    Nat.mul_le_mul_right _ hi
  rw [add_mul, one_mul] at hle
  exact read_eq h.filesOk (hle.trans h.extent) (by omega)

theorem Inv.codeword_chunk {n : Nat} {table : RefTable} {w : Stores} (h : group.Inv n table w)
    {i id : Nat} (hi : i < n) (hid : id < group.geometry.storages) :
    group.chunkAt (w id) i = (group.codeword w i).getD id [] := by
  obtain ⟨data, hdata, hholds⟩ := h.stripes i hi
  rw [hholds.codeword_eq hdata]
  exact hholds id hid

/-- The counts of a new storage when the repairer is at stripe `i`. -/
def repairedTable (table : RefTable) (i : Nat) : RefTable :=
  fun t => if t < i then some ((table t).getD 0) else none

/-- What the stores have when the repairer is at stripe `i`. -/
structure Progress (group : StoredGroup) (states : Nat → StorageState) (table : RefTable)
    (w : Stores) (i : Nat) (stores : Stores) : Prop where
  assigned : ∀ id, states id ≠ .new → stores id = w id
  keeps : ∀ id, id < group.geometry.storages → states id = .new →
    group.Keeps i (repairedTable table i) (stores id)
  shards : ∀ id, id < group.geometry.storages → states id = .new → ∀ j, j < i →
    group.chunkAt (stores id) j = (group.codeword w j).getD id []

/-- The states a repairer is started with: no storage is down and there are
enough assigned ones. -/
structure Repairable (group : StoredGroup) (states : Nat → StorageState) : Prop where
  up : Repair.hasDown group.geometry.storages states = false
  enough : group.geometry.dataShards ≤ Repair.assignedCount group.geometry.storages states

section Step

variable {states : Nat → StorageState} {n : Nat} {table : RefTable} {w stores : Stores}
  {i leader : Nat} {shards : List (List UInt8)}

theorem progress_start : Progress group states table w 0 (group.replaced states w) := by
  refine ⟨?_, ?_, ?_⟩
  · intro id hne
    exact if_neg hne
  · intro id _ hnew
    rw [replaced, if_pos hnew]
    refine ⟨rfl, fresh_filesOk _, ?_, ?_, rfl⟩
    · rw [zero_mul]
      rfl
    · rw [zero_mul]
      exact Nat.zero_le _
  · intro id _ _ j hj
    exact absurd hj (Nat.not_lt_zero j)

theorem readStripe_ok (hinv : group.Inv n table w) (hi : i < n)
    (hprog : Progress group states table w i stores) (shards : List (List UInt8)) :
    group.readStripe states i shards stores =
      .ok ((range group.geometry.storages).map fun id =>
        if states id = .new then shards.getD id [] else (group.codeword w i).getD id []) := by
  apply mapM_ok
  intro id hmem
  have hid := mem_range.mp hmem
  by_cases hnew : states id = .new
  · rw [if_pos hnew, if_pos hnew]
  · rw [if_neg hnew, if_neg hnew, hprog.assigned id hnew, ← hinv.codeword_chunk hi hid]
    have hread := (hinv.stores id hid).read_chunk hinv.capacity hi
    have hlen : (group.chunkAt (w id) i).length = group.geometry.chunkSize := length_window _ _ _
    simp [readAddress, hread, hlen, Bind.bind, Except.bind]

theorem count_dataStats (h : group.Repairable states) :
    group.geometry.dataShards ≤ (group.dataStats states).count true := by
  have hcount : (group.dataStats states).count true =
      Repair.assignedCount group.geometry.storages states := by
    rw [dataStats, count, countP_map, Repair.assignedCount]
    congr 1
    funext id
    simp
  rw [hcount]
  exact h.enough

theorem recover_stripe (hinv : group.Inv n table w) (hrepairable : group.Repairable states)
    (hi : i < n) (hsize : ∀ id, id < group.geometry.storages →
      (shards.getD id []).length = group.geometry.chunkSize) :
    group.coder.recover ((range group.geometry.storages).map fun id =>
        if states id = .new then shards.getD id [] else (group.codeword w i).getD id [])
      (group.dataStats states) = group.codeword w i := by
  obtain ⟨data, hdata, hholds⟩ := hinv.stripes i hi
  rw [hholds.codeword_eq hdata]
  apply group.coder.recover_eq data _ _ hdata.count hdata.size
  · rw [length_map, length_range]
    rfl
  · intro shard hshard
    obtain ⟨id, hid, rfl⟩ := mem_map.mp hshard
    split
    · exact hsize id (mem_range.mp hid)
    · exact hdata.length_shard (mem_range.mp hid)
  · rw [dataStats, length_map, length_range]
    rfl
  · exact count_dataStats hrepairable
  · intro id hstat
    have hlt : id < group.geometry.storages := by
      have := (List.getElem?_eq_some_iff.mp hstat).1
      rwa [dataStats, length_map, length_range] at this
    have hassigned : states id = .assigned := by
      rw [dataStats, getElem?_map, getElem?_range hlt] at hstat
      simpa using hstat
    have hlen : id < (data ++ group.coder.encode data).length := by
      rwa [hdata.length_codeword]
    rw [getElem?_map, getElem?_range hlt, Option.map_some, if_neg (by simp [hassigned]),
      getD_eq_getElem?_getD, getElem?_eq_getElem hlen]
    rfl

theorem foldl_max_eq {l : List Nat} {a v : Nat} (ha : a ≤ v) (hle : ∀ x ∈ l, x ≤ v)
    (hmem : a = v ∨ v ∈ l) : l.foldl max a = v := by
  induction l generalizing a with
  | nil =>
    rcases hmem with rfl | hmem
    · rfl
    · cases hmem
  | cons x rest ih =>
    have hx := hle x mem_cons_self
    apply ih (Nat.max_le.mpr ⟨ha, hx⟩) (fun y hy => hle y (mem_cons_of_mem _ hy))
    rcases hmem with rfl | hmem
    · exact Or.inl (max_eq_left hx)
    · rcases mem_cons.mp hmem with rfl | hmem
      · exact Or.inl (max_eq_right ha)
      · exact Or.inr hmem

theorem maxStripeRefcount_eq (hinv : group.Inv n table w)
    (hprog : Progress group states table w i stores) (hlead : leader < group.geometry.storages)
    (hassigned : states leader ≠ .new) :
    group.maxStripeRefcount states i stores = ⟨i, (table i).getD 0⟩ := by
  have hcount : ∀ id, id < group.geometry.storages → states id ≠ .new →
      ((getRefcounts [i] (stores id).refcounter).map Refcount.count).headD 0 =
        (table i).getD 0 := by
    intro id hid hne
    rw [hprog.assigned id hne, (hinv.stores id hid).refcounter]
    rfl
  refine congrArg (Refcount.mk i) (foldl_max_eq (Nat.zero_le _) ?_ (Or.inr ?_))
  · intro x hx
    obtain ⟨id, hid, rfl⟩ := mem_map.mp hx
    split
    · exact Nat.zero_le _
    · rename_i hne
      exact (hcount id (mem_range.mp hid) hne).le
  · refine mem_map.mpr ⟨leader, mem_range.mpr hlead, ?_⟩
    rw [if_neg hassigned]
    exact hcount leader hlead hassigned

/-- A new storage after the shard of stripe `i` was written to it. -/
theorem Keeps.repaired {s : DataStore} {shard : List UInt8}
    (h : group.Keeps i (repairedTable table i) s)
    (hcap : (i + 1) * group.geometry.chunkSize ≤ group.conf.maxDataStoreSize)
    (hcount : (table i).getD 0 < 2 ^ 64) (hshard : shard.length = group.geometry.chunkSize) :
    ∃ s', s.write ⟨i * group.geometry.chunkSize, group.geometry.chunkSize⟩ [shard]
        [⟨i, (table i).getD 0⟩] = (.ok (), s') ∧
      group.Keeps (i + 1) (repairedTable table (i + 1)) s' ∧
      group.chunkAt s' i = shard ∧ ∀ j, j < i → group.chunkAt s' j = group.chunkAt s j := by
  have hmax := group.conf.maxDataStoreSize_lt
  have hsucc : (i + 1) * group.geometry.chunkSize =
      i * group.geometry.chunkSize + group.geometry.chunkSize := by
    rw [add_mul, one_mul]
  obtain ⟨s', hrun, heff⟩ := @write_ok s h.filesOk
    ⟨i * group.geometry.chunkSize, group.geometry.chunkSize⟩ [shard] [⟨i, (table i).getD 0⟩]
    (by simpa using hshard)
    (show i * group.geometry.chunkSize + group.geometry.chunkSize < 2 ^ 64 by omega)
  have hmemo : s'.memory = splice s.memory (i * group.geometry.chunkSize) shard := by
    have hflat : [shard].flatten = shard := by simp
    rw [heff.memory, hflat]
  refine ⟨s', hrun, ⟨heff.conf.trans h.conf, heff.filesOk, ?_, ?_, ?_⟩, ?_, ?_⟩
  · rw [heff.writeOffset, h.writeOffset, hsucc]
    exact max_eq_right (Nat.le_add_right _ _)
  · rw [hsucc]
    exact heff.reaches
  · rw [heff.refcounter, h.refcounter]
    funext t
    simp only [increment, incrementStripe, Bool.false_and, Bool.false_eq_true, if_false]
    by_cases ht : t = i
    · subst ht
      simp [repairedTable, wrap_of_lt hcount]
    · rw [Function.update_of_ne ht]
      simp only [repairedTable]
      congr 1
      exact propext ⟨fun h => by omega, fun h => by omega⟩
  · rw [chunkAt, hmemo]
    apply window_eq_of_getElem? hshard
    intro j hj
    have hlt : j < shard.length := by omega
    rw [splice_at (getElem?_eq_getElem hlt), getElem?_eq_getElem hlt]
  · intro j hj
    apply chunkAt_congr
    intro p _ hp
    have hle : (j + 1) * group.geometry.chunkSize ≤ i * group.geometry.chunkSize :=
      Nat.mul_le_mul_right _ hj
    rw [hmemo]
    exact splice_of_lt (lt_of_lt_of_le hp hle)

theorem Inv.length_codeword_shard (hinv : group.Inv n table w) {id : Nat} (hi : i < n)
    (hid : id < group.geometry.storages) :
    ((group.codeword w i).getD id []).length = group.geometry.chunkSize := by
  rw [← hinv.codeword_chunk hi hid]
  exact length_window _ _ _

/-- New storages get their shard and the count; the others stay. -/
theorem Progress.stripe (hinv : group.Inv n table w) (hi : i < n)
    (hprog : Progress group states table w i stores) :
    let write := group.writeShard states i (group.codeword w i) ⟨i, (table i).getD 0⟩ stores
    (∀ id, id < group.geometry.storages → (write id).1 = .ok ()) ∧
      Progress group states table w (i + 1) (fun id => (write id).2) := by
  intro write
  have hcap := (Nat.mul_le_mul_right _ hi).trans hinv.capacity
  have hcount : (table i).getD 0 < 2 ^ 64 := by
    cases htable : table i with
    | none => exact Nat.two_pow_pos 64
    | some count => exact hinv.counts i count htable
  have hkept : ∀ id, states id ≠ .new → write id = (.ok (), stores id) := by
    intro id hne
    exact if_neg hne
  have hwritten : ∀ id, id < group.geometry.storages → states id = .new →
      ∃ s', write id = (.ok (), s') ∧ group.Keeps (i + 1) (repairedTable table (i + 1)) s' ∧
        group.chunkAt s' i = (group.codeword w i).getD id [] ∧
        ∀ j, j < i → group.chunkAt s' j = group.chunkAt (stores id) j := by
    intro id hid hnew
    have hwrite : write id = (stores id).write
        ⟨i * group.geometry.chunkSize, group.geometry.chunkSize⟩
        [(group.codeword w i).getD id []] [⟨i, (table i).getD 0⟩] := if_pos hnew
    rw [hwrite]
    exact (hprog.keeps id hid hnew).repaired hcap hcount (hinv.length_codeword_shard hi hid)
  refine ⟨?_, ?_, ?_, ?_⟩
  · intro id hid
    by_cases hnew : states id = .new
    · obtain ⟨s', hrun, _⟩ := hwritten id hid hnew
      rw [hrun]
    · rw [hkept id hnew]
  · intro id hne
    simp only [hkept id hne]
    exact hprog.assigned id hne
  · intro id hid hnew
    obtain ⟨s', hrun, hkeeps, _⟩ := hwritten id hid hnew
    simp only [hrun]
    exact hkeeps
  · intro id hid hnew j hj
    obtain ⟨s', hrun, _, hlast, hbef⟩ := hwritten id hid hnew
    simp only [hrun]
    rcases Nat.lt_succ_iff_lt_or_eq.mp hj with hlt | rfl
    · rw [hbef j hlt]
      exact hprog.shards id hid hnew j hlt
    · exact hlast

theorem repairStripes_ok (hinv : group.Inv n table w) (hrepairable : group.Repairable states)
    (hlead : leader < group.geometry.storages) (hassigned : states leader ≠ .new) (k i : Nat)
    (hk : i + k = n) (hprog : Progress group states table w i stores)
    (hsize : ∀ id, id < group.geometry.storages →
      (shards.getD id []).length = group.geometry.chunkSize) :
    ∃ stores', group.repairStripes states (range' i k) shards stores = (true, stores') ∧
      Progress group states table w n stores' := by
  induction k generalizing i shards stores with
  | zero =>
    obtain rfl : i = n := by omega
    exact ⟨stores, rfl, hprog⟩
  | succ k ih =>
    have hi : i < n := by omega
    obtain ⟨hok, hnext⟩ := hprog.stripe hinv hi
    obtain ⟨stores', hrun, hdone⟩ := ih (i + 1) (by omega) hnext
      (fun id hid => hinv.length_codeword_shard hi hid)
    refine ⟨stores', ?_, hdone⟩
    have hall : (range group.geometry.storages).all (fun id =>
        (group.writeShard states i (group.codeword w i) ⟨i, (table i).getD 0⟩ stores
          id).1.toBool) = true := by
      apply all_eq_true.mpr
      intro id hid
      rw [hok id (mem_range.mp hid)]
      rfl
    rw [range'_succ, repairStripes, readStripe_ok hinv hi hprog]
    simp only [recover_stripe hinv hrepairable hi hsize,
      maxStripeRefcount_eq hinv hprog hlead hassigned, hall, if_true]
    exact hrun

end Step

/-- A group in which some number of stripes and some counts are kept. -/
def Sound (group : StoredGroup) (w : Stores) : Prop := ∃ n table, group.Inv n table w

theorem sound_reachable {w : Stores}
    (h : Reachable group.next (fun _ _ => True) group.start w) : group.Sound w := by
  apply Reachable.invariant _ _ h
  · exact ⟨_, _, inv_start⟩
  · rintro s a s' ⟨n, table, hs⟩ _ hnext
    exact hs.step hnext

/-- A repaired storage is like the assigned ones exactly if no stripe of the
group is free. -/
theorem Progress.indistinguishable_iff {states : Nat → StorageState} {n : Nat} {table : RefTable}
    {w stores : Stores} (hinv : group.Inv n table w)
    (hprog : Progress group states table w n stores) {id other : Nat}
    (hid : id < group.geometry.storages) (hnew : states id = .new)
    (hother : other < group.geometry.storages) (hassigned : states other ≠ .new) :
    Indistinguishable group w n id (stores id) (stores other) ↔ ∀ i, i < n → (table i).isSome := by
  have hkeeps := hprog.keeps id hid hnew
  have hkeepsOther := hinv.stores other hother
  rw [← hprog.assigned other hassigned] at hkeepsOther
  constructor
  · intro h i hi
    have hsame := h.refcounts i hi
    rw [hkeeps.refcounter, hkeepsOther.refcounter, repairedTable, if_pos hi] at hsame
    rw [← hsame]
    rfl
  · intro htrack
    have htable : repairedTable table n = table := by
      funext t
      unfold repairedTable
      split
      · rename_i ht
        obtain ⟨count, hcount⟩ := Option.isSome_iff_exists.mp (htrack t ht)
        rw [hcount]
        rfl
      · rename_i ht
        symm
        apply Option.not_isSome_iff_eq_none.mp
        intro hsome
        exact ht (hinv.tracked t hsome)
    rw [htable] at hkeeps
    refine ⟨?_, ?_, ?_, ?_⟩
    · intro i hi
      rw [hkeeps.read_chunk hinv.capacity hi, hprog.shards id hid hnew i hi]
    · intro i _
      rw [hkeeps.refcounter, hkeepsOther.refcounter]
    · intro refcounts _
      simp only [link, hkeeps.refcounter, hkeepsOther.refcounter]
    · intro refcounts _
      exact hkeeps.unlink_answer hkeepsOther hinv.capacity hinv.tracked refcounts

/-- Whatever writes, links and unlinks were made before, a repair comes to its
end, and it makes a new storage like the assigned ones exactly if none of the
stripes below the repairing size is free. -/
theorem repaired_storage_indistinguishable_iff {w : Stores}
    (h : Reachable group.next (fun _ _ => True) group.start w) {states : Nat → StorageState}
    (hrepairable : group.Repairable states) (buffer : Nat → Nat → UInt8) {leader id other : Nat}
    (hleader : leader < group.geometry.storages) (hself : states leader = .assigned)
    (hid : id < group.geometry.storages) (hnew : states id = .new)
    (hother : other < group.geometry.storages) (hassigned : states other = .assigned) :
    ∃ stores, group.repair states (w leader).writeOffset buffer (group.replaced states w) =
        (true, stores) ∧
      (Indistinguishable group w ((w leader).writeOffset / group.geometry.chunkSize) id
          (stores id) (stores other) ↔
        ∀ i, i < (w leader).writeOffset / group.geometry.chunkSize →
          ((w other).refcounter i).isSome) := by
  obtain ⟨n, table, hinv⟩ := sound_reachable h
  have hc := group.geometry.chunkSize_pos
  have hoffset := (hinv.stores leader hleader).writeOffset
  have hstripes : (w leader).writeOffset / group.geometry.chunkSize = n := by
    rw [hoffset, Nat.mul_div_cancel _ hc]
  have hmod : (w leader).writeOffset % group.geometry.chunkSize = 0 := by
    rw [hoffset, Nat.mul_mod_left]
  obtain ⟨stores, hrun, hprogress⟩ := repairStripes_ok hinv hrepairable hleader
    (by simp [hself]) n 0 (zero_add n) progress_start
    (show ∀ id, id < group.geometry.storages →
      (((range group.geometry.storages).map fun id =>
        window (buffer id) 0 group.geometry.chunkSize).getD id []).length =
          group.geometry.chunkSize by
      intro id hid
      rw [getD_eq_getElem?_getD, getElem?_map, getElem?_range hid,
        Option.map_some, Option.getD_some, length_window])
  refine ⟨stores, ?_, ?_⟩
  · rw [← range_eq_range'] at hrun
    simp only [repair, hmod, ne_eq, not_true_eq_false, if_false, hstripes]
    exact hrun
  · rw [hstripes, (hinv.stores other hother).refcounter]
    exact hprogress.indistinguishable_iff hinv hid hnew hother (by simp [hassigned])

/-- One data shard of two bytes and its copy. -/
def mirrored : StoredGroup where
  geometry := ⟨0, 1, 1, 2, Nat.one_pos, Nat.two_pos, by decide⟩
  coder := mirrorCoder 1 2
  conf := ⟨4, 8, 2, Nat.two_pos, LivePages.smallConfig.pageSize_pos, by decide, by decide⟩
  pageSize_eq := rfl
  encode_zero := by decide

def secondNew (id : Nat) : StorageState := if id = 1 then .new else .assigned

theorem repairable_secondNew : mirrored.Repairable secondNew := ⟨by decide, by decide⟩

/-- The repair after a write of two stripes. -/
theorem repaired_storage_indistinguishable_mirrored :
    ∃ w stores, Reachable mirrored.next (fun _ _ => True) mirrored.start w ∧
      mirrored.repair secondNew (w 0).writeOffset (fun _ _ => 7) (mirrored.replaced secondNew w) =
        (true, stores) ∧
      (w 0).writeOffset = 4 ∧ Indistinguishable mirrored w 2 1 (stores 1) (stores 0) := by
  obtain ⟨w, hreach, hoffset, hfirst, hsecond⟩ := exists_reachable_of_runWhile
    (fun w : Stores => (w 0).writeOffset = 4 ∧ ((w 0).refcounter 0).isSome ∧
      ((w 0).refcounter 1).isSome)
    [.write 0 [1, 2, 3] [0, 1]]
    (show (runWhile mirrored.next (fun _ _ => True) mirrored.start _).any _ = true by
      decide +kernel)
  obtain ⟨stores, hrun, hiff⟩ := repaired_storage_indistinguishable_iff hreach
    repairable_secondNew (fun _ _ => 7) (show 0 < mirrored.geometry.storages by decide) rfl
    (show 1 < mirrored.geometry.storages by decide) rfl
    (show 0 < mirrored.geometry.storages by decide) rfl
  have hcount : (w 0).writeOffset / mirrored.geometry.chunkSize = 2 := by rw [hoffset]; rfl
  rw [hcount] at hiff
  refine ⟨w, stores, hreach, hrun, hoffset, hiff.mpr ?_⟩
  intro i hi
  rcases (show i = 0 ∨ i = 1 by omega) with rfl | rfl
  · exact hfirst
  · exact hsecond

/-- A stripe that was freed before the repair is tracked by the new storage
with a count of zero and by the assigned one not at all. -/
theorem repair_tracks_freed_stripe :
    ¬ ∀ (group : StoredGroup) (w stores : Stores) (states : Nat → StorageState)
      (buffer : Nat → Nat → UInt8) (leader id other : Nat),
      Reachable group.next (fun _ _ => True) group.start w → group.Repairable states →
      leader < group.geometry.storages → states leader = .assigned →
      id < group.geometry.storages → states id = .new →
      other < group.geometry.storages → states other = .assigned →
      group.repair states (w leader).writeOffset buffer (group.replaced states w) = (true, stores) →
      Indistinguishable group w ((w leader).writeOffset / group.geometry.chunkSize) id
        (stores id) (stores other) := by
  intro hall
  obtain ⟨w, hreach, hoffset, hdone, hnew, hassigned⟩ := exists_reachable_of_runWhile
    (fun w : Stores => (w 0).writeOffset = 2 ∧
      (mirrored.repair secondNew (w 0).writeOffset (fun _ _ => 7)
        (mirrored.replaced secondNew w)).1 = true ∧
      ((mirrored.repair secondNew (w 0).writeOffset (fun _ _ => 7)
        (mirrored.replaced secondNew w)).2 1).refcounter 0 = some 0 ∧
      ((mirrored.repair secondNew (w 0).writeOffset (fun _ _ => 7)
        (mirrored.replaced secondNew w)).2 0).refcounter 0 = none)
    [.write 0 [1, 2] [0], .unlink [⟨0, 2⟩]]
    (show (runWhile mirrored.next (fun _ _ => True) mirrored.start _).any _ = true by
      decide +kernel)
  have hsame := (hall mirrored w _ secondNew (fun _ _ => 7) 0 1 0 hreach repairable_secondNew
    (by decide) rfl (by decide) rfl (by decide) rfl (Prod.ext hdone rfl)).refcounts 0
      (by rw [hoffset]; decide)
  rw [hnew, hassigned] at hsame
  cases hsame

end UhCore.Group.StoredGroup
