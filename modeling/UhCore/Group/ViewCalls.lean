import UhCore.Group.LinkExact
import UhCore.Group.StripeCounts
import UhCore.Dedupe.StorageCalls

/-!
The round robin and the erasure coding view as the deduplicator calls them. The
state is the reference table of every storage. A write registers the counts of
its address: the round robin view on the storage it wrote to, the erasure
coding view on all storages.
-/

namespace UhCore.Group

open Words Storage Effects List Option

inductive GroupView where
  | rr (view : RrView) (groupId : Nat)
  | ec (g : EcGeometry)

/-- The storage that the load balancer picks for a write and the offset that is
allocated there; the erasure coding view has one offset for all storages. -/
structure Target where
  storageId : Nat
  offset : Nat

namespace GroupView

def storages : GroupView → Nat
  | rr view _ => view.storages
  | ec g => g.storages

def stripes : GroupView → Fragment → List Nat
  | rr view _ => view.stripes
  | ec g => g.fragmentStripes

/-- Whether a storage gets the counts of a fragment. -/
def sends : GroupView → Fragment → Nat → Bool
  | rr _ _, f, id => decide (RrView.mapKey f = id)
  | ec _, _, _ => true

def extractRefcounts : GroupView → Address → Except Exn (Nat → List Refcount)
  | rr view _, addr => (view.extractRefcounts addr).map fun refcounts id => refcounts.getD id []
  | ec g, addr => .ok fun _ => g.extractRefcounts addr

def link : GroupView → Address → Effect (Nat → RefTable) Exn Address
  | rr view _, addr => attempt fun tables => view.link tables addr
  | ec g, addr => attempt fun tables => .ok (g.link tables addr)

def place : GroupView → Target → Nat → Nat
  | rr _ groupId, target, offset =>
    Rr.getGlobalPointer (wrap 64 (target.offset + offset)) groupId target.storageId
  | ec g, target, offset => wrap 64 (wrap 64 (target.offset * g.dataShards) + offset)

/-- Whether a storage takes part in a write. -/
def writesTo : GroupView → Target → Nat → Bool
  | rr _ _, target, id => decide (id = target.storageId)
  | ec g, _, id => decide (id < g.storages)

def register (view : GroupView) (target : Target) (refcounts : Nat → List Refcount)
    (tables : Nat → RefTable) : Nat → RefTable := fun id =>
  if view.writesTo target id then (increment (refcounts id) false (tables id)).2 else tables id

def write (view : GroupView) (target : Target) (data : List UInt8) (offsets : List Nat) :
    Effect (Nat → RefTable) Exn Address := do
  let rv := computeAddress (view.place target) data.length offsets
  let refcounts ← computed (view.extractRefcounts rv)
  modify (view.register target refcounts)
  pure rv

/-- The tables once every storage has run its transaction. -/
def decrementTables (storages : Nat) (refcounts : Nat → List Refcount)
    (tables : Nat → RefTable) : Nat → RefTable := fun id =>
  if id < storages then
    match decrementTxn (refcounts id) (tables id) with
    | .ok (_, dbi) => dbi
    | .error _ => tables id
  else tables id

/-- The exception of the first storage whose transaction fails. -/
def firstError (storages : Nat) (refcounts : Nat → List Refcount) (tables : Nat → RefTable) :
    Option Exn :=
  (List.range storages).findSome? fun id =>
    match decrementTxn (refcounts id) (tables id) with
    | .ok _ => none
    | .error e => some e

/-- Every storage applies its counts in a transaction of its own; an exception
is passed on when all have ended. -/
def unlinkStorages (storages : Nat) (refcounts : Nat → List Refcount) :
    Effect (Nat → RefTable) Exn Unit :=
  act fun tables =>
    (match firstError storages refcounts tables with
      | some e => .error e
      | none => .ok (),
      decrementTables storages refcounts tables)

def unlink (view : GroupView) (addr : Address) : Effect (Nat → RefTable) Exn Unit := do
  let refcounts ← computed (view.extractRefcounts addr)
  unlinkStorages view.storages refcounts

def calls (view : GroupView) (target : Target) : Dedupe.DataView (Nat → RefTable) where
  write := view.write target
  link := view.link

/-- The stripes that a storage counts for an address, with repetitions. -/
def occurrences (view : GroupView) (addr : Address) (id : Nat) : List Nat :=
  (addr.filter (view.sends · id)).flatMap view.stripes

/-- Every fragment has a storage that gets its counts. -/
def Routable (view : GroupView) (addr : Address) : Prop :=
  ∀ f ∈ addr, ∃ id, id < view.storages ∧ view.sends f id = true

variable {view : GroupView} {xs ys : Address}

theorem occurrences_append (xs ys : Address) (id : Nat) :
    view.occurrences (xs ++ ys) id = view.occurrences xs id ++ view.occurrences ys id := by
  simp [occurrences]

theorem count_occurrences_perm (h : xs.Perm ys) (id t : Nat) :
    (view.occurrences xs id).count t = (view.occurrences ys id).count t :=
  ((h.filter _).flatMap_right _).count_eq t

theorem Routable.of_perm (h : xs.Perm ys) (hxs : view.Routable xs) : view.Routable ys :=
  fun f hf => hxs f (h.mem_iff.mpr hf)

theorem nodup_stripes (view : GroupView) (f : Fragment) : (view.stripes f).Nodup := by
  cases view <;> exact nodup_stripeLoop _ _

theorem count_occurrences_le (addr : Address) (id t : Nat) :
    (view.occurrences addr id).count t ≤ addr.length := by
  rw [occurrences, count_flatMap_stripes view.nodup_stripes]
  exact countP_le_length

variable {addr : Address} {refcounts : Nat → List Refcount}

theorem extractRefcounts_ok (h : view.Routable addr) :
    ∃ refcounts, view.extractRefcounts addr = .ok refcounts := by
  cases view with
  | ec g => exact ⟨_, rfl⟩
  | rr view groupId =>
    have hall : addr.all (fun frag => decide (RrView.mapKey frag < view.storages)) = true := by
      rw [List.all_eq_true]
      intro f hf
      obtain ⟨id, hid, hsends⟩ := h f hf
      have hkey : RrView.mapKey f = id := of_decide_eq_true hsends
      exact decide_eq_true (hkey ▸ hid)
    exact ⟨_, by simp only [extractRefcounts, RrView.extractRefcounts, hall, if_true]; rfl⟩

theorem routable_of_extractRefcounts (h : view.extractRefcounts addr = .ok refcounts) :
    view.Routable addr := by
  intro f hf
  cases view with
  | ec g => exact ⟨0, Nat.add_pos_left g.dataShards_pos _, rfl⟩
  | rr view groupId =>
    simp only [extractRefcounts, RrView.extractRefcounts] at h
    split at h
    · rename_i hall
      exact ⟨RrView.mapKey f, of_decide_eq_true (List.all_eq_true.mp hall f hf), decide_eq_true rfl⟩
    · cases h

theorem extractRefcounts_eq (h : view.extractRefcounts addr = .ok refcounts) {id : Nat}
    (hid : id < view.storages) : refcounts id = countStripes (view.occurrences addr id) := by
  cases view with
  | ec g =>
    cases h
    simp [EcGeometry.extractRefcounts, occurrences, sends, stripes]
  | rr view groupId =>
    simp only [extractRefcounts, RrView.extractRefcounts] at h
    split at h
    · cases h
      simp [occurrences, sends, stripes, show id < view.storages from hid]
    · cases h

end GroupView

def Adds (before after : RefTable) (stripes : List Nat) : Prop :=
  ∀ t, (after t).getD 0 = (before t).getD 0 + stripes.count t ∧ (t ∉ stripes → after t = before t)

/-- A table with the references of a list of stripes taken away; what keeps none
is no longer tracked. -/
def Drops (before after : RefTable) (stripes : List Nat) : Prop :=
  ∀ t, (after t).getD 0 = (before t).getD 0 - stripes.count t ∧
    (t ∉ stripes → after t = before t) ∧
    (t ∈ stripes → (before t).getD 0 = stripes.count t → after t = none)

theorem Adds.refl (table : RefTable) : Adds table table [] :=
  fun _ => ⟨rfl, fun _ => rfl⟩

variable {xs ys stripes : List Nat} {dbi : RefTable}

theorem Adds.trans {first second third : RefTable} (h : Adds first second xs)
    (h' : Adds second third ys) : Adds first third (xs ++ ys) := by
  intro t
  refine ⟨?_, ?_⟩
  · rw [(h' t).1, (h t).1, count_append, add_assoc]
  · intro ht
    rw [mem_append, not_or] at ht
    rw [(h' t).2 ht.2, (h t).2 ht.1]

theorem Adds.of_count {before after : RefTable} (h : Adds before after xs)
    (hcount : ∀ t, xs.count t = ys.count t) : Adds before after ys := by
  intro t
  refine ⟨hcount t ▸ (h t).1, ?_⟩
  intro ht
  apply (h t).2
  rwa [← count_eq_zero, hcount t, count_eq_zero]

theorem increment_adds {upstream : Bool} (htrack : upstream = true → ∀ t ∈ stripes, (dbi t).isSome)
    (hfits : ∀ t, (dbi t).getD 0 + stripes.count t < 2 ^ 64) :
    Adds dbi (increment (countStripes stripes) upstream dbi).2 stripes := by
  intro t
  have hcount := countOf_countStripes (lt_of_le_of_lt (Nat.le_add_left _ _) (hfits t))
  have hother : t ∉ stripes → (increment (countStripes stripes) upstream dbi).2 t = dbi t :=
    fun ht => increment_other _ _ fun h => ht (mem_countStripes.mp h)
  refine ⟨?_, hother⟩
  by_cases ht : t ∈ stripes
  · cases upstream with
    | false =>
      rw [increment_write _ _ _ (hcount ▸ hfits t) (mem_countStripes.mpr ht), hcount, getD_some]
    | true =>
      obtain ⟨v, hv⟩ := isSome_iff_exists.mp (htrack rfl t ht)
      have hlt := hfits t
      rw [hv, getD_some] at hlt
      rw [increment_link _ _ _ hv (by omega), hcount, hv, getD_some, getD_some, wrap_of_lt hlt]
  · rw [hother ht, count_eq_zero_of_not_mem ht, add_zero]

theorem decrementTxn_drops (hheld : ∀ t ∈ stripes, stripes.count t ≤ (dbi t).getD 0)
    (hfits : ∀ t, stripes.count t < 2 ^ 64) :
    ∃ freed dbi', decrementTxn (countStripes stripes) dbi = .ok (freed, dbi') ∧
      Drops dbi dbi' stripes := by
  have htrack : ∀ t ∈ (countStripes stripes).map Refcount.stripeId, (dbi t).isSome := by
    intro t ht
    have hmem := mem_countStripes.mp ht
    have hpos := count_pos_iff.mpr hmem
    have hle := hheld t hmem
    cases hdbi : dbi t with
    | none =>
      rw [hdbi, getD_none] at hle
      omega
    | some v => rfl
  obtain ⟨freed, dbi', hrun, hdbi'⟩ := decrementTxn_eq (nodup_countStripes stripes) htrack
  refine ⟨freed, dbi', hrun, ?_⟩
  intro t
  have hat := hdbi' t
  rw [countOf_countStripes (hfits t)] at hat
  by_cases ht : t ∈ stripes
  · rw [if_pos (mem_countStripes.mpr ht)] at hat
    refine ⟨?_, fun hnot => absurd ht hnot, ?_⟩
    · rw [hat]
      split
      · rw [getD_none]
        omega
      · rw [getD_some]
    · intro _ heq
      rw [hat, if_pos (le_of_eq heq)]
  · rw [if_neg (fun h => ht (mem_countStripes.mp h))] at hat
    rw [hat, count_eq_zero_of_not_mem ht]
    exact ⟨rfl, fun _ => rfl, fun h => absurd h ht⟩

namespace GroupView

variable {view : GroupView}

variable {tables tables' : Nat → RefTable} {offsets : List Nat} {target : Target}
  {addr rv : Address} {f : Fragment} {data : List UInt8}

theorem returns_link {rejected : Address} (h : Returns (view.link addr) tables rejected tables') :
    ∃ refcounts, view.extractRefcounts addr = .ok refcounts ∧
      rejected = computeRejectedAddress view.stripes
        (linkStorages view.storages refcounts tables).1 addr ∧
      tables' = (linkStorages view.storages refcounts tables).2 := by
  cases view with
  | ec g =>
    simp only [link, returns_attempt, Except.ok.injEq] at h
    exact ⟨_, rfl, (congrArg Prod.fst h).symm, (congrArg Prod.snd h).symm⟩
  | rr view groupId =>
    simp only [link, returns_attempt, RrView.link] at h
    cases hrefs : view.extractRefcounts addr with
    | error e => simp [hrefs, Bind.bind, Except.bind] at h
    | ok refcounts =>
      simp only [hrefs, Bind.bind, Except.bind, pure, Except.pure, Except.ok.injEq,
        Prod.mk.injEq] at h
      exact ⟨_, by simp only [extractRefcounts, hrefs, Except.map], h.1.symm, h.2.symm⟩

theorem link_adds (h : Returns (view.link addr) tables [] tables')
    (hfits : ∀ id, id < view.storages → ∀ t, (tables id t).getD 0 +
    (view.occurrences addr id).count t < 2 ^ 64) : view.Routable addr ∧
      ∀ id, id < view.storages → Adds (tables id) (tables' id) (view.occurrences addr id) := by
  obtain ⟨refcounts, hrefs, hnone, rfl⟩ := returns_link h
  refine ⟨routable_of_extractRefcounts hrefs, ?_⟩
  have hrcs : ∀ id, id < view.storages → refcounts id =
      countStripes ((addr.filter (view.sends · id)).flatMap view.stripes) :=
    fun id hid => extractRefcounts_eq hrefs hid
  intro id hid
  have htable : (linkStorages view.storages refcounts tables).2 id =
      (increment (countStripes (view.occurrences addr id)) true (tables id)).2 := by
    simp only [linkStorages, hid, if_true, hrcs id hid]
    rfl
  rw [htable]
  refine increment_adds ?_ (hfits id hid)
  intro _ t ht
  rw [isSome_iff_ne_none]
  intro huntracked
  obtain ⟨f, hf, hstripe⟩ := mem_flatMap.mp ht
  obtain ⟨hmem, hsends⟩ := mem_filter.mp hf
  have hrejected := (mem_rejected_iff hrcs).mpr
      ⟨hmem, t, hstripe, id, hid, ⟨f, hmem, hsends, hstripe⟩, huntracked⟩
  rw [← hnone] at hrejected
  cases hrejected

def Reaches : GroupView → Target → Prop
  | rr view _, target => target.storageId < view.storages ∧ target.storageId < 2 ^ 16
  | ec _, _ => True

theorem pointer_of_mem_computeAddress {place : Nat → Nat} {dataSize : Nat}
    (h : f ∈ computeAddress place dataSize offsets) : ∃ offset, f.pointer = place offset := by
  induction offsets with
  | nil => cases h
  | cons offset rest ih =>
    cases rest with
    | nil =>
      rw [mem_singleton.mp h]
      exact ⟨offset, rfl⟩
    | cons next rest =>
      rcases mem_cons.mp h with rfl | h
      · exact ⟨offset, rfl⟩
      · exact ih h

theorem mapKey_place {groupId : Nat} (hid : target.storageId < 2 ^ 16) {rrView : RrView}
    {offset : Nat} (hf : f.pointer = (rr rrView groupId).place target offset) :
    RrView.mapKey f = target.storageId := by
  have hlow : wrap 64 (target.offset + offset) < 2 ^ 64 := wrap_lt 64 _
  have hshift : wrap 128 (target.storageId <<< storageIdBitOffset) = 2 ^ 64 * target.storageId := by
    rw [storageIdBitOffset, Nat.shiftLeft_eq, wrap_of_lt (by omega), mul_comm]
  have hsum : 2 ^ 64 * target.storageId ||| wrap 64 (target.offset + offset) =
      2 ^ 64 * target.storageId + wrap 64 (target.offset + offset) :=
    (Nat.two_pow_add_eq_or_of_lt hlow _).symm
  rw [RrView.mapKey, Rr.getStoragePointer, hf, place, Rr.getGlobalPointer, hshift, Nat.or_assoc,
    hsum, groupBits_or groupId (by omega), groupBits_eq, storageIdBitOffset, Nat.shiftRight_eq_div_pow,
    wrap]
  omega

theorem routable_written (hreach : view.Reaches target) (dataSize : Nat) (offsets : List Nat) :
    view.Routable (computeAddress (view.place target) dataSize offsets) := by
  intro f hf
  obtain ⟨offset, hptr⟩ := pointer_of_mem_computeAddress hf
  cases view with
  | ec g => exact ⟨0, Nat.add_pos_left g.dataShards_pos _, rfl⟩
  | rr view groupId =>
    exact ⟨target.storageId, hreach.1, decide_eq_true (mapKey_place hreach.2 hptr)⟩

theorem returns_write (h : Returns (view.write target data offsets) tables rv tables') :
    rv = computeAddress (view.place target) data.length offsets ∧
      ∃ refcounts, view.extractRefcounts rv = .ok refcounts ∧
        tables' = view.register target refcounts tables := by
  simp only [write, returns_bind, returns_computed, returns_modify, returns_pure] at h
  obtain ⟨refcounts, _, ⟨hrefs, rfl⟩, _, _, rfl, rfl, rfl⟩ := h
  exact ⟨rfl, refcounts, hrefs, rfl⟩

theorem write_adds (hreach : view.Reaches target)
    (h : Returns (view.write target data offsets) tables rv tables')
    (hfits : ∀ id, id < view.storages → ∀ t, (tables id t).getD 0 +
    (view.occurrences rv id).count t < 2 ^ 64) :
    ∀ id, id < view.storages → Adds (tables id) (tables' id) (view.occurrences rv id) := by
  obtain ⟨rfl, refcounts, hrefs, rfl⟩ := returns_write h
  intro id hid
  have hrcs := extractRefcounts_eq hrefs hid
  by_cases hwrs : view.writesTo target id = true
  · simp only [register, hwrs, if_true, hrcs]
    exact increment_adds (fun h => absurd h (by decide)) (hfits id hid)
  · have hnone : view.occurrences (computeAddress (view.place target) data.length offsets) id =
        [] := by
      cases view with
      | ec g => exact absurd (decide_eq_true hid) hwrs
      | rr view groupId =>
        have hne : ¬ id = target.storageId := fun heq => hwrs (decide_eq_true heq)
        rw [occurrences, filter_eq_nil_iff.mpr, flatMap_nil]
        intro f hf
        obtain ⟨offset, hptr⟩ := pointer_of_mem_computeAddress hf
        simp only [sends, mapKey_place hreach.2 hptr, decide_eq_true_eq]
        exact fun heq => hne heq.symm
    rw [hnone]
    simp only [register, hwrs]
    exact Adds.refl _

theorem unlink_drops (hroutable : view.Routable addr) {tables : Nat → RefTable}
    (hheld : ∀ id, id < view.storages → ∀ t ∈ view.occurrences addr id,
      (view.occurrences addr id).count t ≤ (tables id t).getD 0)
    (hfits : ∀ id t, (view.occurrences addr id).count t < 2 ^ 64) :
    ∃ tables', Returns (view.unlink addr) tables () tables' ∧
      ∀ id, id < view.storages → Drops (tables id) (tables' id) (view.occurrences addr id) := by
  obtain ⟨refcounts, hrefs⟩ := extractRefcounts_ok hroutable
  have hrun : ∀ id, id < view.storages → ∃ freed dbi',
      decrementTxn (refcounts id) (tables id) = .ok (freed, dbi') ∧
        Drops (tables id) dbi' (view.occurrences addr id) := by
    intro id hid
    rw [extractRefcounts_eq hrefs hid]
    exact decrementTxn_drops (hheld id hid) (hfits id)
  have hnone : firstError view.storages refcounts tables = none := by
    rw [firstError, findSome?_eq_none_iff]
    intro id hid
    obtain ⟨freed, dbi', hone, _⟩ := hrun id (mem_range.mp hid)
    simp only [hone]
  refine ⟨decrementTables view.storages refcounts tables,
    Returns.bind (returns_computed.mpr ⟨hrefs, rfl⟩) ?_, ?_⟩
  · simp only [Returns, unlinkStorages, run_act, hnone]
  · intro id hid
    obtain ⟨freed, dbi', hone, hdrops⟩ := hrun id hid
    simp only [decrementTables, hid, if_true, hone]
    exact hdrops

end GroupView

end UhCore.Group
