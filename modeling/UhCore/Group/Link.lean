import UhCore.Group.EcView
import UhCore.Storage.ReferenceCounter

/-!
Links of the round robin and the erasure coding data view. An address is
turned into reference counts, one for each stripe, which every storage adds to
the stripes it tracks; a fragment is rejected when one of its stripes was not
tracked.
-/

namespace UhCore.Group

open Words Storage List Option Refcount

/-- Increment the entry of a stripe in an ordered map. -/
def bump (stripeId : Nat) : List Refcount → List Refcount
  | [] => [⟨stripeId, 1⟩]
  | rc :: rest =>
    if stripeId < rc.stripeId then ⟨stripeId, 1⟩ :: rc :: rest
    else if stripeId = rc.stripeId then ⟨stripeId, wrap 64 (rc.count + 1)⟩ :: rest
    else rc :: bump stripeId rest

def stripeLoop (firstStripe lastStripe : Nat) : List Nat :=
  List.range' firstStripe (lastStripe + 1 - firstStripe)

def countStripes (stripes : List Nat) : List Refcount :=
  stripes.foldl (fun rcs stripeId => bump stripeId rcs) []

def computeRejectedAddress (stripes : Fragment → List Nat)
    (rejectedRefcounts : List (List Refcount)) (originalAddr : Address) : Address :=
  let rejectedStripes := rejectedRefcounts.flatten.map stripeId
  if rejectedStripes.isEmpty then []
  else originalAddr.filter (fun frag =>
    (stripes frag).any (fun stripeId => decide (stripeId ∈ rejectedStripes)))

/-- Link every storage with its reference counts; returns what they reject. -/
def linkStorages (storages : Nat) (refcounts : Nat → List Refcount) (tables : Nat → RefTable) :
    List (List Refcount) × (Nat → RefTable) :=
  ((List.range storages).map (fun id => (increment (refcounts id) true (tables id)).1),
    fun id => if id < storages then (increment (refcounts id) true (tables id)).2 else tables id)

/-- What the round robin view takes from its configuration. -/
structure RrView where
  storages : Nat
  stripeSize : Nat
  stripeSize_gt : 1 < stripeSize

namespace RrView

variable (view : RrView)

def stripes (frag : Fragment) : List Nat :=
  let localPointer := (Rr.getStoragePointer frag.pointer).2
  stripeLoop (localPointer / view.stripeSize)
    (wsub 64 (localPointer + frag.size) 1 / view.stripeSize)

/-- The storage whose counts a fragment is added to: the map of the source has
16-bit keys. -/
def mapKey (frag : Fragment) : Nat := wrap 16 (Rr.getStoragePointer frag.pointer).1

def extractRefcounts (addr : Address) : Except Exn (List (List Refcount)) :=
  if addr.all (fun frag => decide (mapKey frag < view.storages)) then
    .ok ((List.range view.storages).map (fun id =>
      countStripes ((addr.filter (fun frag => mapKey frag = id)).flatMap view.stripes)))
  else .error (.undefinedBehaviour "refcounts_by_storage[storage_id]")

def link (tables : Nat → RefTable) (addr : Address) :
    Except Exn (Address × (Nat → RefTable)) := do
  let refcountsByStorage ← view.extractRefcounts addr
  let (refcounts, tables') :=
    linkStorages view.storages (fun id => refcountsByStorage.getD id []) tables
  pure (computeRejectedAddress view.stripes refcounts addr, tables')

end RrView

namespace EcGeometry

variable (g : EcGeometry)

def fragmentStripes (frag : Fragment) : List Nat :=
  let groupPointer := getGroupPointer frag.pointer
  stripeLoop (wrap 64 (groupPointer / g.stripeSize))
    (wrap 64 (wsub 128 (groupPointer + frag.size) 1 / g.stripeSize))

def extractRefcounts (addr : Address) : List Refcount :=
  countStripes (addr.flatMap g.fragmentStripes)

def link (tables : Nat → RefTable) (addr : Address) : Address × (Nat → RefTable) :=
  let refcounts := g.extractRefcounts addr
  let (linkRvs, tables') := linkStorages g.storages (fun _ => refcounts) tables
  (computeRejectedAddress g.fragmentStripes linkRvs addr, tables')

end EcGeometry

theorem wrap_countOf_bump (v x : Nat) (rcs : List Refcount) (t : Nat) :
    wrap 64 (v + countOf (bump x rcs) t) =
      wrap 64 (v + (countOf rcs t + if x = t then 1 else 0)) := by
  induction rcs generalizing v with
  | nil =>
    simp only [bump, countOf_cons]
    rw [add_comm (countOf [] t)]
  | cons rc rest ih =>
    simp only [bump]
    split
    · simp only [countOf_cons]
      congr 2
      omega
    · split
      · rename_i heq
        subst heq
        by_cases ht : rc.stripeId = t
        · simp only [countOf_cons, ht, if_true]
          rw [add_left_comm, wrap_wrap_add]
          congr 1
          omega
        · simp [countOf_cons, ht]
      · rw [countOf_cons, countOf_cons, ← add_assoc, ih]
        congr 1
        omega

variable {t : Nat} {rcs : List Refcount} {dbi : RefTable}

theorem mem_bump {x : Nat} : t ∈ (bump x rcs).map stripeId ↔ t = x ∨ t ∈ rcs.map stripeId := by
  induction rcs with
  | nil => simp [bump]
  | cons rc rest ih =>
    simp only [bump]
    split
    · simp
    · split
      · rename_i heq
        simp [heq]
      · simp only [map_cons, mem_cons, ih]
        tauto

theorem wrap_countOf_countStripes (v : Nat) (stripes : List Nat) (t : Nat) :
    wrap 64 (v + countOf (countStripes stripes) t) = wrap 64 (v + stripes.count t) := by
  have hfold : ∀ (l : List Nat) (rcs : List Refcount) (v : Nat),
      wrap 64 (v + countOf (l.foldl (fun rcs x => bump x rcs) rcs) t) =
        wrap 64 (v + (countOf rcs t + l.count t)) := by
    intro l
    induction l with
    | nil => simp
    | cons x rest ih =>
      intro rcs v
      have hone : (x :: rest).count t = rest.count t + if x = t then 1 else 0 := by
        rw [count_cons]
        simp
      rw [foldl_cons, ih, add_comm (countOf _ t), ← add_assoc, wrap_countOf_bump, hone]
      congr 1
      omega
  rw [countStripes, hfold]
  simp [countOf]

theorem mem_countStripes {stripes : List Nat} :
    t ∈ (countStripes stripes).map stripeId ↔ t ∈ stripes := by
  have hfold : ∀ (l : List Nat) (rcs : List Refcount),
      t ∈ (l.foldl (fun rcs x => bump x rcs) rcs).map stripeId ↔
        t ∈ l ∨ t ∈ rcs.map stripeId := by
    intro l
    induction l with
    | nil => simp
    | cons x rest ih =>
      intro rcs
      rw [foldl_cons, ih, mem_bump, mem_cons]
      tauto
  rw [countStripes, hfold]
  simp

theorem increment_link (rcs : List Refcount) (dbi : RefTable) (t : Nat) {v : Nat}
    (hv : dbi t = some v) (hlt : v < 2 ^ 64) :
    (increment rcs true dbi).2 t = some (wrap 64 (v + countOf rcs t)) := by
  rw [increment_eq, hv]
  by_cases hin : t ∈ rcs.map stripeId
  · rw [if_pos ⟨hin, fun _ => rfl⟩, getD_some]
  · rw [if_neg fun h => hin h.1, countOf_eq_zero hin, add_zero, wrap_of_lt hlt]

theorem increment_untracked (rcs : List Refcount) (hnone : dbi t = none) :
    (increment rcs true dbi).2 t = none := by
  rw [increment_eq, hnone, if_neg fun h => absurd (h.2 rfl) nofun]

theorem mem_increment_rejected :
    t ∈ (increment rcs true dbi).1.map stripeId ↔
      t ∈ rcs.map stripeId ∧ dbi t = none := by
  rw [increment_rejected, List.mem_map, List.mem_map]
  simp only [mem_filter, Bool.true_and, isNone_iff_eq_none]
  constructor
  · rintro ⟨rc, ⟨hrc, hnone⟩, rfl⟩
    exact ⟨⟨rc, hrc, rfl⟩, hnone⟩
  · rintro ⟨⟨rc, hrc, rfl⟩, hnone⟩
    exact ⟨rc, ⟨hrc, hnone⟩, rfl⟩

theorem computeRejectedAddress_eq_filter (stripes : Fragment → List Nat)
    (rejected : List (List Refcount)) (addr : Address) :
    computeRejectedAddress stripes rejected addr = addr.filter (fun f =>
      (stripes f).any fun t => decide (t ∈ rejected.flatten.map stripeId)) := by
  simp only [computeRejectedAddress]
  split
  · rename_i hempty
    rw [List.isEmpty_iff.mp hempty]
    simp
  · rfl

theorem mem_computeRejectedAddress {stripes : Fragment → List Nat}
    {rejected : List (List Refcount)} {addr : Address} {f : Fragment} :
    f ∈ computeRejectedAddress stripes rejected addr ↔
      f ∈ addr ∧ ∃ t ∈ stripes f, t ∈ rejected.flatten.map stripeId := by
  simp [computeRejectedAddress_eq_filter, mem_filter]

theorem count_flatMap_stripes {stripes : Fragment → List Nat} (hnodup : ∀ f, (stripes f).Nodup)
    (sent : Fragment → Bool) (addr : Address) (t : Nat) :
    ((addr.filter sent).flatMap stripes).count t =
      addr.countP (fun f => sent f && decide (t ∈ stripes f)) := by
  induction addr with
  | nil => rfl
  | cons f rest ih =>
    rw [countP_cons, ← ih, filter_cons]
    cases hsent : sent f with
    | false => simp
    | true =>
      have hone : (stripes f).count t = if t ∈ stripes f then 1 else 0 := by
        split
        · rename_i hmem
          exact count_eq_one_of_mem (hnodup f) hmem
        · rename_i hmem
          exact count_eq_zero_of_not_mem hmem
      simp [hone, add_comm]

/-- The counts of every stripe and storage grow by the number of fragments on
them that were not rejected. -/
def LinkExact (storages : Nat) (on : Fragment → Nat → Nat → Bool) (before after : Nat → RefTable)
    (addr rejected : Address) : Prop :=
  ∀ id, id < storages → ∀ t, (after id t).getD 0 =
    (before id t).getD 0 + addr.countP (fun f => decide (f ∉ rejected) && on f id t)

/-- A fragment has a stripe number that is not tracked on a storage that gets a
count for it. -/
def Rejects (storages : Nat) (stripes : Fragment → List Nat) (sent : Fragment → Nat → Bool)
    (tables : Nat → RefTable) (addr : Address) (f : Fragment) : Prop :=
  ∃ t ∈ stripes f, ∃ id, id < storages ∧ (∃ f' ∈ addr, sent f' id = true ∧ t ∈ stripes f') ∧
    tables id t = none

section Exact

variable {storages : Nat} {stripes : Fragment → List Nat} {sent : Fragment → Nat → Bool}
  {tables : Nat → RefTable} {addr : Address} {refcounts : Nat → List Refcount}
  (hrefcounts : ∀ id, id < storages →
    refcounts id = countStripes ((addr.filter (sent · id)).flatMap stripes))

include hrefcounts

theorem mem_rejected_iff {f : Fragment} :
    f ∈ computeRejectedAddress stripes (linkStorages storages refcounts tables).1 addr ↔
      f ∈ addr ∧ Rejects storages stripes sent tables addr f := by
  rw [mem_computeRejectedAddress]
  apply and_congr_right
  intro _
  apply exists_congr
  intro t
  apply and_congr_right
  intro _
  simp only [linkStorages, map_flatten, List.map_map, mem_flatten, List.mem_map,
    mem_range, Function.comp]
  constructor
  · rintro ⟨_, ⟨id, hid, rfl⟩, hmem⟩
    obtain ⟨hkey, hnone⟩ := mem_increment_rejected.mp hmem
    rw [hrefcounts id hid, mem_countStripes, mem_flatMap] at hkey
    obtain ⟨f', hf', hstripe⟩ := hkey
    obtain ⟨hmem', hsent⟩ := mem_filter.mp hf'
    exact ⟨id, hid, ⟨f', hmem', hsent, hstripe⟩, hnone⟩
  · rintro ⟨id, hid, ⟨f', hmem', hsent, hstripe⟩, hnone⟩
    refine ⟨_, ⟨id, hid, rfl⟩, mem_increment_rejected.mpr ⟨?_, hnone⟩⟩
    rw [hrefcounts id hid, mem_countStripes, mem_flatMap]
    exact ⟨f', mem_filter.mpr ⟨hmem', hsent⟩, hstripe⟩

theorem linkStorages_tracked (hnodup : ∀ f, (stripes f).Nodup) {id t v : Nat}
    (hid : id < storages) (hv : tables id t = some v) (hlt : v < 2 ^ 64) :
    (linkStorages storages refcounts tables).2 id t =
      some (wrap 64 (v + addr.countP (fun f => sent f id && decide (t ∈ stripes f)))) := by
  simp only [linkStorages, hid, if_true]
  rw [increment_link _ _ _ hv hlt, hrefcounts id hid, wrap_countOf_countStripes,
    count_flatMap_stripes hnodup]

end Exact

end UhCore.Group
