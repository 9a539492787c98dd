import UhCore.Proxy.Manager

/-!
What holds in every run of the disk cache. Every handle has one place: a sink,
a put that waits, the cache, the deletion queue, or the list of those that were
unlinked. The objects that were not unlinked have places of their own in the
storage, which hold what was written.
-/

namespace UhCore.Proxy.Disk

open Entrypoint (Text)
open Transition List Option Function List.Subset LruCache PendingPut

variable {σ : Type} {dv : DataView σ} {s : Disk σ}

/-- The places of the handles, all together. -/
def owned (s : Disk σ) : List Nat :=
  s.sinks ++ s.puts.map objh ++ s.cache.entries ++ s.deletionQueue ++ s.unlinked

/-- No handle is in two places. -/
structure Ledger (s : Disk σ) : Prop where
  once : ∀ id, s.owned.count id ≤ 1
  created : ∀ id ∈ s.owned, id < s.created

theorem Ledger.of_count_le {s' : Disk σ} (h : Ledger s) (hcreate : s.created ≤ s'.created)
    (hcount : ∀ id, s'.owned.count id ≤ s.owned.count id) : Ledger s' where
  once id := (hcount id).trans (h.once id)
  created id hid := by
    have hpos := count_pos_iff.mpr hid
    exact (h.created id (count_pos_iff.mp (hpos.trans_le (hcount id)))).trans_le hcreate

theorem count_owned (s : Disk σ) (id : Nat) :
    s.owned.count id = s.sinks.count id + (s.puts.map objh).count id +
      s.cache.entries.count id + s.deletionQueue.count id + s.unlinked.count id := by
  simp only [owned, count_append]

structure Stored (dv : DataView σ) (storage : σ) (h : ObjectHandle) : Prop where
  content : dv.readAddress storage h.address = h.content
  inUse : ∀ p ∈ places h.address, dv.InUse storage p

/-- The bytes that the calls asked for so far, or have asked for with the last
call, are the first ones of the object. -/
structure Follows (h : ObjectHandle) (r : DiskSource) : Prop where
  offset : OffsetOk (h.address.drop r.addrIndex) r.fragOffset
  left : (places (h.address.drop r.addrIndex)).drop r.fragOffset =
    (places h.address).drop r.requested
  returned : r.reading = none → r.received = h.content.take r.requested
  reading : ∀ addr, r.reading = some addr → ∃ before room,
    r.requested = before + room ∧ r.received = h.content.take before ∧
      places addr = ((places h.address).drop before).take room

/-- The object is not written to any more, and was not unlinked. -/
structure Held (s : Disk σ) (id : Nat) : Prop where
  created : id < s.created
  finished : id ∉ s.sinks
  kept : id ∉ s.unlinked

structure Content (dv : DataView σ) (s : Disk σ) : Prop where
  stored : ∀ id < s.created, id ∉ s.unlinked → Stored dv s.storage (s.handles id)
  apart : ∀ id < s.created, ∀ id' < s.created, id ∉ s.unlinked → id' ∉ s.unlinked → id ≠ id' →
    List.Disjoint (places (s.handles id).address) (places (s.handles id').address)
  held : ∀ r ∈ s.sources, Held s r.objh
  follows : ∀ r ∈ s.sources, Follows (s.handles r.objh) r

/-- With the same objects in the storage, there may be fewer sinks and sources. -/
theorem Content.frame {t : Disk σ} (h : Content dv s) (hstor : t.storage = s.storage)
    (hhandles : t.handles = s.handles) (hcreate : t.created = s.created)
    (hunlink : t.unlinked = s.unlinked) (hsinks : t.sinks ⊆ s.sinks)
    (hsrcs : t.sources ⊆ s.sources) : Content dv t := by
  constructor
  · rw [hstor, hhandles, hcreate, hunlink]
    exact h.stored
  · rw [hhandles, hcreate, hunlink]
    exact h.apart
  · intro r hr
    have hold := h.held r (hsrcs hr)
    exact ⟨hcreate ▸ hold.created, fun hmem => hold.finished (hsinks hmem), hunlink ▸ hold.kept⟩
  · rw [hhandles]
    exact fun r hr => h.follows r (hsrcs hr)

structure Inv (dv : DataView σ) (s : Disk σ) : Prop where
  ledger : Ledger s
  content : Content dv s

theorem inv_start (storage : σ) (capacity : Nat) : Inv dv (start storage capacity) where
  ledger := ⟨by simp [owned, start, entries, empty],
    by simp [owned, start, entries, empty]⟩
  content :=
    { stored := fun id hid => absurd hid (Nat.not_lt_zero id)
      apart := fun id hid => absurd hid (Nat.not_lt_zero id)
      held := nofun
      follows := nofun }

section Writes

variable {storage : σ} {h : ObjectHandle} {id : Nat}

theorem Stored.of_keeps {storage' : σ} (hs : Stored dv storage h)
    (hkeeps : ∀ p ∈ places h.address, dv.InUse storage p →
      dv.InUse storage' p ∧ dv.byteAt storage' p = dv.byteAt storage p) : Stored dv storage' h where
  content := by
    rw [← hs.content]
    exact map_congr_left fun p hp => (hkeeps p hp (hs.inUse p hp)).2
  inUse p hp := (hkeeps p hp (hs.inUse p hp)).1

theorem Stored.write (hs : Stored dv storage h) (data : Text) :
    Stored dv (dv.write storage data).2
      { h with
        address := h.address ++ (dv.write storage data).1
        content := h.content ++ data } := by
  have hold := hs.of_keeps fun p _ hp => dv.write_keeps storage data p hp
  constructor
  · change (places (h.address ++ _)).map _ = _
    rw [places_append, map_append, dv.write_data]
    exact congrArg (· ++ data) hold.content
  · intro p hp
    rw [places_append, mem_append] at hp
    exact hp.elim (hold.inUse p) (dv.write_inUse storage data p)

theorem Ledger.newSink (h : Ledger s) : Ledger s.newSink where
  once id := by
    have hcount : s.newSink.owned.count id = s.owned.count id + if s.created = id then 1 else 0 := by
      simp only [count_owned, Disk.newSink, count_cons, beq_iff_eq]
      omega
    rw [hcount]
    split
    case isTrue heq =>
      have hnot : s.owned.count id = 0 :=
        count_eq_zero.mpr fun hmem => absurd (h.created id hmem) (by omega)
      omega
    case isFalse => simpa using h.once id
  created id hid := by
    have hcases : id = s.created ∨ id ∈ s.owned := by simpa [owned, Disk.newSink] using hid
    rcases hcases with rfl | hold
    · exact Nat.lt_succ_self _
    · exact (h.created id hold).trans (Nat.lt_succ_self _)

theorem Content.newSink (h : Content dv s) : Content dv s.newSink where
  stored id hid hkept := by
    by_cases heq : id = s.created
    · subst heq
      have hnew : s.newSink.handles s.created = ⟨[], 0, []⟩ := update_self ..
      rw [hnew]
      exact ⟨rfl, nofun⟩
    · have hsame : s.newSink.handles id = s.handles id := update_of_ne heq ..
      rw [hsame]
      exact h.stored id (by simp [Disk.newSink] at hid; omega) hkept
  apart id hid id' hid' hkept hkept' hne := by
    simp only [Disk.newSink] at hid hid' ⊢
    by_cases heq : id = s.created
    · subst heq
      simp
    · by_cases heq' : id' = s.created
      · subst heq'
        simp
      · rw [update_of_ne heq, update_of_ne heq']
        exact h.apart id (by omega) id' (by omega) hkept hkept' hne
  held r hr := by
    have hold := h.held r hr
    refine ⟨hold.created.trans (Nat.lt_succ_self _), ?_, hold.kept⟩
    intro hmem
    rcases mem_cons.mp hmem with heq | hsink
    · exact absurd hold.created (by omega)
    · exact hold.finished hsink
  follows r hr := by
    have hne : r.objh ≠ s.created := (h.held r hr).created.ne
    have hsame : s.newSink.handles r.objh = s.handles r.objh := update_of_ne hne ..
    rw [hsame]
    exact h.follows r hr

theorem Content.sinkPut (h : Content dv s) (hid : id < s.created) (hsink : id ∈ s.sinks)
    (hkept : id ∉ s.unlinked) (data : Text) (failed : Bool) :
    Content dv (s.sinkPut dv id data failed) := by
  unfold Disk.sinkPut
  split
  · exact h
  have hother : ∀ {id'}, id' ≠ id → ∀ v, update s.handles id v id' = s.handles id' :=
    fun hne v => update_of_ne hne v s.handles
  have hfresh : ∀ id' < s.created, id' ∉ s.unlinked →
      List.Disjoint (places (dv.write s.storage data).1) (places (s.handles id').address) :=
    fun id' hid' hkept' p hp hp' =>
      dv.write_fresh s.storage data p hp ((h.stored id' hid' hkept').inUse p hp')
  have hnew : ∀ id' < s.created, id' ∉ s.unlinked → id ≠ id' →
      List.Disjoint (places ((s.handles id).address ++ (dv.write s.storage data).1))
        (places (s.handles id').address) := by
    intro id' hid' hkept' hne
    rw [places_append, disjoint_append_left]
    exact ⟨h.apart id hid id' hid' hkept hkept' hne, hfresh id' hid' hkept'⟩
  constructor
  · intro id' hid' hkept'
    by_cases heq : id' = id
    · subst heq
      simp only [update_self]
      exact (h.stored id' hid' hkept').write data
    · simp only [hother heq]
      exact (h.stored id' hid' hkept').of_keeps fun p _ hp => dv.write_keeps s.storage data p hp
  · intro id₁ h₁ id₂ h₂ hk₁ hk₂ hne
    by_cases heq₁ : id₁ = id
    · subst heq₁
      simp only [update_self, hother hne.symm]
      exact hnew id₂ h₂ hk₂ hne
    · by_cases heq₂ : id₂ = id
      · subst heq₂
        simp only [update_self, hother heq₁]
        exact (hnew id₁ h₁ hk₁ hne.symm).symm
      · simp only [hother heq₁, hother heq₂]
        exact h.apart id₁ h₁ id₂ h₂ hk₁ hk₂ hne
  · exact fun r hr => ⟨(h.held r hr).created, (h.held r hr).finished, (h.held r hr).kept⟩
  · intro r hr
    have hne : r.objh ≠ id := fun heq => (h.held r hr).finished (heq ▸ hsink)
    simp only [hother hne]
    exact h.follows r hr

theorem Content.setHeaderSize (h : Content dv s) (hsink : id ∈ s.sinks) (size : Nat) :
    Content dv (s.setHeaderSize id size) := by
  have haddr : ∀ id', ((s.setHeaderSize id size).handles id').address =
      (s.handles id').address := by
    intro id'
    by_cases heq : id' = id
    · subst heq
      simp [Disk.setHeaderSize]
    · simp [Disk.setHeaderSize, heq]
  have hcont : ∀ id', ((s.setHeaderSize id size).handles id').content =
      (s.handles id').content := by
    intro id'
    by_cases heq : id' = id
    · subst heq
      simp [Disk.setHeaderSize]
    · simp [Disk.setHeaderSize, heq]
  constructor
  · intro id' hid' hkept'
    have hold := h.stored id' hid' hkept'
    exact ⟨by rw [haddr, hcont]; exact hold.content, by rw [haddr]; exact hold.inUse⟩
  · intro id₁ h₁ id₂ h₂ hk₁ hk₂ hne
    rw [haddr, haddr]
    exact h.apart id₁ h₁ id₂ h₂ hk₁ hk₂ hne
  · exact fun r hr => ⟨(h.held r hr).created, (h.held r hr).finished, (h.held r hr).kept⟩
  · intro r hr
    have hne : r.objh ≠ id := fun heq => (h.held r hr).finished (heq ▸ hsink)
    have hsame : (s.setHeaderSize id size).handles r.objh = s.handles r.objh :=
      update_of_ne hne ..
    rw [hsame]
    exact h.follows r hr

end Writes

section Unlinks

theorem Content.unlink (h : Content dv s) {evicted : List Nat}
    (hcreate : ∀ id ∈ evicted, id < s.created) (hkept : ∀ id ∈ evicted, id ∉ s.unlinked)
    (hidle : ∀ r ∈ s.sources, r.objh ∉ evicted) : Content dv (s.unlink dv evicted) := by
  have houtside : ∀ id < s.created, id ∉ evicted ++ s.unlinked → ∀ p ∈ places (s.handles id).address,
      p ∉ places (s.gatherAddress evicted) := by
    intro id hid hnot p hp hgather
    rw [mem_append, not_or] at hnot
    obtain ⟨f, hf, hpf⟩ := mem_flatMap.mp hgather
    obtain ⟨id', hid', hf'⟩ := mem_flatMap.mp hf
    have hne : id ≠ id' := fun heq => hnot.1 (heq ▸ hid')
    exact h.apart id hid id' (hcreate id' hid') hnot.2 (hkept id' hid') hne hp
      (mem_flatMap.mpr ⟨f, hf', hpf⟩)
  constructor
  · intro id hid hnot
    refine (h.stored id hid fun hmem => hnot (mem_append_right _ hmem)).of_keeps ?_
    exact fun p hp huse =>
      dv.unlink_keeps s.storage (s.gatherAddress evicted) p huse (houtside id hid hnot p hp)
  · intro id₁ h₁ id₂ h₂ hk₁ hk₂ hne
    exact h.apart id₁ h₁ id₂ h₂ (fun hmem => hk₁ (mem_append_right _ hmem))
      (fun hmem => hk₂ (mem_append_right _ hmem)) hne
  · intro r hr
    have hold := h.held r hr
    refine ⟨hold.created, hold.finished, ?_⟩
    intro hmem
    exact (mem_append.mp hmem).elim (hidle r hr) hold.kept
  · exact h.follows

variable {id : Nat}

/-- An entry of the cache that only the cache uses is read by no source. -/
theorem notMem_sources_of_useCount (hentry : id ∈ s.cache.entries) (hcount : s.useCount id = 1) :
    ∀ r ∈ s.sources, r.objh ≠ id := by
  intro r hr heq
  have hcache := count_pos_iff.mpr hentry
  have hsrc := count_pos_iff.mpr (List.mem_map.mpr ⟨r, hr, heq⟩)
  unfold useCount at hcount
  omega

theorem Ledger.created_of_pos (h : Ledger s) (hpos : 0 < s.owned.count id) : id < s.created :=
  h.created id (count_pos_iff.mp hpos)

theorem Ledger.entry_kept (h : Ledger s) (hentry : id ∈ s.cache.entries) : Held s id := by
  have hcache := count_pos_iff.mpr hentry
  have honce := h.once id
  have hcount := count_owned s id
  refine ⟨h.created_of_pos (by omega), ?_, ?_⟩
  · exact fun hmem => absurd (count_pos_iff.mpr hmem) (by omega)
  · exact fun hmem => absurd (count_pos_iff.mpr hmem) (by omega)

theorem Ledger.queued_kept (h : Ledger s) (hqueued : id ∈ s.deletionQueue) :
    id < s.created ∧ id ∉ s.unlinked := by
  have hqueue := count_pos_iff.mpr hqueued
  have honce := h.once id
  have hcount := count_owned s id
  refine ⟨h.created_of_pos (by omega), ?_⟩
  exact fun hmem => absurd (count_pos_iff.mpr hmem) (by omega)

theorem Ledger.sink_kept (h : Ledger s) (hsink : id ∈ s.sinks) :
    id < s.created ∧ id ∉ s.unlinked := by
  have hsinks := count_pos_iff.mpr hsink
  have honce := h.once id
  have hcount := count_owned s id
  refine ⟨h.created_of_pos (by omega), ?_⟩
  exact fun hmem => absurd (count_pos_iff.mpr hmem) (by omega)

end Unlinks

section Puts

theorem count_of_mem_erase {l : List Nat} {a : Nat} (h : a ∈ l) (id : Nat) :
    l.count id = (l.erase a).count id + if a = id then 1 else 0 := by
  rw [(perm_cons_erase h).count_eq, count_cons]
  simp

theorem count_owned_insert (s : Disk σ) (key : ObjectMetadata) (objh id : Nat) :
    (s.insert key objh).owned.count id = s.owned.count id + if objh = id then 1 else 0 := by
  have hput := (s.cache.perm_put key objh).count_eq id
  rw [count_append, count_cons] at hput
  rw [count_owned, count_owned]
  simp only [insert, count_append, beq_iff_eq] at hput ⊢
  omega

theorem Ledger.put (h : Ledger s) {id : Nat} (hsink : id ∈ s.sinks) (key : ObjectMetadata) :
    Ledger (s.put dv id key) := by
  have herase := count_of_mem_erase hsink
  unfold Disk.put
  split
  · refine h.of_count_le le_rfl fun id' => ?_
    have hevict := (s.cache.perm_evict s.useCount s.dataSize (s.requiredSize id)).count_eq id'
    rw [count_append] at hevict
    rw [count_owned, count_owned, herase id']
    simp only [Disk.unlink, map_cons, count_cons, count_append, beq_iff_eq]
    omega
  · refine h.of_count_le le_rfl fun id' => ?_
    rw [count_owned_insert, count_owned, count_owned, herase id']
    dsimp only
    omega

theorem Inv.content_put (h : Inv dv s) (id : Nat) (key : ObjectMetadata) :
    Content dv (s.put dv id key) := by
  unfold Disk.put
  split
  · have hentry : ∀ id' ∈ (s.cache.evict s.useCount s.dataSize (s.requiredSize id)).1,
        id' ∈ s.cache.entries := fun id' hid' =>
      (s.cache.perm_evict _ _ _).subset (mem_append_left _ hid')
    have hunlink := h.content.unlink (fun id' hid' => (h.ledger.entry_kept (hentry id' hid')).created)
      (fun id' hid' => (h.ledger.entry_kept (hentry id' hid')).kept)
      (fun r hr hmem => notMem_sources_of_useCount (hentry _ hmem)
        (useCount_of_mem_evict hmem) r hr rfl)
    exact hunlink.frame rfl rfl rfl rfl erase_subset (refl _)
  · exact h.content.frame rfl rfl rfl rfl erase_subset (refl _)

variable {p : PendingPut}

theorem count_map_erase {puts : List PendingPut} (h : p ∈ puts) (id : Nat) :
    (puts.map objh).count id =
      ((puts.erase p).map objh).count id + if p.objh = id then 1 else 0 := by
  rw [((perm_cons_erase h).map objh).count_eq, map_cons, count_cons]
  simp

theorem Inv.putDone (h : Inv dv s) (hp : p ∈ s.puts) (failed : Bool) :
    Inv dv (s.putDone p failed) := by
  unfold Disk.putDone
  split
  · refine ⟨h.ledger.of_count_le le_rfl fun id => ?_,
      h.content.frame rfl rfl rfl rfl (refl _) (refl _)⟩
    rw [count_owned, count_owned, count_map_erase hp id]
    dsimp only
    omega
  · refine ⟨h.ledger.of_count_le le_rfl fun id => ?_,
      h.content.frame rfl rfl rfl rfl (refl _) (refl _)⟩
    rw [count_owned_insert, count_owned, count_owned, count_map_erase hp id]
    dsimp only
    omega

end Puts

section Sources

variable {storage : σ} {h : ObjectHandle} {r : DiskSource} {addr : Address}

/-- Reading the places of a part of the object gives that part of it. -/
theorem Stored.slice (hs : Stored dv storage h) (start room : Nat) :
    (((places h.address).drop start).take room).map (dv.byteAt storage) =
      (h.content.drop start).take room := by
  rw [← hs.content, map_take, map_drop]
  rfl

/-- A source is added, or takes the place of another. -/
theorem Content.with_source (h : Content dv s) {sources : List DiskSource}
    (hsrcs : sources ⊆ s.sources) (hheld : Held s r.objh)
    (hfollows : Follows (s.handles r.objh) r) : Content dv { s with sources := r :: sources } where
  stored := h.stored
  apart := h.apart
  held r' hr' := by
    rcases mem_cons.mp hr' with rfl | hold
    · exact ⟨hheld.created, hheld.finished, hheld.kept⟩
    · have hkept := h.held r' (hsrcs hold)
      exact ⟨hkept.created, hkept.finished, hkept.kept⟩
  follows r' hr' := by
    rcases mem_cons.mp hr' with rfl | hold
    · exact hfollows
    · exact h.follows r' (hsrcs hold)

theorem follows_new (h : ObjectHandle) (id : Nat) : Follows h ⟨id, 0, 0, 0, [], none⟩ where
  offset := Nat.zero_le _
  left := rfl
  returned _ := rfl
  reading := nofun

theorem Inv.get (h : Inv dv s) (key : ObjectMetadata) : Inv dv (s.get key) := by
  have hperm := s.cache.perm_get key
  unfold Disk.get
  cases hget : s.cache.get key with
  | mk found cache =>
    rw [hget] at hperm
    have hledger : ∀ {t : Disk σ}, t.sinks = s.sinks → t.puts = s.puts → t.cache = cache →
        t.deletionQueue = s.deletionQueue → t.unlinked = s.unlinked → t.created = s.created →
        Ledger t := by
      intro t h₁ h₂ h₃ h₄ h₅ h₆
      refine h.ledger.of_count_le h₆.ge fun id => ?_
      rw [count_owned, count_owned, h₁, h₂, h₃, h₄, h₅, hperm.count_eq]
    have hframe : Content dv { s with cache := cache } :=
      h.content.frame rfl rfl rfl rfl (refl _) (refl _)
    cases found with
    | none => exact ⟨hledger rfl rfl rfl rfl rfl rfl, hframe⟩
    | some id =>
      have hlook : s.cache.lookup key = some id := by
        unfold LruCache.get at hget
        split at hget
        · next e he => rw [he, (Prod.mk.inj hget).1]
        · exact absurd (Prod.mk.inj hget).1 (by simp)
      have hheld := h.ledger.entry_kept (mem_entries_of_lookup hlook)
      refine ⟨hledger rfl rfl rfl rfl rfl rfl, ?_⟩
      exact hframe.with_source (refl _) ⟨hheld.created, hheld.finished, hheld.kept⟩
        (follows_new _ id)

theorem Follows.asking (hf : Follows h r) (hs : Stored dv storage h) (hidle : r.reading = none)
    (room : Nat) : Follows h (r.asking h room) := by
  have hsplit := getLoop_split (h.address.drop r.addrIndex) r.fragOffset room hf.offset
  unfold DiskSource.asking
  cases hloop : getLoop (h.address.drop r.addrIndex) r.fragOffset room with
  | mk addr rest =>
    obtain ⟨index, offset⟩ := rest
    rw [hloop] at hsplit
    have hread : places addr = ((places h.address).drop r.requested).take room := by
      rw [hsplit.read, hf.left]
    refine ⟨?_, ?_, ?_, ?_⟩
    · have hoff := hsplit.offset
      rwa [drop_drop] at hoff
    · have hleft := hsplit.left
      rwa [drop_drop, hf.left, drop_drop] at hleft
    · intro hnone
      have hempty : places addr = [] := by
        rw [← length_eq_zero_iff, length_places]
        dsimp only at hnone
        by_contra hpos
        rw [if_pos (pos_of_ne_zero hpos)] at hnone
        simp at hnone
      have hslice := hs.slice r.requested room
      rw [← hread, hempty] at hslice
      rw [take_add, ← hslice, hf.returned hidle]
      simp
    · intro addr' haddr
      dsimp only at haddr
      split at haddr
      · cases haddr
        exact ⟨r.requested, room, rfl, hf.returned hidle, hread⟩
      · simp at haddr

theorem Follows.answered (hf : Follows h r) (hs : Stored dv storage h)
    (hread : r.reading = some addr) : Follows h (r.answered (dv.readAddress storage addr)) := by
  obtain ⟨before, room, hrequested, hrecv, hplaces⟩ := hf.reading addr hread
  refine ⟨hf.offset, hf.left, fun _ => ?_, nofun⟩
  change r.received ++ (places addr).map _ = h.content.take r.requested
  rw [hrecv, hplaces, hs.slice, hrequested, take_add]

theorem Content.stored_source (h : Content dv s) (hr : r ∈ s.sources) :
    Stored dv s.storage (s.handles r.objh) :=
  h.stored r.objh (h.held r hr).created (h.held r hr).kept

theorem Content.read (h : Content dv s) (hr : r ∈ s.sources) (hidle : r.reading = none) (room : Nat)
    : Content dv (s.read r room) := by
  exact h.with_source erase_subset (h.held r hr)
    ((h.follows r hr).asking (h.stored_source hr) hidle room)

theorem Content.readDone (h : Content dv s) (hr : r ∈ s.sources) (hread : r.reading = some addr)
    (failed : Bool) : Content dv (s.readDone dv r addr failed) := by
  unfold Disk.readDone
  split
  · exact h.frame rfl rfl rfl rfl (refl _) erase_subset
  · exact h.with_source erase_subset (h.held r hr)
      ((h.follows r hr).answered (h.stored_source hr) hread)

end Sources

section Runs

theorem Ledger.of_owned_eq {t : Disk σ} (h : Ledger s) (howned : t.owned = s.owned)
    (hcreate : t.created = s.created) : Ledger t :=
  h.of_count_le hcreate.ge fun id => by rw [howned]

theorem Inv.evict (h : Inv dv s)
    (hidle : ∀ id ∈ (pop s.dataSize evictionSize s.deletionQueue).1, ∀ r ∈ s.sources, r.objh ≠ id) :
    Inv dv (s.evict dv) := by
  have hqueue := pop_append s.dataSize evictionSize s.deletionQueue
  unfold Disk.evict
  cases hpop : pop s.dataSize evictionSize s.deletionQueue with
  | mk evicted queue =>
    rw [hpop] at hidle hqueue
    dsimp only at hidle hqueue ⊢
    split
    · exact h
    have hqueued : ∀ id ∈ evicted, id ∈ s.deletionQueue := by
      intro id hid
      rw [← hqueue]
      exact mem_append_left _ hid
    have hunlink := h.content.unlink (fun id hid => (h.ledger.queued_kept (hqueued id hid)).1)
      (fun id hid => (h.ledger.queued_kept (hqueued id hid)).2)
      (fun r hr hmem => hidle _ hmem r hr rfl)
    refine ⟨h.ledger.of_count_le le_rfl fun id => ?_,
      hunlink.frame rfl rfl rfl rfl (refl _) (refl _)⟩
    rw [count_owned, count_owned, ← hqueue]
    simp only [Disk.unlink, count_append]
    omega

variable {action : Action} {s' : Disk σ}

theorem Inv.step (h : Inv dv s) (hok : s.Undisturbed action) (hnext : s.next dv action = some s') :
    Inv dv s' := by
  have hframe : ∀ {t : Disk σ}, t.storage = s.storage → t.handles = s.handles →
      t.created = s.created → t.unlinked = s.unlinked → t.sinks ⊆ s.sinks →
      t.sources ⊆ s.sources → Content dv t := fun h₁ h₂ h₃ h₄ h₅ h₆ =>
    h.content.frame h₁ h₂ h₃ h₄ h₅ h₆
  cases action with
  | newSink =>
    cases hnext
    exact ⟨h.ledger.newSink, h.content.newSink⟩
  | sinkPut id data failed =>
    obtain ⟨hsink, hnext⟩ := ite_none_right_eq_some.mp hnext
    cases hnext
    obtain ⟨hcreate, hkept⟩ := h.ledger.sink_kept hsink
    refine ⟨?_, h.content.sinkPut hcreate hsink hkept data failed⟩
    unfold Disk.sinkPut
    split
    · exact h.ledger
    · exact h.ledger.of_owned_eq rfl rfl
  | setHeaderSize id size =>
    obtain ⟨hsink, hnext⟩ := ite_none_right_eq_some.mp hnext
    cases hnext
    exact ⟨h.ledger.of_owned_eq rfl rfl, h.content.setHeaderSize hsink size⟩
  | put id key =>
    obtain ⟨hsink, hnext⟩ := ite_none_right_eq_some.mp hnext
    cases hnext
    exact ⟨h.ledger.put hsink key, h.content_put id key⟩
  | putDone p failed =>
    obtain ⟨hp, hnext⟩ := ite_none_right_eq_some.mp hnext
    cases hnext
    exact h.putDone hp failed
  | get key =>
    cases hnext
    exact h.get key
  | read r room =>
    obtain ⟨⟨hr, hidle⟩, hnext⟩ := ite_none_right_eq_some.mp hnext
    cases hnext
    exact ⟨h.ledger.of_owned_eq rfl rfl, h.content.read hr hidle room⟩
  | readDone r failed =>
    rw [next] at hnext
    split at hnext
    case h_2 => simp at hnext
    case h_1 addr hread =>
      obtain ⟨hr, hnext⟩ := ite_none_right_eq_some.mp hnext
      cases hnext
      refine ⟨?_, h.content.readDone hr hread failed⟩
      unfold Disk.readDone
      split <;> exact h.ledger.of_owned_eq rfl rfl
  | drop r =>
    obtain ⟨_, hnext⟩ := ite_none_right_eq_some.mp hnext
    cases hnext
    exact ⟨h.ledger.of_owned_eq rfl rfl, hframe rfl rfl rfl rfl (refl _) erase_subset⟩
  | evict =>
    obtain ⟨_, hnext⟩ := ite_none_right_eq_some.mp hnext
    cases hnext
    exact h.evict hok
  | evictDone failed =>
    rw [next] at hnext
    split at hnext
    case h_2 => simp at hnext
    case h_1 evicted _ =>
      cases hnext
      exact ⟨h.ledger.of_owned_eq rfl rfl,
        hframe rfl rfl rfl rfl (refl _) (refl _)⟩

theorem Inv.served (h : Inv dv s) : s.Served := fun r hr => (h.content.held r hr).kept

/-- A round of the eviction task passes what it takes to the unlink. -/
theorem not_served_evict {id : Nat} {r : DiskSource}
    (hid : id ∈ (pop s.dataSize evictionSize s.deletionQueue).1) (hr : r ∈ s.sources)
    (hobjh : r.objh = id) : ¬ (s.evict dv).Served := by
  unfold Disk.evict
  cases hpop : pop s.dataSize evictionSize s.deletionQueue with
  | mk evicted queue =>
    rw [hpop] at hid
    dsimp only at hid ⊢
    rw [if_neg (ne_nil_of_mem hid)]
    intro hserved
    exact hserved r hr (mem_append_left _ (hobjh ▸ hid))

theorem undisturbed_of_served (hnext : s.next dv action = some s') (hserved : s'.Served) :
    s.Undisturbed action := by
  cases action with
  | evict =>
    obtain ⟨_, hnext⟩ := ite_none_right_eq_some.mp hnext
    cases hnext
    exact fun id hid r hr hobjh => not_served_evict hid hr hobjh hserved
  | _ => trivial

/-- In every run whose rounds of the eviction task find no source of what they
take from the deletion queue, the object of a source is never passed to the
unlink of the storage, and the calls of `get` return what was stored. A step
from a state of such a run leaves all objects that are read in the storage if
and only if it meets the condition. -/
theorem served_objects_kept (dv : DataView σ) (storage : σ) (capacity : Nat)
    (hs : Reachable (next dv) Undisturbed (start storage capacity) s) :
    s.Served ∧ s.ReadsBack ∧
      ∀ action s', s.next dv action = some s' → (s'.Served ↔ s.Undisturbed action) := by
  have hinv : Inv dv s :=
    hs.invariant (inv_start storage capacity) fun _ _ _ h hok hnext => h.step hok hnext
  refine ⟨hinv.served, fun r hr => (hinv.content.follows r hr).returned, ?_⟩
  intro action s' hnext
  exact ⟨undisturbed_of_served hnext, fun hok => (hinv.step hok hnext).served⟩

def replacedWhileRead (key : ObjectMetadata) : List Action :=
  [.newSink, .sinkPut 0 ['a', 'b'] false, .put 0 key, .get key,
    .read ⟨0, 0, 0, 0, [], none⟩ 1, .readDone ⟨0, 0, 1, 1, [], some [⟨0, 1⟩]⟩ false,
    .newSink, .sinkPut 1 ['c'] false, .put 1 key]

theorem served_objects_kept_replaced :
    ∃ s, Reachable (next appending) Undisturbed (start [] 100) s ∧
      (s.deletionQueue = [0] ∧ s.sources.map DiskSource.received = [['a', 'b']]) ∧
      s.Served ∧ s.ReadsBack ∧
        ∀ action s', s.next appending action = some s' → (s'.Served ↔ s.Undisturbed action) :=
  exists_sample
    (replacedWhileRead ⟨['k'], []⟩ ++
      [.read ⟨0, 0, 1, 1, ['a'], none⟩ 5, .readDone ⟨0, 1, 0, 6, ['a'], some [⟨1, 1⟩]⟩ false])
    (by decide +kernel) fun _ hs _ => served_objects_kept appending [] 100 hs

/-- The eviction task unlinks an object that was replaced while a source reads
it, and the next call of `get` does not return what was stored. -/
theorem replaced_object_freed :
    ∃ s, Reachable (next appending) (fun _ _ => True) (start [] 100) s ∧
      ¬ s.Served ∧ ¬ s.ReadsBack :=
  exists_reachable_of_runWhile _
    (replacedWhileRead ⟨['k'], []⟩ ++
      [.evict, .read ⟨0, 0, 1, 1, ['a'], none⟩ 5,
        .readDone ⟨0, 1, 0, 6, ['a'], some [⟨1, 1⟩]⟩ false])
    (by decide +kernel)

end Runs

end UhCore.Proxy.Disk
