import UhCore.Proxy.Handler
import UhCore.Proxy.Replay

/-!
How a round uses the disk cache when no call of the storage fails: what is
written to a sink is what the source of the object gives back.
-/

namespace UhCore.Proxy

open Entrypoint (Text Failure)
open Effects List Returns

/-- No call of the storage fails. -/
def Sound (faults : List (Option Failure)) : Prop := ∀ fault ∈ faults, fault = none

instance (faults : List (Option Failure)) : Decidable (Sound faults) :=
  inferInstanceAs (Decidable (∀ fault ∈ faults, _))

namespace Round

variable {σ : Type} {setup : Setup σ} {w : Round σ}

theorem returns_nextFault (h : Sound w.faults) :
    Returns nextFault w none { w with faults := w.faults.tail } ∧ Sound w.faults.tail := by
  have hhead : w.faults.headD none = none := by
    cases hfaults : w.faults with
    | nil => rfl
    | cons fault rest => exact h fault (by rw [hfaults]; exact mem_cons_self)
  refine ⟨?_, fun fault hmem => h fault (mem_of_mem_tail hmem)⟩
  change (Except.ok (w.faults.headD none), _) = _
  rw [hhead]

theorem returns_onDisk (f : Disk σ → Disk σ) (w : Round σ) :
    Returns (onDisk f) w () { w with disk := f w.disk } := rfl

theorem returns_write (output : List Output) (w : Round σ) :
    Returns (write output) w () { w with output := w.output ++ output } := rfl

theorem returns_raiseFault (w : Round σ) : Returns (raiseFault none) w () w := rfl

/-- The same objects are stored and cached. -/
structure Kept (dv : DataView σ) (disk disk' : Disk σ) : Prop where
  inv : Disk.Inv dv disk'
  handles : disk'.handles = disk.handles
  cache : disk'.cache = disk.cache
  puts : disk'.puts = disk.puts

variable {dv : DataView σ} {id : Nat} {disk mid disk' : Disk σ} {r : DiskSource} {data : Text}

theorem Kept.trans (h : Kept dv disk mid) (h' : Kept dv mid disk') : Kept dv disk disk' :=
  ⟨h'.inv, h'.handles.trans h.handles, h'.cache.trans h.cache, h'.puts.trans h.puts⟩

/-- What a call of `get` leaves, with the source behind it. -/
structure Reading (dv : DataView σ) (disk disk' : Disk σ) (r : DiskSource) : Prop extends
    Kept dv disk disk' where
  source : r ∈ disk'.sources
  idle : r.reading = none

theorem returns_fetch (hinv : Disk.Inv setup.dataView w.disk) (hr : r ∈ w.disk.sources)
    (hidle : r.reading = none) (hsound : Sound w.faults) (room : Nat) :
    ∃ r' disk' faults',
      Returns (fetch setup r room) w
        ((((w.disk.handles r.objh).content.drop r.requested).take room), r')
        { w with disk := disk', faults := faults' } ∧
      Reading setup.dataView w.disk disk' r' ∧ Sound faults' ∧
      r'.objh = r.objh ∧ r'.requested = r.requested + room := by
  have hread : w.disk.next setup.dataView (.read r room) = some (w.disk.read r room) :=
    if_pos ⟨hr, hidle⟩
  have hok : w.disk.Undisturbed (.read r room) := trivial
  have hmid := hinv.step hok hread
  have hmem : r.asking (w.disk.handles r.objh) room ∈ (w.disk.read r room).sources := mem_cons_self
  have hdata : setup.dataView.readAddress w.disk.storage
      ((r.asking (w.disk.handles r.objh) room).reading.getD []) = _ :=
    (DiskSource.At.get ⟨hinv.content.follows r hr, hidle, rfl⟩ (hinv.content.stored_source hr) room).1
  cases hreading : (r.asking (w.disk.handles r.objh) room).reading with
  | none =>
    refine ⟨r.asking (w.disk.handles r.objh) room, w.disk.read r room, w.faults, ?_,
      ⟨⟨hmid, rfl, rfl, rfl⟩, hmem, hreading⟩, hsound, rfl, rfl⟩
    rw [← hdata, hreading]
    refine returns_get_bind.mpr (bind (returns_onDisk _ w) ?_)
    rw [hreading]
    exact rfl
  | some addr =>
    have hdone : (w.disk.read r room).next setup.dataView
        (.readDone (r.asking (w.disk.handles r.objh) room) false) =
        some ((w.disk.read r room).readDone setup.dataView
          (r.asking (w.disk.handles r.objh) room) addr false) := by
      rw [Disk.next, hreading]
      exact if_pos hmem
    have hok' : (w.disk.read r room).Undisturbed
        (.readDone (r.asking (w.disk.handles r.objh) room) false) := trivial
    have hlast := hmid.step hok' hdone
    obtain ⟨hfault, htail⟩ := returns_nextFault (w := { w with disk := w.disk.read r room }) hsound
    refine ⟨_, _, w.faults.tail, ?_, ⟨⟨hlast, rfl, rfl, rfl⟩, mem_cons_self, rfl⟩, htail, rfl, rfl⟩
    rw [← hdata, hreading]
    refine returns_get_bind.mpr (bind (returns_onDisk _ w) ?_)
    rw [hreading]
    apply hfault.bind
    apply bind (returns_onDisk _ _)
    exact bind (returns_raiseFault _) rfl

theorem returns_serveLoop {n : Nat} (hinv : Disk.Inv setup.dataView w.disk)
    (hr : r ∈ w.disk.sources) (hidle : r.reading = none) (hsound : Sound w.faults)
    (hn : (w.disk.handles r.objh).content.length < r.requested + n) :
    ∃ (chunks : List Text) (disk' : Disk σ) (faults' : List (Option Failure)),
      Returns (serveLoop setup n r) w ()
        { w with disk := disk', faults := faults', output := w.output ++ chunks.map .data } ∧
      chunks.flatten = (w.disk.handles r.objh).content.drop r.requested ∧
      Kept setup.dataView w.disk disk' ∧ Sound faults' := by
  induction n generalizing r w with
  | zero =>
    refine ⟨[], w.disk, w.faults, ?_, ?_, ⟨hinv, rfl, rfl, rfl⟩, hsound⟩
    · refine returns_pure.mpr ⟨rfl, ?_⟩
      simp
    · rw [drop_of_length_le (by omega)]
      rfl
  | succ n ih =>
    obtain ⟨r', disk', faults', hfetch, hread, hsound', hobjh, hrequested⟩ :=
      returns_fetch hinv hr hidle hsound loadSize
    by_cases hdata : ((w.disk.handles r.objh).content.drop r.requested).take loadSize = []
    · refine ⟨[], disk', faults', ?_, ?_, hread.toKept, hsound'⟩
      · apply hfetch.bind
        dsimp only
        rw [if_pos hdata]
        refine returns_pure.mpr ⟨rfl, ?_⟩
        simp
      · rw [take_eq_nil_iff] at hdata
        rw [hdata.resolve_left (by decide)]
        rfl
    · have hnext := ih
        (w := { w with
          disk := disk'
          faults := faults'
          output := w.output ++
            [.data (((w.disk.handles r.objh).content.drop r.requested).take loadSize)] })
        hread.inv hread.source hread.idle hsound'
        (by
          rw [hread.handles, hobjh, hrequested]
          have hpos : 0 < loadSize := by decide
          omega)
      obtain ⟨chunks, disk₂, faults₂, hloop, hflat, hkept, hsound₂⟩ := hnext
      refine ⟨((w.disk.handles r.objh).content.drop r.requested).take loadSize :: chunks, disk₂,
        faults₂, ?_, ?_, hread.toKept.trans hkept, hsound₂⟩
      · apply hfetch.bind
        dsimp only
        rw [if_neg hdata]
        apply bind (returns_write _ _)
        rw [append_assoc w.output] at hloop
        exact hloop
      · rw [flatten_cons, hflat, hread.handles, hobjh, hrequested, ← drop_drop, take_append_drop]

/-- From `disk` to `disk'` the data was written to a sink. -/
structure Written (dv : DataView σ) (disk disk' : Disk σ) (id : Nat) (data : Text) : Prop where
  inv : Disk.Inv dv disk'
  sink : id ∈ disk'.sinks
  content : (disk'.handles id).content = (disk.handles id).content ++ data
  headerSize : (disk'.handles id).headerSize = (disk.handles id).headerSize
  others : ∀ id' ≠ id, disk'.handles id' = disk.handles id'
  cache : disk'.cache = disk.cache
  puts : disk'.puts = disk.puts

theorem Written.refl (hinv : Disk.Inv dv disk) (hsink : id ∈ disk.sinks) :
    Written dv disk disk id [] :=
  ⟨hinv, hsink, (append_nil _).symm, rfl, fun _ _ => rfl, rfl, rfl⟩

theorem Written.trans {data' : Text} (h : Written dv disk mid id data)
    (h' : Written dv mid disk' id data') : Written dv disk disk' id (data ++ data') where
  inv := h'.inv
  sink := h'.sink
  content := by rw [h'.content, h.content, append_assoc]
  headerSize := h'.headerSize.trans h.headerSize
  others id' hne := (h'.others id' hne).trans (h.others id' hne)
  cache := h'.cache.trans h.cache
  puts := h'.puts.trans h.puts

theorem written_sinkPut (hinv : Disk.Inv setup.dataView disk) (hsink : id ∈ disk.sinks)
    (hdata : data ≠ []) :
    Written setup.dataView disk (disk.sinkPut setup.dataView id data false) id data := by
  have hok : disk.Undisturbed (.sinkPut id data false) := trivial
  have hnext : disk.next setup.dataView (.sinkPut id data false) =
      some (disk.sinkPut setup.dataView id data false) := if_pos hsink
  have hstep := hinv.step hok hnext
  have hput : disk.sinkPut setup.dataView id data false =
      { disk with
        storage := (setup.dataView.write disk.storage data).2
        handles := Function.update disk.handles id
          { disk.handles id with
            address := (disk.handles id).address ++ (setup.dataView.write disk.storage data).1
            content := (disk.handles id).content ++ data } } :=
    if_neg (by simp [hdata])
  rw [hput] at hstep ⊢
  refine ⟨hstep, hsink, ?_, ?_, ?_, rfl, rfl⟩
  · simp
  · simp
  · intro id' hne
    simp [hne]

theorem returns_sinkPut (hinv : Disk.Inv setup.dataView w.disk) (hsink : id ∈ w.disk.sinks)
    (hsound : Sound w.faults) (data : Text) :
    ∃ disk' faults', Returns (sinkPut setup id data) w () { w with disk := disk', faults := faults' } ∧
      Written setup.dataView w.disk disk' id data ∧ Sound faults' := by
  unfold sinkPut
  by_cases hdata : data = []
  · subst hdata
    exact ⟨w.disk, w.faults, by rw [if_pos rfl]; exact rfl,
      .refl hinv hsink, hsound⟩
  · obtain ⟨hfault, htail⟩ := returns_nextFault hsound
    refine ⟨_, _, ?_, written_sinkPut hinv hsink hdata, htail⟩
    rw [if_neg hdata]
    apply hfault.bind
    exact bind (returns_onDisk _ _) (returns_raiseFault _)

/-- The chunks go to the client and, one behind the other, to the sink. -/
theorem returns_storeChunks (chunks : List Text) (hinv : Disk.Inv setup.dataView w.disk)
    (hsink : id ∈ w.disk.sinks) (hsound : Sound w.faults) : ∃ disk' faults',
      Returns (storeChunks setup id chunks) w ()
        { w with
          disk := disk'
          faults := faults'
          output := w.output ++ chunks.flatMap dataOutput } ∧
      Written setup.dataView w.disk disk' id chunks.flatten ∧ Sound faults' := by
  induction chunks generalizing w with
  | nil =>
    refine ⟨w.disk, w.faults, returns_pure.mpr ⟨rfl, ?_⟩, .refl hinv hsink, hsound⟩
    simp
  | cons data chunks ih =>
    obtain ⟨disk₁, faults₁, hput, hwrite, hsound₁⟩ :=
      returns_sinkPut (w := { w with output := w.output ++ dataOutput data }) hinv hsink hsound data
    obtain ⟨disk₂, faults₂, hrest, hwrite₂, hsound₂⟩ :=
      ih (w := { w with
        disk := disk₁
        faults := faults₁
        output := w.output ++ dataOutput data }) hwrite.inv hwrite.sink hsound₁
    refine ⟨disk₂, faults₂, ?_, hwrite.trans hwrite₂, hsound₂⟩
    rw [flatMap_cons, ← append_assoc]
    exact bind (returns_write _ w) (hput.bind hrest)

/-- From `disk` to `disk'` an object was put into the cache. -/
structure Inserted (dv : DataView σ) (disk disk' : Disk σ) (id : Nat) (key : ObjectMetadata) :
    Prop where
  inv : Disk.Inv dv disk'
  handles : disk'.handles = disk.handles
  puts : disk'.puts = []
  items : ∀ k e, (k, some e) ∈ disk'.cache.items →
    (k = key ∧ e = id) ∨ (k, some e) ∈ disk.cache.items

theorem returns_put (hinv : Disk.Inv setup.dataView w.disk) (hsink : id ∈ w.disk.sinks)
    (hputs : w.disk.puts = []) (hsound : Sound w.faults) (key : ObjectMetadata) :
    ∃ disk' faults', Returns (put setup id key) w () { w with disk := disk', faults := faults' } ∧
      Inserted setup.dataView w.disk disk' id key ∧ Sound faults' := by
  have hok : w.disk.Undisturbed (.put id key) := trivial
  have hnext : w.disk.next setup.dataView (.put id key) = some (w.disk.put setup.dataView id key) :=
    if_pos hsink
  have hstep := hinv.step hok hnext
  by_cases hrequired : w.disk.requiredSize id > 0
  · have hput : w.disk.put setup.dataView id key =
        { w.disk.unlink setup.dataView (w.disk.cache.evict w.disk.useCount w.disk.dataSize
            (w.disk.requiredSize id)).1 with
          sinks := w.disk.sinks.erase id
          cache := (w.disk.cache.evict w.disk.useCount w.disk.dataSize (w.disk.requiredSize id)).2
          puts := ⟨key, id, (w.disk.cache.evict w.disk.useCount w.disk.dataSize
            (w.disk.requiredSize id)).1⟩ :: w.disk.puts } := if_pos hrequired
    rw [hputs] at hput
    generalize hdisk : w.disk.put setup.dataView id key = disk at hput hstep
    generalize hevicted : w.disk.cache.evict w.disk.useCount w.disk.dataSize
      (w.disk.requiredSize id) = evicted at hput
    have hp : disk.puts = [⟨key, id, evicted.1⟩] := by rw [hput]
    have hdone : disk.next setup.dataView (.putDone ⟨key, id, evicted.1⟩ false) =
        some (disk.putDone ⟨key, id, evicted.1⟩ false) :=
      if_pos (by rw [hp]; exact mem_singleton.mpr rfl)
    have hok' : disk.Undisturbed (.putDone ⟨key, id, evicted.1⟩ false) := trivial
    obtain ⟨hfault, htail⟩ := returns_nextFault (w := { w with disk := disk }) hsound
    refine ⟨_, _, ?_, ⟨hstep.step hok' hdone, ?_, ?_, ?_⟩, htail⟩
    · refine returns_bind.mpr ⟨(), { w with disk := disk }, ?_, ?_⟩
      · rw [← hdisk]
        exact returns_onDisk _ w
      · apply returns_get_bind.mpr
        have hfind : disk.puts.find? (fun p => decide (p.objh = id)) = some ⟨key, id, evicted.1⟩ := by
          rw [hp]
          simp
        rw [hfind]
        apply hfault.bind
        exact bind (returns_onDisk _ _) (returns_raiseFault _)
    · rw [hput]
      rfl
    · simp [Disk.putDone, Disk.insert, hp]
    · intro k e hmem
      rw [hput] at hmem
      rcases LruCache.mem_items_put hmem with hnew | hold
      · exact .inl hnew
      · exact .inr (LruCache.mem_items_of_evict (hevicted ▸ hold))
  · have hput : w.disk.put setup.dataView id key =
        { w.disk with
          sinks := w.disk.sinks.erase id
          currentSize := Words.wrap 64 (w.disk.currentSize + w.disk.dataSize id) }.insert key id :=
      if_neg hrequired
    refine ⟨w.disk.put setup.dataView id key, w.faults, ?_, ⟨hstep, ?_, ?_, ?_⟩, hsound⟩
    · refine bind (returns_onDisk _ w) (returns_get_bind.mpr ?_)
      have hnone : (w.disk.put setup.dataView id key).puts = [] := by
        rw [hput]
        exact hputs
      rw [hnone]
      exact rfl
    · rw [hput]
      rfl
    · rw [hput]
      exact hputs
    · intro k e hmem
      rw [hput] at hmem
      exact LruCache.mem_items_put hmem

end Round

end UhCore.Proxy
