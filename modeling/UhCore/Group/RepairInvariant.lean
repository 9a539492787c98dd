import UhCore.Group.Repair

/-!
When assigned storages hold their data. The trigger may only be seen by
storages that hold everything, so it has to be unset, and no repairer may be
under way, whenever a storage is replaced; a repairer has to start from states
that are still published, and to set the trigger after the last stripe only.
-/

namespace UhCore.Group.Repair

open Transition List Function

/-- The leader starts a repairer only with storages as its sources that are
still published as assigned. -/
def StartsUpToDate (group : GroupData) (w : World) (id : Nat) (services : Bool) : Prop :=
  let m := w.maintainers id
  m.isLeader = true ∧
      (storageStatesHandler group.geometry m.groupState m.view id services).2 = true →
    ∀ x, x < group.storages → m.view x = .assigned → w.published x = .assigned

instance (group : GroupData) (w : World) (id : Nat) (services : Bool) :
    Decidable (StartsUpToDate group w id services) := by
  unfold StartsUpToDate
  infer_instance

/-- The condition on the steps of a run. -/
def RepairsInTurn (group : GroupData) (w : World) : Action → Prop
  | .replace _ => w.trigger = false ∧ w.repairers.length = 0
  | .initialRead id services => ∀ w' ∈ w.readKeys id, StartsUpToDate group w' id services
  | .handle id services => ∀ w' ∈ w.takeEvent id, StartsUpToDate group w' id services
  | .finish index => ∀ r ∈ w.repairers[index]?, group.stripes ≤ r.stripe
  | _ => True

instance (group : GroupData) (w : World) (action : Action) :
    Decidable (RepairsInTurn group w action) := by
  cases action <;> unfold RepairsInTurn <;> infer_instance

/-- Nothing that was right is lost. -/
def Improves (group : GroupData) (disk disk' : Nat → Nat → Option (List UInt8)) : Prop :=
  ∀ id i, disk id i = some (group.shard id i) → disk' id i = some (group.shard id i)

theorem Improves.refl {group : GroupData} (disk : Nat → Nat → Option (List UInt8)) :
    Improves group disk disk := fun _ _ h => h

variable {disk disk' : Nat → Nat → Option (List UInt8)} {id : Nat} {r : Repairer}

theorem Holds.mono {group : GroupData} (h : Holds group disk id)
    (himp : Improves group disk disk') : Holds group disk' id :=
  fun i hi => himp id i (h i hi)

/-- What holds for a running repairer. -/
structure RepairerOk (group : GroupData) (disk : Nat → Nat → Option (List UInt8))
    (r : Repairer) : Prop where
  sources : ∀ id, id < group.storages → r.states id = .assigned → Holds group disk id
  up : ∀ id, id < group.storages → r.states id ≠ .down
  enough : group.geometry.dataShards ≤ assignedCount group.storages r.states
  done : ∀ id, id < group.storages → r.states id = .new → ∀ i, i < r.stripe →
    disk id i = some (group.shard id i)
  recovered : ∀ shards, r.recovered = some shards → shards = group.codeword r.stripe
  written : ∀ id ∈ r.written, disk id r.stripe = some (group.shard id r.stripe)

theorem RepairerOk.mono {group : GroupData} (h : RepairerOk group disk r)
    (himp : Improves group disk disk') : RepairerOk group disk' r where
  sources := fun id hid hs => (h.sources id hid hs).mono himp
  up := h.up
  enough := h.enough
  done := fun id hid hs i hi => himp id i (h.done id hid hs i hi)
  recovered := h.recovered
  written := fun id hid => himp id _ (h.written id hid)

/-- A repairer that is through with all stripes leaves storages that all hold
their data. -/
theorem RepairerOk.all_hold {group : GroupData} (h : RepairerOk group disk r)
    (hdone : group.stripes ≤ r.stripe) (hid : id < group.storages) : Holds group disk id := by
  cases hs : r.states id with
  | down => exact absurd hs (h.up id hid)
  | new => exact fun i hi => h.done id hid hs i (lt_of_lt_of_le hi hdone)
  | assigned => exact h.sources id hid hs

/-- The invariant of the runs. -/
structure Inv (group : GroupData) (w : World) : Prop where
  published : AssignedHold group w
  state : ∀ id, id < group.storages → (w.maintainers id).state = .assigned → Holds group w.disk id
  trigger : w.trigger = true → ∀ id, id < group.storages → Holds group w.disk id
  queued : ∀ id, id < group.storages → .trigger true ∈ (w.maintainers id).queue →
    Holds group w.disk id
  repairers : ∀ r ∈ w.repairers, RepairerOk group w.disk r

/-- What a step may do: it loses nothing that was right, and whatever it sets
new is backed by the disks. -/
theorem Inv.advance {group : GroupData} {w w' : World} (h : Inv group w)
    (hdisk : Improves group w.disk w'.disk)
    (hpublished : ∀ id, id < group.storages → w'.published id = .assigned →
      w.published id = .assigned ∨ Holds group w'.disk id)
    (hstate : ∀ id, id < group.storages → (w'.maintainers id).state = .assigned →
      (w.maintainers id).state = .assigned ∨ Holds group w'.disk id)
    (htrigger : w'.trigger = true → w.trigger = true ∨
      ∀ id, id < group.storages → Holds group w'.disk id)
    (hqueued : ∀ id, id < group.storages → .trigger true ∈ (w'.maintainers id).queue →
      .trigger true ∈ (w.maintainers id).queue ∨ Holds group w'.disk id)
    (hrepairers : ∀ r ∈ w'.repairers, r ∈ w.repairers ∨ RepairerOk group w'.disk r) :
    Inv group w' where
  published := by
    intro id hid hp
    rcases hpublished id hid hp with hp | hp
    · exact (h.published id hid hp).mono hdisk
    · exact hp
  state := by
    intro id hid hs
    rcases hstate id hid hs with hs | hs
    · exact (h.state id hid hs).mono hdisk
    · exact hs
  trigger := by
    intro ht id hid
    rcases htrigger ht with ht | ht
    · exact (h.trigger ht id hid).mono hdisk
    · exact ht id hid
  queued := by
    intro id hid hq
    rcases hqueued id hid hq with hq | hq
    · exact (h.queued id hid hq).mono hdisk
    · exact hq
  repairers := by
    intro r hr
    rcases hrepairers r hr with hr | hr
    · exact (h.repairers r hr).mono hdisk
    · exact hr

section Operations

variable {group : GroupData} {w : World} {event : Event} {id index : Nat} {value services : Bool}
  {r : Repairer} {w' : World} {states : Nat → StorageState}

theorem notify_state (event : Event) (id : Nat) :
    ((w.notify event).maintainers id).state = (w.maintainers id).state := by
  simp only [World.notify]
  split <;> rfl

theorem mem_notify_queue {e : Event} (h : e ∈ ((w.notify event).maintainers id).queue) :
    e ∈ (w.maintainers id).queue ∨ e = event := by
  simp only [World.notify] at h
  split at h
  · rcases mem_append.mp h with h | h
    · exact .inl h
    · exact .inr (mem_singleton.mp h)
  · exact .inl h

theorem setMaintainer_self (id : Nat) (m : Maintainer) :
    (w.setMaintainer id m).maintainers id = m := update_self _ _ _

theorem setMaintainer_of_ne {x : Nat} (hne : x ≠ id) (m : Maintainer) :
    (w.setMaintainer id m).maintainers x = w.maintainers x := update_of_ne hne _ _

theorem Inv.setMaintainer (h : Inv group w) {m : Maintainer}
    (hstate : id < group.storages → m.state = .assigned → Holds group w.disk id)
    (hqueue : id < group.storages → .trigger true ∈ m.queue → Holds group w.disk id) :
    Inv group (w.setMaintainer id m) := by
  refine h.advance (Improves.refl w.disk) ?_ ?_ ?_ ?_ ?_
  · exact fun _ _ hp => .inl hp
  · intro x hx hs
    rcases eq_or_ne x id with rfl | hne
    · rw [setMaintainer_self] at hs
      exact .inr (hstate hx hs)
    · rw [setMaintainer_of_ne hne] at hs
      exact .inl hs
  · exact .inl
  · intro x hx hq
    rcases eq_or_ne x id with rfl | hne
    · rw [setMaintainer_self] at hq
      exact .inr (hqueue hx hq)
    · rw [setMaintainer_of_ne hne] at hq
      exact .inl hq
  · exact fun _ hr => .inl hr

theorem Inv.publish (h : Inv group w) {state : StorageState}
    (hstate : id < group.storages → state = .assigned → Holds group w.disk id) :
    Inv group (w.publish id state) := by
  refine h.advance (Improves.refl w.disk) ?_ ?_ ?_ ?_ ?_
  · intro x hx hp
    rcases eq_or_ne x id with rfl | hne
    · change update w.published x state x = .assigned at hp
      rw [update_self] at hp
      exact .inr (hstate hx hp)
    · change update w.published id state x = .assigned at hp
      rw [update_of_ne hne] at hp
      exact .inl hp
  · intro x _ hs
    simp only [World.publish, notify_state] at hs
    exact .inl hs
  · exact .inl
  · intro x _ hq
    rcases mem_notify_queue hq with hq | hq
    · exact .inl hq
    · cases hq
  · exact fun _ hr => .inl hr

theorem Inv.putTrigger (h : Inv group w)
    (hvalue : value = true → ∀ id, id < group.storages → Holds group w.disk id) :
    Inv group (w.putTrigger value) := by
  refine h.advance (Improves.refl w.disk) ?_ ?_ ?_ ?_ ?_
  · exact fun _ _ hp => .inl hp
  · intro x _ hs
    simp only [World.putTrigger, notify_state] at hs
    exact .inl hs
  · exact fun ht => .inr (hvalue ht)
  · intro x hx hq
    rcases mem_notify_queue hq with hq | hq
    · exact .inl hq
    · cases hq
      exact .inr (hvalue rfl x hx)
  · exact fun _ hr => .inl hr

theorem Inv.setRepairers (h : Inv group w) {repairers : List Repairer}
    (hrepairers : ∀ r ∈ repairers, r ∈ w.repairers ∨ RepairerOk group w.disk r) :
    Inv group { w with repairers := repairers } :=
  h.advance (Improves.refl _) (fun _ _ hp => .inl hp) (fun _ _ hs => .inl hs) .inl
    (fun _ _ hq => .inl hq) hrepairers

theorem RepairerOk.cancel {disk : Nat → Nat → Option (List UInt8)} (h : RepairerOk group disk r) :
    RepairerOk group disk { r with cancelled := true } :=
  ⟨h.sources, h.up, h.enough, h.done, h.recovered, h.written⟩

theorem Inv.cancelRepairers (h : Inv group w) (owner : Nat) :
    Inv group (w.cancelRepairers owner) := by
  apply h.setRepairers
  intro r hr
  obtain ⟨r', hr', rfl⟩ := List.mem_map.mp hr
  right
  split
  · exact (h.repairers r' hr').cancel
  · exact h.repairers r' hr'

theorem Inv.setRepairer (h : Inv group w) (hr : RepairerOk group w.disk r) :
    Inv group (w.setRepairer index r) := by
  apply h.setRepairers
  intro r' hr'
  rcases mem_or_eq_of_mem_set hr' with hr' | rfl
  · exact .inl hr'
  · exact .inr hr

theorem Inv.removeRepairer (h : Inv group w) (index : Nat) : Inv group (w.removeRepairer index) :=
  h.setRepairers (fun _ hr => .inl (mem_of_mem_eraseIdx hr))

theorem Inv.assignmentTriggerHandler (h : Inv group w)
    (hvalue : id < group.storages → value = true → Holds group w.disk id) :
    Inv group (w.assignmentTriggerHandler id value) := by
  simp only [World.assignmentTriggerHandler]
  split
  · rename_i htrigger
    have hholds := fun hid => hvalue hid htrigger.2
    apply Inv.publish
    · exact h.setMaintainer (fun hid _ => hholds hid) (h.queued id)
    · exact fun hid _ => hholds hid
  · exact h

theorem Inv.observe (h : Inv group w)
    (hevent : id < group.storages → event = .trigger true → Holds group w.disk id) :
    Inv group (w.observe id event) := by
  cases event with
  | trigger value =>
    apply h.assignmentTriggerHandler
    rintro hid rfl
    exact hevent hid rfl
  | storageState x state => exact h.setMaintainer (h.state id) (h.queued id)

theorem Inv.takeEvent (h : Inv group w) (hnext : w.takeEvent id = some w') : Inv group w' := by
  revert hnext
  fun_cases w.takeEvent id <;> intro hnext <;> cases hnext
  rename_i event rest hqueue _
  have hrest : Inv group (w.setMaintainer id { w.maintainers id with queue := rest }) := by
    refine h.setMaintainer (h.state id) ?_
    intro hid hmem
    exact h.queued id hid (hqueue ▸ mem_cons_of_mem _ hmem)
  apply hrest.observe
  rintro hid rfl
  exact h.queued id hid (hqueue ▸ mem_cons_self)

theorem Inv.readKeys (h : Inv group w) (hnext : w.readKeys id = some w') : Inv group w' := by
  revert hnext
  fun_cases w.readKeys id <;> intro hnext <;> cases hnext
  apply Inv.assignmentTriggerHandler
  · exact h.setMaintainer (h.state id) (h.queued id)
  · exact fun hid htrigger => h.trigger htrigger id hid

theorem not_hasDown {storages : Nat} (h : ¬ hasDown storages states = true) (hid : id < storages) :
    states id ≠ .down := by
  intro hdown
  apply h
  rw [hasDown, List.any_eq_true]
  exact ⟨id, mem_range.mpr hid, decide_eq_true hdown⟩

/-- What the leader has checked when it starts a repairer. -/
theorem storageStatesHandler_starts {g : EcGeometry} {state : GroupState} {self : Nat}
    (h : (storageStatesHandler g state states self services).2 = true) :
    (∀ id, id < g.storages → states id ≠ .down) ∧
      g.dataShards ≤ assignedCount g.storages states := by
  simp only [storageStatesHandler] at h
  split at h
  · rename_i hcond
    exact ⟨fun id hid => not_hasDown hcond.2.1 hid, hcond.2.2.1⟩
  · cases h

theorem Inv.runHandler (h : Inv group w) (hok : StartsUpToDate group w id services) :
    Inv group (w.runHandler group id services) := by
  simp only [World.runHandler]
  split
  · rename_i hlead
    have hset := fun state => h.setMaintainer (m := { w.maintainers id with groupState := state })
      (h.state id) (h.queued id)
    split
    · rename_i hstarts
      obtain ⟨hup, henough⟩ := storageStatesHandler_starts hstarts
      apply ((hset _).cancelRepairers id).setRepairers
      intro r hr
      rcases mem_append.mp hr with hr | hr
      · exact .inl hr
      · right
        rw [mem_singleton.mp hr]
        refine ⟨?_, hup, henough, ?_, ?_, ?_⟩
        · intro x hx hview
          exact h.published x hx (hok ⟨hlead, hstarts⟩ x hx hview)
        · intro x _ _ i hi
          exact absurd hi (Nat.not_lt_zero i)
        · intro shards hshards
          cases hshards
        · intro x hx
          cases hx
    · exact hset _
  · exact h

theorem recover_codeword (h : RepairerOk group w.disk r) (hstripe : r.stripe < group.stripes) :
    group.coder.recover (readShards group w r) (stats group r) = group.codeword r.stripe := by
  have hlen : (group.codeword r.stripe).length = group.storages := by
    rw [GroupData.codeword, length_append, group.length_data, group.coder.length_encode]
    rfl
  have hshard : ∀ id, id < group.storages →
      (group.codeword r.stripe)[id]? = some (group.shard id r.stripe) := by
    intro id hid
    rw [GroupData.shard, getD_eq_getElem?_getD, getElem?_eq_getElem (by omega)]
    rfl
  have hsize : ∀ id, id < group.storages →
      (group.shard id r.stripe).length = group.geometry.chunkSize := by
    intro id hid
    have hmem := mem_of_getElem? (hshard id hid)
    rcases mem_append.mp hmem with hmem | hmem
    · exact group.length_chunk _ _ hmem
    · exact group.coder.length_parity _ _ hmem
  apply group.coder.recover_eq (group.data r.stripe) _ _ (group.length_data _)
    (group.length_chunk _)
  · simp only [readShards, length_map, length_range]
    rfl
  · intro shard hmem
    obtain ⟨id, hid, rfl⟩ := List.mem_map.mp hmem
    have hid := mem_range.mp hid
    split
    · exact length_replicate
    · rename_i hnew
      have hassigned : r.states id = .assigned := by
        cases hs : r.states id with
        | down => exact absurd hs (h.up id hid)
        | new => exact absurd hs hnew
        | assigned => rfl
      rw [h.sources id hid hassigned _ hstripe]
      exact hsize id hid
  · simp only [stats, length_map, length_range]
    rfl
  · have hcount : (stats group r).count true = assignedCount group.storages r.states := by
      rw [stats, List.count, countP_map]
      apply countP_congr
      intro id _
      simp
    rw [hcount]
    exact h.enough
  · intro i hi
    have hid : i < group.storages := by
      have := (List.getElem?_eq_some_iff.mp hi).1
      simpa only [stats, length_map, length_range] using this
    simp only [stats, readShards, getElem?_map, getElem?_range hid, Option.map_some,
      Option.some.injEq, decide_eq_true_eq] at hi ⊢
    rw [hi, if_neg (by simp), h.sources i hid hi _ hstripe]
    exact (hshard i hid).symm

theorem Inv.readStripe (h : Inv group w) (hr : w.repairers[index]? = some r)
    (hstripe : r.stripe < group.stripes) :
    Inv group (w.setRepairer index { r with
      recovered := some (group.coder.recover (readShards group w r) (stats group r)) }) := by
  have hok := h.repairers r (mem_of_getElem? hr)
  refine h.setRepairer ⟨hok.sources, hok.up, hok.enough, hok.done, ?_, hok.written⟩
  intro shards hshards
  cases hshards
  exact recover_codeword hok hstripe

theorem improves_storeShard (id i : Nat) :
    Improves group w.disk (w.storeShard id i (group.shard id i)).disk := by
  intro x j hxj
  simp only [World.storeShard]
  rcases eq_or_ne x id with rfl | hne
  · rw [update_self]
    rcases eq_or_ne j i with rfl | hne
    · rw [update_self]
    · rw [update_of_ne hne]
      exact hxj
  · rw [update_of_ne hne]
    exact hxj

theorem Inv.writeShard (h : Inv group w) (id : Nat) (hr : w.repairers[index]? = some r)
    {shards : List (List UInt8)} (hshards : r.recovered = some shards) :
    Inv group ((w.storeShard id r.stripe (shards.getD id [])).setRepairer index
      { r with written := id :: r.written }) := by
  have hok := h.repairers r (mem_of_getElem? hr)
  have hright : shards.getD id [] = group.shard id r.stripe := by
    rw [hok.recovered shards hshards]
    rfl
  rw [hright]
  have hdisk := @improves_storeShard group w id r.stripe
  have hadv := h.advance hdisk (fun _ _ hp => .inl hp) (fun _ _ hs => .inl hs) .inl
      (fun _ _ hq => .inl hq) (fun _ hr => .inl hr)
  have hok' := hok.mono hdisk
  refine hadv.setRepairer ⟨hok'.sources, hok'.up, hok'.enough, hok'.done, hok'.recovered, ?_⟩
  intro x hx
  rcases mem_cons.mp hx with rfl | hx
  · simp only [World.storeShard, update_self]
  · exact hok'.written x hx

theorem Inv.nextStripe (h : Inv group w) (hr : w.repairers[index]? = some r)
    (hwrite : ∀ id, id < group.storages → r.states id = .new → id ∈ r.written) :
    Inv group (w.setRepairer index
      { r with stripe := r.stripe + 1, recovered := none, written := [] }) := by
  have hok := h.repairers r (mem_of_getElem? hr)
  refine h.setRepairer ⟨hok.sources, hok.up, hok.enough, ?_, ?_, ?_⟩
  · intro id hid hnew i hi
    rcases Nat.lt_succ_iff_lt_or_eq.mp hi with hi | rfl
    · exact hok.done id hid hnew i hi
    · exact hok.written id (hwrite id hid hnew)
  · intro shards hshards
    cases hshards
  · intro id hid
    cases hid

/-- Replacing a storage while the trigger is unset and nothing is repaired. -/
theorem Inv.replace (h : Inv group w) (id : Nat) (htrigger : w.trigger = false)
    (hrepairers : w.repairers = []) :
    Inv group (((w.emptyDisk id).setMaintainer id emptyMaintainer).publish id .new) := by
  have hother : ∀ x, x ≠ id → Holds group w.disk x → Holds group (w.emptyDisk id).disk x := by
    intro x hne hholds i hi
    simp only [World.emptyDisk, update_of_ne hne]
    exact hholds i hi
  refine ⟨?_, ?_, ?_, ?_, ?_⟩
  · intro x hx hp
    change update w.published id .new x = .assigned at hp
    rcases eq_or_ne x id with rfl | hne
    · rw [update_self] at hp
      cases hp
    · rw [update_of_ne hne] at hp
      exact hother x hne (h.published x hx hp)
  · intro x hx hs
    simp only [World.publish, notify_state] at hs
    rcases eq_or_ne x id with rfl | hne
    · change (update w.maintainers x emptyMaintainer x).state = _ at hs
      rw [update_self] at hs
      cases hs
    · change (update w.maintainers id emptyMaintainer x).state = _ at hs
      rw [update_of_ne hne] at hs
      exact hother x hne (h.state x hx hs)
  · intro ht
    change w.trigger = true at ht
    rw [htrigger] at ht
    cases ht
  · intro x hx hq
    rcases mem_notify_queue hq with hq | hq
    · rcases eq_or_ne x id with rfl | hne
      · change _ ∈ (update w.maintainers x emptyMaintainer x).queue at hq
        rw [update_self] at hq
        cases hq
      · change _ ∈ (update w.maintainers id emptyMaintainer x).queue at hq
        rw [update_of_ne hne] at hq
        exact hother x hne (h.queued x hx hq)
    · cases hq
  · intro r hr
    change r ∈ w.repairers at hr
    rw [hrepairers] at hr
    cases hr

theorem Inv.step {action : Action} (h : Inv group w) (hok : RepairsInTurn group w action)
    (hnext : next group w action = some w') : Inv group w' := by
  revert hnext
  fun_cases next group w action <;> intro hnext <;> try cases hnext
  case case1 =>
    apply Inv.cancelRepairers
    apply Inv.publish
    · exact h.setMaintainer (h.state _) (fun _ hq => by cases hq)
    · intro _ hs
      cases hs
  case case4 id _ _ =>
    apply Inv.publish
    · exact h.setMaintainer (h.state id) (h.queued id)
    · exact h.state id
  case case5 id _ => exact (h.replace id hok.1 (eq_nil_of_length_eq_zero hok.2)).cancelRepairers id
  case case6 =>
    obtain ⟨mid, hmid, rfl⟩ := Option.map_eq_some_iff.mp hnext
    exact (h.readKeys hmid).runHandler (hok mid hmid)
  case case7 =>
    obtain ⟨mid, hmid, rfl⟩ := Option.map_eq_some_iff.mp hnext
    exact (h.takeEvent hmid).runHandler (hok mid hmid)
  case case8 id _ _ => exact h.setMaintainer (h.state id) (h.queued id)
  case case10 r hr hcond _ => exact h.readStripe hr hcond.1
  case case13 r hr shards hshards _ _ => exact h.writeShard _ hr hshards
  case case17 r hr hcond => exact h.nextStripe hr hcond.2
  case case20 => exact h.removeRepairer _
  case case21 r hr => exact h.setRepairer (h.repairers r (mem_of_getElem? hr)).cancel
  case case23 index r hr _ =>
    have hrepairer := h.repairers r (mem_of_getElem? hr)
    exact (h.removeRepairer index).putTrigger
      (fun _ id hid => hrepairer.all_hold (hok r hr) hid)
  case case26 => exact h.putTrigger (fun hvalue => by cases hvalue)

end Operations

theorem inv_start (group : GroupData) : Inv group (start group) where
  published := fun _ _ _ _ _ => rfl
  state := fun _ _ _ _ _ => rfl
  trigger := fun _ _ _ _ _ => rfl
  queued := fun _ _ _ _ _ => rfl
  repairers := fun _ hr => by cases hr

/-- In every run whose replacements and repairs take turns, every storage that
is published as assigned has its shards. -/
theorem assigned_storages_hold (group : GroupData) {w : World}
    (h : Reachable (next group) (RepairsInTurn group) (start group) w) :
    AssignedHold group w :=
  (h.invariant (inv_start group) (fun _ _ _ hs hok hnext => hs.step hok hnext)).published

def mirrored : GroupData where
  geometry := ⟨0, 1, 1, 1, Nat.one_pos, Nat.one_pos, by decide⟩
  coder := mirrorCoder 1 1
  stripes := 1
  data := fun _ => [[7]]
  length_data := fun _ => rfl
  length_chunk := by
    intro _ chunk hchunk
    rw [mem_singleton.mp hchunk]
    rfl

/-- The second storage is replaced and repaired by the first one. -/
def replaceAndRepair : List Action :=
  [.becomeLeader 0, .replace 1, .handle 0 true, .initialRead 1 true, .readStripe 0,
    .writeShard 0 1, .nextStripe 0, .finish 0, .handle 1 true]

theorem assigned_storages_hold_sample :
    ∃ w, Reachable (next mirrored) (RepairsInTurn mirrored) (start mirrored) w ∧
      (w.published 1 = .assigned ∧ w.trigger = true) ∧ AssignedHold mirrored w :=
  exists_sample replaceAndRepair (by decide +kernel)
    fun _ hreach _ => assigned_storages_hold mirrored hreach

/-- The trigger outlives the repair that set it: a second replacement sees it
on its first read and is assigned while it is empty. -/
theorem empty_storage_assigned :
    ¬ ∀ (group : GroupData) (w : World),
      Reachable (next group) (fun _ _ => True) (start group) w → AssignedHold group w := by
  intro hall
  obtain ⟨w, hhold, hpublished, hdisk⟩ := exists_of_forall (hall mirrored)
    (fun w => w.published 1 = .assigned ∧ w.disk 1 0 = none)
    (replaceAndRepair ++ [.replace 1, .initialRead 1 true]) (by decide +kernel)
  have hholds := hhold 1 (by decide) hpublished 0 (by decide)
  rw [hdisk] at hholds
  cases hholds

end UhCore.Group.Repair
