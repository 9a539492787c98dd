import UhCore.Storage.DataStore
import UhCore.Lib.Transition

/-!
Leader changes of an erasure coded group. Every maintainer handles the events
of the leader key in order: when the key is gone it campaigns and publishes
its write offset, when a leader was proclaimed it removes the published offset
again. The winner of a campaign gathers the published offsets in a thread of
its own, installs the largest one as its write offset and proclaims itself.
Clients allocate on the proclaimed leader and write to all storages meanwhile.
-/

namespace UhCore.Group.Election

open Words Blocks Storage Transition List Function

inductive LeaderKey where
  | absent
  | staging
  | proclaimed (id : Nat)
  deriving DecidableEq

def LeaderKey.leader : LeaderKey → Option Nat
  | .proclaimed id => some id
  | _ => none

inductive KeyEvent where
  | deleted
  | proclaimed
  deriving DecidableEq

/-- The thread that the winner of a campaign starts: the offsets it has seen,
the summarized offset, and whether that one is installed. -/
structure ElectionThread where
  storage : Nat
  seen : Nat → Option Nat
  offset : Option Nat
  installed : Bool

/-- An allocation that was handed out, with the storages that have applied its
write. `ackedBefore` are the ranges that were acknowledged when it was handed
out. -/
structure Request where
  allocation : Allocation
  applied : List Nat
  acked : Bool
  ackedBefore : List Allocation

structure GroupConf where
  storages : Nat
  maxDataStoreSize : Nat
  maxDataStoreSize_lt : maxDataStoreSize < 2 ^ 64

structure World where
  writeOffset : Nat → Nat
  offsetKeys : Nat → Option Nat
  leaderKey : LeaderKey
  events : Nat → List KeyEvent
  threads : List ElectionThread
  requests : List Request

inductive Action where
  | allocate (size alignment : Nat)
  | apply (request storage : Nat)
  | acknowledge (request : Nat)
  | loseKey
  | handleEvent (storage : Nat)
  | gather (thread : Nat)
  | summarize (thread : Nat)
  | install (thread : Nat)
  | proclaim (thread : Nat)

/-- All maintainers have just been constructed and campaign. -/
def start (writeOffset : Nat → Nat) : World where
  writeOffset := writeOffset
  offsetKeys := fun _ => none
  leaderKey := .absent
  events := fun _ => [.deleted]
  threads := []
  requests := []

/-- Send an event to all maintainers. -/
def World.notify (w : World) (event : KeyEvent) : World :=
  { w with events := fun id => w.events id ++ [event] }

/-- Campaign: create the leader key if it is absent, and publish the write
offset; the winner starts its thread. -/
def World.campaign (w : World) (id : Nat) : World :=
  let offsetKeys := update w.offsetKeys id (some (w.writeOffset id))
  if w.leaderKey = .absent then
    { w with
      offsetKeys := offsetKeys
      leaderKey := .staging
      threads := w.threads ++ [⟨id, fun _ => none, none, false⟩] }
  else { w with offsetKeys := offsetKeys }

def World.handleEvent (w : World) (id : Nat) : Option World :=
  match w.events id with
  | [] => none
  | event :: rest =>
    let w := { w with events := update w.events id rest }
    match event with
    | .deleted => some (w.campaign id)
    | .proclaimed => some { w with offsetKeys := update w.offsetKeys id none }

def setWriteOffset (w : World) (id val : Nat) : World :=
  { w with writeOffset := update w.writeOffset id val }

/-- The ranges of the writes that are acknowledged. -/
def World.acked (w : World) : List Allocation :=
  (w.requests.filter Request.acked).map Request.allocation

/-- An allocation on the storage of the leader. -/
def World.allocate (conf : GroupConf) (w : World) (leader size alignment : Nat) : World :=
  match allocateAt conf.maxDataStoreSize (w.writeOffset leader) size alignment with
  | .error _ => w
  | .ok a =>
    let w' := setWriteOffset w leader (wrap 64 (a.offset + a.size))
    { w' with requests := w.requests ++ [⟨a, [], false, w.acked⟩] }

/-- The write of an allocation raises the write offset of a storage to the end
of the allocation. -/
def World.apply (w : World) (index : Nat) (r : Request) (id : Nat) : World :=
  let desired := wrap 64 (r.allocation.offset + r.allocation.size)
  let w' := setWriteOffset w id (max (w.writeOffset id) desired)
  let r' := { r with applied := id :: r.applied }
  { w' with requests := w.requests.set index r' }

/-- One step of a client, of the leader key, of a maintainer or of an election
thread. -/
def next (conf : GroupConf) (w : World) : Action → Option World
  | .allocate size alignment =>
    match w.leaderKey.leader with
    | some leader =>
      if leader < conf.storages then some (w.allocate conf leader size alignment) else none
    | none => none
  | .apply request storage =>
    match w.requests[request]? with
    | some r =>
      if storage < conf.storages ∧ storage ∉ r.applied then some (w.apply request r storage)
      else none
    | none => none
  | .acknowledge request =>
    match w.requests[request]? with
    | some r =>
      if ∀ id, id < conf.storages → id ∈ r.applied then
        let r' := { r with acked := true }
        some { w with requests := w.requests.set request r' }
      else none
    | none => none
  | .loseKey =>
    if w.leaderKey = .absent then none
    else
      let w' := { w with leaderKey := .absent }
      some (w'.notify .deleted)
  | .handleEvent storage => if storage < conf.storages then w.handleEvent storage else none
  | .gather thread =>
    match w.threads[thread]? with
    | some t =>
      if t.offset.isSome then none
      else
        let t' := { t with seen := fun id => (w.offsetKeys id).or (t.seen id) }
        some { w with threads := w.threads.set thread t' }
    | none => none
  | .summarize thread =>
    match w.threads[thread]? with
    | some t =>
      if t.offset.isSome then none
      else
        match ((List.range conf.storages).filterMap t.seen).max? with
        | none => some { w with threads := w.threads.eraseIdx thread }
        | some offset =>
          let t' := { t with offset := some offset }
          some { w with threads := w.threads.set thread t' }
    | none => none
  | .install thread =>
    match w.threads[thread]? with
    | some t =>
      match t.offset with
      | some offset =>
        if t.installed then none
        else
          let w' := setWriteOffset w t.storage offset
          let t' := { t with installed := true }
          some { w' with threads := w.threads.set thread t' }
      | none => none
    | none => none
  | .proclaim thread =>
    match w.threads[thread]? with
    | some t =>
      if t.installed then
        let w' := { w with
          leaderKey := .proclaimed t.storage
          threads := w.threads.eraseIdx thread }
        some (w'.notify .proclaimed)
      else none
    | none => none

/-- No allocation overlaps a range that was acknowledged before it was handed
out. -/
def AckedKept (w : World) : Prop := ∀ r ∈ w.requests, ∀ a ∈ r.ackedBefore, ¬ a.Overlaps r.allocation

/-- The condition on the steps of a run: an accepted allocation starts within
the capacity, and an installed offset does not lower the write offset of the
winner. -/
def OffsetsKept (conf : GroupConf) (w : World) : Action → Prop
  | .allocate size alignment =>
    ∀ leader ∈ w.leaderKey.leader,
      alignUp (w.writeOffset leader) alignment ≤ conf.maxDataStoreSize ∨
        (allocateAt conf.maxDataStoreSize (w.writeOffset leader) size
          alignment).toOption = none
  | .install thread =>
    ∀ t ∈ w.threads[thread]?, ∀ offset ∈ t.offset, w.writeOffset t.storage ≤ offset
  | _ => True

instance (conf : GroupConf) (w : World) (action : Action) :
    Decidable (OffsetsKept conf w action) := by
  cases action <;> unfold OffsetsKept <;> infer_instance

instance (w : World) : Decidable (AckedKept w) :=
  inferInstanceAs (Decidable (∀ r ∈ w.requests, ∀ a ∈ r.ackedBefore, ¬ a.Overlaps r.allocation))

variable {conf : GroupConf} {w : World} {a : Allocation} {id index : Nat} {r : Request}

/-- The invariant: the write offset of every storage that has applied a write
is behind the write, acknowledged writes are applied everywhere, and no
allocation overlaps what was acknowledged before it. -/
structure Inv (conf : GroupConf) (w : World) : Prop where
  word : ∀ r ∈ w.requests, r.allocation.finish < 2 ^ 64
  applied : ∀ r ∈ w.requests, ∀ id ∈ r.applied, r.allocation.finish ≤ w.writeOffset id
  acked : ∀ r ∈ w.requests, r.acked = true → ∀ id, id < conf.storages → id ∈ r.applied
  kept : AckedKept w

/-- What the invariant says of one request. -/
structure Sound (conf : GroupConf) (w : World) (r : Request) : Prop where
  word : r.allocation.finish < 2 ^ 64
  applied : ∀ id ∈ r.applied, r.allocation.finish ≤ w.writeOffset id
  acked : r.acked = true → ∀ id, id < conf.storages → id ∈ r.applied
  kept : ∀ a ∈ r.ackedBefore, ¬ a.Overlaps r.allocation

/-- Steps that lower no write offset keep the invariant, if it holds of the
requests that they change. -/
theorem Inv.raise {w w' : World} (h : Inv conf w)
    (hoffs : ∀ id, w.writeOffset id ≤ w'.writeOffset id)
    (hrequests : ∀ r ∈ w'.requests, r ∈ w.requests ∨ Sound conf w' r) : Inv conf w' := by
  have hall : ∀ r ∈ w'.requests, Sound conf w' r := by
    intro r hr
    rcases hrequests r hr with hold | hnew
    · exact ⟨h.word r hold, fun id hid => (h.applied r hold id hid).trans (hoffs id),
        h.acked r hold, h.kept r hold⟩
    · exact hnew
  exact ⟨fun r hr => (hall r hr).word, fun r hr => (hall r hr).applied,
    fun r hr => (hall r hr).acked, fun r hr => (hall r hr).kept⟩

theorem Inv.acked_below (h : Inv conf w) (ha : a ∈ w.acked) (hid : id < conf.storages) :
    a.finish ≤ w.writeOffset id := by
  obtain ⟨r, hr, rfl⟩ := List.mem_map.mp ha
  obtain ⟨hmem, hacked⟩ := mem_filter.mp hr
  exact h.applied r hmem id (h.acked r hmem hacked id hid)

theorem le_setWriteOffset {val : Nat} (hle : w.writeOffset id ≤ val) (x : Nat) :
    w.writeOffset x ≤ (setWriteOffset w id val).writeOffset x := by
  simp only [setWriteOffset]
  rcases eq_or_ne x id with rfl | hne
  · rwa [update_self]
  · rw [update_of_ne hne]

theorem Inv.allocate (h : Inv conf w) {leader size alignment : Nat}
    (hlead : leader < conf.storages)
    (hok : alignUp (w.writeOffset leader) alignment ≤ conf.maxDataStoreSize ∨ (allocateAt conf.maxDataStoreSize (w.writeOffset leader) size alignment).toOption = none)
    : Inv conf (w.allocate conf leader size alignment) := by
  rcases halloc : allocateAt conf.maxDataStoreSize (w.writeOffset leader) size alignment with
    e | a
  · simpa only [World.allocate, halloc] using h
  · rcases hok with hstart | hnone
    · have hmax := conf.maxDataStoreSize_lt
      obtain ⟨rfl, hroom⟩ := allocateAt_within halloc hstart hmax
      have hlow := le_alignUp (w.writeOffset leader) alignment
      have hword := lt_of_le_of_lt hroom hmax
      simp only [World.allocate, halloc, wrap_of_lt hword]
      refine h.raise (le_setWriteOffset (hlow.trans (Nat.le_add_right _ _))) fun r hr => ?_
      refine (mem_append.mp hr).imp_right fun hnew => ?_
      rw [mem_singleton.mp hnew]
      refine ⟨hword, fun _ hid => (not_mem_nil hid).elim, nofun, ?_⟩
      intro b hb hoverlap
      have hbelow := h.acked_below hb hlead
      have := hoverlap.2
      simp only at this
      omega
    · rw [halloc] at hnone
      cases hnone

theorem Inv.apply (h : Inv conf w) (hr : w.requests[index]? = some r) (id : Nat) :
    Inv conf (w.apply index r id) := by
  have hmem := mem_of_getElem? hr
  have hword := h.word r hmem
  have hfin : wrap 64 (r.allocation.offset + r.allocation.size) = r.allocation.finish :=
    wrap_of_lt hword
  have hoffs : ∀ x, w.writeOffset x ≤
      (setWriteOffset w id (max (w.writeOffset id) r.allocation.finish)).writeOffset x :=
    le_setWriteOffset (le_max_left _ _)
  simp only [World.apply, hfin]
  refine h.raise hoffs fun x hx => (mem_or_eq_of_mem_set hx).imp_right ?_
  rintro rfl
  refine ⟨hword, ?_, ?_, h.kept r hmem⟩
  · intro y hy
    rcases mem_cons.mp hy with rfl | hy
    · simp [setWriteOffset]
    · exact (h.applied r hmem y hy).trans (hoffs y)
  · intro hacked y hy
    exact mem_cons_of_mem _ (h.acked r hmem hacked y hy)

theorem Inv.acknowledge (h : Inv conf w) (hr : w.requests[index]? = some r)
    (hall : ∀ id, id < conf.storages → id ∈ r.applied) :
    Inv conf { w with requests := w.requests.set index { r with acked := true } } := by
  have hmem := mem_of_getElem? hr
  refine h.raise (fun _ => le_refl _) fun x hx => (mem_or_eq_of_mem_set hx).imp_right ?_
  rintro rfl
  exact ⟨h.word r hmem, h.applied r hmem, fun _ => hall, h.kept r hmem⟩

theorem campaign_offsets (w : World) (id : Nat) :
    (w.campaign id).requests = w.requests ∧ (w.campaign id).writeOffset = w.writeOffset := by
  simp only [World.campaign]
  split <;> exact ⟨rfl, rfl⟩

theorem handleEvent_offsets {w w' : World} (h : w.handleEvent id = some w') :
    w'.requests = w.requests ∧ w'.writeOffset = w.writeOffset := by
  simp only [World.handleEvent] at h
  split at h
  · cases h
  · split at h <;> cases h
    · exact campaign_offsets _ id
    · exact ⟨rfl, rfl⟩

theorem Inv.step {w w' : World} {action : Action} (h : Inv conf w) (hok : OffsetsKept conf w action)
    (hnext : next conf w action = some w') : Inv conf w' := by
  revert hnext
  fun_cases next conf w action <;> intro hnext <;> try cases hnext
  case case1 leader hkey hlead => exact h.allocate hlead (hok leader hkey)
  case case4 r hr _ => exact h.apply hr _
  case case7 r hr hall _ => exact h.acknowledge hr hall
  case case12 =>
    obtain ⟨hrequests, hoffs⟩ := handleEvent_offsets hnext
    exact h.raise (fun id => le_of_eq (congrFun hoffs id).symm) fun _ hr => .inl (hrequests ▸ hr)
  case case22 t ht offset hoff _ _ _ =>
    exact h.raise (le_setWriteOffset (hok t ht offset hoff)) fun _ => .inl
  all_goals exact h.raise (fun _ => le_refl _) fun _ => .inl

/-- In every run whose installed offsets do not lower a write offset, no leader
hands out a range that was acknowledged before. -/
theorem leader_change_keeps_acked (conf : GroupConf) (writeOffset : Nat → Nat) {w : World}
    (h : Reachable (next conf) (OffsetsKept conf) (start writeOffset) w) : AckedKept w := by
  have hinit : Inv conf (start writeOffset) := by
    refine ⟨?_, ?_, ?_, ?_⟩ <;> intro r hr <;> cases hr
  exact (h.invariant hinit (fun _ _ _ hs hok hnext => hs.step hok hnext)).kept

def twoStorages : GroupConf := ⟨2, 100, by decide⟩

/-- The first storage becomes leader. -/
def firstElection : List Action :=
  [.handleEvent 0, .handleEvent 1, .gather 0, .summarize 0, .install 0, .proclaim 0,
    .handleEvent 0, .handleEvent 1]

/-- A write that is applied before the second storage takes over. -/
theorem leader_change_keeps_acked_sample :
    ∃ w, Reachable (next twoStorages) (OffsetsKept twoStorages) (start fun _ => 0) w ∧
      w.requests.map Request.allocation = [⟨0, 4⟩, ⟨4, 4⟩] ∧ AckedKept w :=
  exists_sample
    (firstElection ++ [.allocate 4 1, .apply 0 0, .apply 0 1, .acknowledge 0, .loseKey,
      .handleEvent 1, .gather 0, .summarize 0, .install 0, .proclaim 0, .allocate 4 1])
    (by decide +kernel) fun _ hreach _ => leader_change_keeps_acked twoStorages _ hreach

/-- The second storage publishes its offset before it applies a write of the
first leader, whose own offset does not arrive in time. The write is
acknowledged, then the old offset is installed, and the new leader hands out
the range of the write again. -/
theorem leader_change_reallocates_acked :
    ¬ ∀ (conf : GroupConf) (writeOffset : Nat → Nat) (w : World),
      Reachable (next conf) (fun _ _ => True) (start writeOffset) w → AckedKept w := by
  intro hall
  obtain ⟨w, hkept, hw⟩ := exists_of_forall (hall twoStorages fun _ => 0) (fun w => ¬ AckedKept w)
    (firstElection ++ [.allocate 4 1, .loseKey, .handleEvent 1, .gather 0, .summarize 0,
      .apply 0 0, .apply 0 1, .acknowledge 0, .install 0, .proclaim 0, .allocate 4 1])
    (by decide +kernel)
  exact hw hkept

end UhCore.Group.Election
