import UhCore.Group.EcView
import UhCore.Lib.Transition

/-!
Failure and repair of the storages of an initialized erasure coded group. The
states of the storages and the assignment trigger are keys that every
maintainer observes in order. A leader that sees new storages and none that is
down starts a repairer with the states it has seen; the repairer recovers
stripe by stripe and then sets the trigger, on which every storage that is not
assigned yet sets its own state to assigned. Nothing below resets the trigger:
its key goes away with the lease of the process that set it.
-/

namespace UhCore.Group.Repair

open Transition Function

structure GroupData where
  geometry : EcGeometry
  coder : geometry.Coder
  stripes : Nat
  data : Nat → List (List UInt8)
  length_data : ∀ i, (data i).length = geometry.dataShards
  length_chunk : ∀ i, ∀ chunk ∈ data i, chunk.length = geometry.chunkSize

namespace GroupData

variable (group : GroupData)

def storages : Nat := group.geometry.storages

/-- The shards of a stripe. -/
def codeword (i : Nat) : List (List UInt8) := group.data i ++ group.coder.encode (group.data i)

def shard (id i : Nat) : List UInt8 := (group.codeword i).getD id []

end GroupData

inductive GroupState where
  | undetermined
  | healthy
  | degraded
  | failed
  | repairing
  deriving DecidableEq

inductive Event where
  | trigger (value : Bool)
  | storageState (id : Nat) (state : StorageState)
  deriving DecidableEq

/-- The process of a storage. Its state is stored on disk and survives a
restart; the rest is what its maintainer has in memory. -/
structure Maintainer where
  running : Bool
  subscribed : Bool
  state : StorageState
  view : Nat → StorageState
  groupState : GroupState
  isLeader : Bool
  queue : List Event

/-- A running repairer, at a stripe. -/
structure Repairer where
  owner : Nat
  states : Nat → StorageState
  stripe : Nat
  recovered : Option (List (List UInt8))
  written : List Nat
  cancelled : Bool

structure World where
  disk : Nat → Nat → Option (List UInt8)
  published : Nat → StorageState
  trigger : Bool
  maintainers : Nat → Maintainer
  repairers : List Repairer

inductive Action where
  | goDown (id : Nat)
  | restart (id : Nat)
  | replace (id : Nat)
  | initialRead (id : Nat) (services : Bool)
  | handle (id : Nat) (services : Bool)
  | becomeLeader (id : Nat)
  | readStripe (repairer : Nat)
  | writeShard (repairer id : Nat)
  | nextStripe (repairer : Nat)
  | abort (repairer : Nat)
  | cancel (repairer : Nat)
  | finish (repairer : Nat)
  | loseTrigger

/-- All storages are assigned and hold their shards. -/
def start (group : GroupData) : World where
  disk := fun id i => some (group.shard id i)
  published := fun _ => .assigned
  trigger := false
  maintainers := fun _ => ⟨true, true, .assigned, fun _ => .assigned, .healthy, false, []⟩
  repairers := []

def hasDown (storages : Nat) (states : Nat → StorageState) : Bool :=
  (List.range storages).any (fun id => states id = .down)

def assignedCount (storages : Nat) (states : Nat → StorageState) : Nat :=
  (List.range storages).countP (fun id => states id = .assigned)

/-- The decision of the leader in an initialized group: its new group state,
and whether it starts a repairer. `services` tells whether all storages were
found. -/
def storageStatesHandler (g : EcGeometry) (state : GroupState)
    (states : Nat → StorageState) (self : Nat) (services : Bool) : GroupState × Bool :=
  let down := hasDown g.storages states
  let assigned := assignedCount g.storages states
  let new := if state ≠ .healthy ∧ assigned = g.storages then .healthy else state
  let new := if state ≠ .degraded ∧ down ∧ g.dataShards ≤ assigned then .degraded else new
  let new := if state ≠ .failed ∧ assigned < g.dataShards then .failed else new
  if state ≠ .repairing ∧ ¬ down ∧ g.dataShards ≤ assigned ∧ assigned < g.storages then
    (.repairing, services && decide (states self ≠ .new))
  else (new, false)

namespace World

variable (w : World)

def setMaintainer (id : Nat) (m : Maintainer) : World :=
  { w with maintainers := update w.maintainers id m }

def storeShard (id i : Nat) (shard : List UInt8) : World :=
  { w with disk := update w.disk id (update (w.disk id) i (some shard)) }

def emptyDisk (id : Nat) : World := { w with disk := update w.disk id (fun _ => none) }

/-- Queue an event at every maintainer that watches the group. -/
def notify (event : Event) : World :=
  { w with maintainers := fun id =>
      let m := w.maintainers id
      if m.subscribed then { m with queue := m.queue ++ [event] } else m }

def publish (id : Nat) (state : StorageState) : World :=
  let w' := { w with published := update w.published id state }
  w'.notify (.storageState id state)

def putTrigger (value : Bool) : World :=
  let w' := { w with trigger := value }
  w'.notify (.trigger value)

def cancelRepairers (owner : Nat) : World :=
  { w with repairers := w.repairers.map (fun r =>
      if r.owner = owner then { r with cancelled := true } else r) }

def setRepairer (index : Nat) (r : Repairer) : World :=
  { w with repairers := w.repairers.set index r }

def removeRepairer (index : Nat) : World := { w with repairers := w.repairers.eraseIdx index }

def assignmentTriggerHandler (id : Nat) (value : Bool) : World :=
  let m := w.maintainers id
  if m.state ≠ .assigned ∧ value = true then
    (w.setMaintainer id { m with state := .assigned }).publish id .assigned
  else w

/-- What a maintainer does with an event. -/
def observe (id : Nat) : Event → World
  | .trigger value => w.assignmentTriggerHandler id value
  | .storageState x state =>
    let m := w.maintainers id
    w.setMaintainer id { m with view := update m.view x state }

/-- The callback after an event: a leader decides what to do. -/
def runHandler (group : GroupData) (id : Nat) (services : Bool) : World :=
  let m := w.maintainers id
  if m.isLeader then
    let decision := storageStatesHandler group.geometry m.groupState m.view id services
    let w' := w.setMaintainer id { m with groupState := decision.1 }
    if decision.2 then
      let w'' := w'.cancelRepairers id
      { w'' with repairers := w''.repairers ++ [⟨id, m.view, 0, none, [], false⟩] }
    else w'
  else w

def takeEvent (id : Nat) : Option World :=
  let m := w.maintainers id
  match m.queue with
  | [] => none
  | event :: rest =>
    if m.running then some ((w.setMaintainer id { m with queue := rest }).observe id event)
    else none

/-- The world after a maintainer has read all keys and begun to watch them. -/
def readKeys (id : Nat) : Option World :=
  let m := w.maintainers id
  if m.running ∧ ¬ m.subscribed then
    let w' := w.setMaintainer id { m with subscribed := true, view := w.published }
    some (w'.assignmentTriggerHandler id w.trigger)
  else none

end World

def emptyMaintainer : Maintainer := ⟨true, false, .new, fun _ => .down, .undetermined, false, []⟩

/-- The shards that a repairer has in its buffer after reading a stripe; a
stripe that a storage does not have is read as zeroes. -/
def readShards (group : GroupData) (w : World) (r : Repairer) : List (List UInt8) :=
  (List.range group.storages).map (fun id =>
    if r.states id = .new then List.replicate group.geometry.chunkSize 0
    else (w.disk id r.stripe).getD (List.replicate group.geometry.chunkSize 0))

def stats (group : GroupData) (r : Repairer) : List Bool :=
  (List.range group.storages).map (fun id => decide (r.states id = .assigned))

/-- One step of a storage, of a maintainer, of a repairer or of the trigger
key. -/
def next (group : GroupData) (w : World) : Action → Option World
  | .goDown id =>
    let m := w.maintainers id
    if m.running then
      let m' : Maintainer := ⟨false, false, m.state, m.view, .undetermined, false, []⟩
      some (((w.setMaintainer id m').publish id .down).cancelRepairers id)
    else none
  | .restart id =>
    let m := w.maintainers id
    if m.running then none
    else some ((w.setMaintainer id { m with running := true }).publish id m.state)
  | .replace id =>
    let w' := (w.emptyDisk id).setMaintainer id emptyMaintainer
    some ((w'.publish id .new).cancelRepairers id)
  | .initialRead id services =>
    (w.readKeys id).map (fun w' => w'.runHandler group id services)
  | .handle id services =>
    (w.takeEvent id).map (fun w' => w'.runHandler group id services)
  | .becomeLeader id =>
    let m := w.maintainers id
    if m.running then some (w.setMaintainer id { m with isLeader := true }) else none
  | .readStripe index =>
    match w.repairers[index]? with
    | some r =>
      if r.stripe < group.stripes ∧ r.cancelled = false ∧ r.recovered = none ∧
          ∀ id, id < group.storages → r.states id ≠ .new →
            (w.maintainers id).running = true then
        let shards := group.coder.recover (readShards group w r) (stats group r)
        some (w.setRepairer index { r with recovered := some shards })
      else none
    | none => none
  | .writeShard index id =>
    match w.repairers[index]? with
    | some r =>
      match r.recovered with
      | some shards =>
        if id < group.storages ∧ r.states id = .new ∧ (w.maintainers id).running = true then
          let w' := w.storeShard id r.stripe (shards.getD id [])
          some (w'.setRepairer index { r with written := id :: r.written })
        else none
      | none => none
    | none => none
  | .nextStripe index =>
    match w.repairers[index]? with
    | some r =>
      if r.recovered.isSome ∧
          ∀ id, id < group.storages → r.states id = .new → id ∈ r.written then
        some (w.setRepairer index
          { r with stripe := r.stripe + 1, recovered := none, written := [] })
      else none
    | none => none
  | .abort index => some (w.removeRepairer index)
  | .cancel index =>
    match w.repairers[index]? with
    | some r => some (w.setRepairer index { r with cancelled := true })
    | none => none
  | .finish index =>
    match w.repairers[index]? with
    | some r =>
      if r.recovered = none ∧ (group.stripes ≤ r.stripe ∨ r.cancelled = true) then
        some ((w.removeRepairer index).putTrigger true)
      else none
    | none => none
  | .loseTrigger => some (w.putTrigger false)

/-- The storage has its shard of every stripe. -/
def Holds (group : GroupData) (disk : Nat → Nat → Option (List UInt8)) (id : Nat) : Prop :=
  ∀ i, i < group.stripes → disk id i = some (group.shard id i)

/-- Every storage that is published as assigned has its shards. -/
def AssignedHold (group : GroupData) (w : World) : Prop :=
  ∀ id, id < group.storages → w.published id = .assigned → Holds group w.disk id

end UhCore.Group.Repair
