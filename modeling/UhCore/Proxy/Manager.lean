import UhCore.Lib.Transition
import UhCore.Proxy.DiskSource
import UhCore.Proxy.LruCache

/-!
The disk cache of the proxy: sinks that store objects, the manager with its
cache, its deletion queue and its eviction task, and the sources through which
stored objects are read. Handles are numbered; what owns a handle is seen from
the state, and so is its use count. An action goes up to the next suspension
point of the coroutine that takes it.
-/

namespace UhCore.Proxy

open Entrypoint (Text)
open Words Transition

structure ObjectMetadata where
  path : Text
  version : Text
  deriving DecidableEq

/-- `content` is what was written to the address. -/
structure ObjectHandle where
  address : Address
  headerSize : Nat
  content : Text

/-- `reading` is the address that a call of `get` waits for. The buffers of all
calls have room for `requested` bytes, and `received` was returned in them. -/
structure DiskSource where
  objh : Nat
  addrIndex : Nat
  fragOffset : Nat
  requested : Nat
  received : Text
  reading : Option Address
  deriving DecidableEq

namespace DiskSource

/-- `disk_source::get` up to the read of the storage. -/
def asking (h : ObjectHandle) (r : DiskSource) (room : Nat) : DiskSource :=
  let (addr, index, offset) := getLoop (h.address.drop r.addrIndex) r.fragOffset room
  { r with
    addrIndex := r.addrIndex + index
    fragOffset := offset
    requested := r.requested + room
    reading := if addr.dataSize > 0 then some addr else none }

/-- `disk_source::get` from the end of the read. -/
def answered (r : DiskSource) (data : Text) : DiskSource :=
  { r with received := r.received ++ data, reading := none }

end DiskSource

/-- A call of `manager::put` that waits for the unlink of what it evicted. -/
structure PendingPut where
  key : ObjectMetadata
  objh : Nat
  evicted : List Nat
  deriving DecidableEq

/-- `unlinked` has the handles whose address was passed to the unlink of the
storage. The eviction task waits for the unlink of the handles in `task`. -/
structure Disk (σ : Type) where
  storage : σ
  handles : Nat → ObjectHandle
  created : Nat
  sinks : List Nat
  cache : LruCache ObjectMetadata Nat
  capacity : Nat
  currentSize : Nat
  deletionQueue : List Nat
  puts : List PendingPut
  task : Option (List Nat)
  sources : List DiskSource
  unlinked : List Nat

/-- The loop of `deletion_queue::pop`: the entries taken and the entries left. -/
def pop {ι : Type} (dataSize : ι → Nat) : Nat → List ι → List ι × List ι
  | _, [] => ([], [])
  | size, e :: queue =>
    if size = 0 then ([], e :: queue)
    else
      let (taken, left) := pop dataSize (if size > dataSize e then size - dataSize e else 0) queue
      (e :: taken, left)

theorem pop_append {ι : Type} (dataSize : ι → Nat) (size : Nat) (queue : List ι) :
    (pop dataSize size queue).1 ++ (pop dataSize size queue).2 = queue := by
  fun_induction pop dataSize size queue with
  | case1 => rfl
  | case2 => rfl
  | case3 size e queue hsize taken left heq ih =>
    rw [heq] at ih
    exact congrArg (e :: ·) ih

/-- The size that one round of the eviction task asks for, ten mebibytes. -/
def evictionSize : Nat := 10 * 1024 * 1024

namespace Disk

variable {σ : Type}

def start (storage : σ) (capacity : Nat) : Disk σ :=
  { storage, handles := fun _ => ⟨[], 0, []⟩, created := 0, sinks := [], cache := .empty, capacity
    currentSize := 0, deletionQueue := [], puts := [], task := none, sources := []
    unlinked := [] }

def dataSize (s : Disk σ) (id : Nat) : Nat := (s.handles id).address.dataSize

def gatherAddress (s : Disk σ) (evicted : List Nat) : Address :=
  evicted.flatMap fun id => (s.handles id).address

def useCount (s : Disk σ) (id : Nat) : Nat :=
  s.cache.entries.count id + s.deletionQueue.count id +
    (s.puts.flatMap PendingPut.evicted).count id + (s.task.getD []).count id +
    (s.sources.map DiskSource.objh).count id

def newSink (s : Disk σ) : Disk σ :=
  { s with
    handles := Function.update s.handles s.created ⟨[], 0, []⟩
    created := s.created + 1
    sinks := s.created :: s.sinks }

/-- `disk_sink::put`. A write that fails throws, and the sink is as before. -/
def sinkPut (dv : DataView σ) (s : Disk σ) (id : Nat) (data : Text) (failed : Bool) : Disk σ :=
  if data = [] ∨ failed then s
  else
    let h := s.handles id
    { s with
      storage := (dv.write s.storage data).2
      handles := Function.update s.handles id
        { h with
          address := h.address ++ (dv.write s.storage data).1
          content := h.content ++ data } }

def setHeaderSize (s : Disk σ) (id size : Nat) : Disk σ :=
  { s with handles := Function.update s.handles id { s.handles id with headerSize := size } }

/-- The call of the unlink of the storage. -/
def unlink (dv : DataView σ) (s : Disk σ) (evicted : List Nat) : Disk σ :=
  { s with
    storage := dv.unlink s.storage (s.gatherAddress evicted)
    unlinked := evicted ++ s.unlinked }

/-- The end of `manager::put`: an entry that is replaced goes to the deletion
queue. -/
def insert (s : Disk σ) (key : ObjectMetadata) (id : Nat) : Disk σ :=
  { s with
    cache := (s.cache.put key id).2
    deletionQueue := s.deletionQueue ++ (s.cache.put key id).1.toList }

def requiredSize (s : Disk σ) (id : Nat) : Nat :=
  let total := wrap 64 (s.currentSize + s.dataSize id)
  if total > s.capacity then total - s.capacity else 0

/-- `manager::put` up to the unlink of what it evicts, or to its end. -/
def put (dv : DataView σ) (s : Disk σ) (id : Nat) (key : ObjectMetadata) : Disk σ :=
  if s.requiredSize id > 0 then
    let evicted := s.cache.evict s.useCount s.dataSize (s.requiredSize id)
    { s.unlink dv evicted.1 with
      sinks := s.sinks.erase id
      cache := evicted.2
      puts := ⟨key, id, evicted.1⟩ :: s.puts }
  else
    { s with
      sinks := s.sinks.erase id
      currentSize := wrap 64 (s.currentSize + s.dataSize id) }.insert key id

/-- `manager::put` from the end of the unlink. An unlink that fails throws. -/
def putDone (s : Disk σ) (p : PendingPut) (failed : Bool) : Disk σ :=
  if failed then { s with puts := s.puts.erase p }
  else
    let addrSize := (s.gatherAddress p.evicted).dataSize
    let objSize := s.dataSize p.objh
    { s with
      puts := s.puts.erase p
      currentSize :=
        if addrSize > objSize then wsub 64 s.currentSize (addrSize - objSize)
        else wrap 64 (s.currentSize + (objSize - addrSize)) }.insert p.key p.objh

def get (s : Disk σ) (key : ObjectMetadata) : Disk σ :=
  match s.cache.get key with
  | (none, cache) => { s with cache := cache }
  | (some id, cache) => { s with
      cache := cache
      sources := ⟨id, 0, 0, 0, [], none⟩ :: s.sources }

def read (s : Disk σ) (r : DiskSource) (room : Nat) : Disk σ :=
  { s with sources := r.asking (s.handles r.objh) room :: s.sources.erase r }

def readDone (dv : DataView σ) (s : Disk σ) (r : DiskSource) (addr : Address) (failed : Bool) :
    Disk σ :=
  if failed then { s with sources := s.sources.erase r }
  else { s with sources := r.answered (dv.readAddress s.storage addr) :: s.sources.erase r }

/-- A round of the eviction task up to the unlink. -/
def evict (dv : DataView σ) (s : Disk σ) : Disk σ :=
  let (evicted, queue) := pop s.dataSize evictionSize s.deletionQueue
  if evicted = [] then s
  else
    { s.unlink dv evicted with
      deletionQueue := queue
      task := some evicted }

def evictDone (s : Disk σ) (evicted : List Nat) (failed : Bool) : Disk σ :=
  { s with
    task := none
    currentSize :=
      if failed then s.currentSize
      else wsub 64 s.currentSize (s.gatherAddress evicted).dataSize }

inductive Action where
  | newSink
  | sinkPut (id : Nat) (data : Text) (failed : Bool)
  | setHeaderSize (id size : Nat)
  | put (id : Nat) (key : ObjectMetadata)
  | putDone (p : PendingPut) (failed : Bool)
  | get (key : ObjectMetadata)
  | read (r : DiskSource) (room : Nat)
  | readDone (r : DiskSource) (failed : Bool)
  | drop (r : DiskSource)
  | evict
  | evictDone (failed : Bool)

def next (dv : DataView σ) (s : Disk σ) : Action → Option (Disk σ)
  | .newSink => some s.newSink
  | .sinkPut id data failed => if id ∈ s.sinks then some (s.sinkPut dv id data failed) else none
  | .setHeaderSize id size => if id ∈ s.sinks then some (s.setHeaderSize id size) else none
  | .put id key => if id ∈ s.sinks then some (s.put dv id key) else none
  | .putDone p failed => if p ∈ s.puts then some (s.putDone p failed) else none
  | .get key => some (s.get key)
  | .read r room => if r ∈ s.sources ∧ r.reading = none then some (s.read r room) else none
  | .readDone r failed =>
    match r.reading with
    | some addr => if r ∈ s.sources then some (s.readDone dv r addr failed) else none
    | none => none
  | .drop r => if r ∈ s.sources then some { s with sources := s.sources.erase r } else none
  | .evict => if s.task = none then some (s.evict dv) else none
  | .evictDone failed =>
    match s.task with
    | some evicted => some (s.evictDone evicted failed)
    | none => none

/-- No object that is read was passed to the unlink of the storage. -/
def Served (s : Disk σ) : Prop := ∀ r ∈ s.sources, r.objh ∉ s.unlinked

/-- The calls of `get` that returned have read what was stored, each from where
the one before ended and as much as its buffer has room for. -/
def ReadsBack (s : Disk σ) : Prop :=
  ∀ r ∈ s.sources, r.reading = none → r.received = (s.handles r.objh).content.take r.requested

/-- The condition on the steps of a run: the eviction task starts a round only
when no source of an entry that it takes from the deletion queue exists. -/
def Undisturbed (s : Disk σ) : Action → Prop
  | .evict =>
    ∀ id ∈ (pop s.dataSize evictionSize s.deletionQueue).1, ∀ r ∈ s.sources, r.objh ≠ id
  | _ => True

instance (s : Disk σ) (action : Action) : Decidable (s.Undisturbed action) := by
  cases action <;> unfold Undisturbed <;> infer_instance

instance (s : Disk σ) : Decidable s.Served := inferInstanceAs (Decidable (∀ r ∈ s.sources, _))

instance (s : Disk σ) : Decidable s.ReadsBack :=
  inferInstanceAs (Decidable (∀ r ∈ s.sources, _ → _))

end Disk

end UhCore.Proxy
