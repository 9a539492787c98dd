import UhCore.Caches.LruCache
import UhCore.Types

/-!
The cache in front of the storage cluster. A read whose pointer is cached with
at least as many bytes as asked for returns what is cached, all of it; other
reads go to the cluster and are put into the cache under their pointer.
-/

namespace UhCore.Caches

structure ReadCache where
  lru : LruCache Nat (List UInt8)

namespace ReadCache

/-- What a read of the cluster returns. -/
abbrev Backing := Nat → Nat → List UInt8

/-- The cluster never changes and returns as many bytes as asked for. -/
def Backing.Exact (backing : Backing) : Prop := ∀ pointer n, 0 < n → (backing pointer n).length = n

def empty (capacity : Nat) : ReadCache := ⟨.empty capacity⟩

/-- The body of both reads. -/
def fetch (backing : Backing) (what : String) (c : ReadCache) (pointer size : Nat) :
    Except Exn (List UInt8) × ReadCache :=
  if size = 0 then (.error (.runtimeError what), c)
  else
    match c.lru.get pointer with
    | (some cp, lru) =>
      if size ≤ cp.length then (.ok cp, ⟨lru⟩)
      else (.ok (backing pointer size), ⟨lru.put pointer (backing pointer size)⟩)
    | (none, lru) => (.ok (backing pointer size), ⟨lru.put pointer (backing pointer size)⟩)

def readFragment (backing : Backing) : ReadCache → Nat → Nat → Except Exn (List UInt8) × ReadCache :=
  fetch backing "read: fragment size must be larger than zero"

def read (backing : Backing) : ReadCache → Nat → Nat → Except Exn (List UInt8) × ReadCache :=
  fetch backing "read: size must be larger than zero"

/-- A call of one of the two reads. -/
inductive Call where
  | readFragment (pointer size : Nat)
  | read (pointer size : Nat)

def Call.pointer : Call → Nat
  | .readFragment pointer _ => pointer
  | .read pointer _ => pointer

def Call.size : Call → Nat
  | .readFragment _ size => size
  | .read _ size => size

def call (backing : Backing) (c : ReadCache) : Call → Except Exn (List UInt8) × ReadCache
  | .readFragment pointer size => c.readFragment backing pointer size
  | .read pointer size => c.read backing pointer size

def after (backing : Backing) : ReadCache → List Call → ReadCache
  | c, [] => c
  | c, op :: ops => after backing (c.call backing op).2 ops

/-- Every cached value is what the cluster returns for its pointer and length. -/
def Faithful (backing : Backing) (c : ReadCache) : Prop :=
  ∀ node ∈ c.lru.nodes, node.2 = backing node.1 node.2.length

variable {backing : Backing} {c : ReadCache} {size : Nat}

theorem faithful_empty (backing : Backing) (capacity : Nat) : Faithful backing (empty capacity) := by
  intro node hnode
  cases hnode

section

variable (h : Faithful backing c) (hexact : backing.Exact)

include h hexact

theorem Faithful.put
    {lru : LruCache Nat (List UInt8)} (hlru : ∀ node ∈ lru.nodes, node ∈ c.lru.nodes)
    (pointer : Nat) (hsize : 0 < size) :
    Faithful backing ⟨lru.put pointer (backing pointer size)⟩ := by
  intro node hnode
  rcases LruCache.mem_put hnode with rfl | hold
  · simp only [hexact pointer size hsize]
  · exact h node (hlru node hold)

theorem Faithful.fetch (what : String)
    (pointer size : Nat) : Faithful backing (c.fetch backing what pointer size).2 := by
  have hlru : ∀ node ∈ (c.lru.get pointer).2.nodes, node ∈ c.lru.nodes :=
    fun node hnode => LruCache.mem_get hnode
  unfold ReadCache.fetch
  split
  · exact h
  · rename_i hsize
    have hpos := pos_of_ne_zero hsize
    split
    · rename_i cp lru hget
      rw [hget] at hlru
      split
      · exact fun node hnode => h node (hlru node hnode)
      · exact h.put hexact hlru pointer hpos
    · rename_i lru hget
      rw [hget] at hlru
      exact h.put hexact hlru pointer hpos

theorem Faithful.call (op : Call) : Faithful backing (c.call backing op).2 := by
  cases op with
  | readFragment pointer size => exact h.fetch hexact _ pointer size
  | read pointer size => exact h.fetch hexact _ pointer size

theorem Faithful.after (ops : List Call) : Faithful backing (c.after backing ops) := by
  induction ops generalizing c with
  | nil => exact h
  | cons op ops ih => exact ih (h.call hexact op)

/-- A read returns what the cluster returns unless more bytes are cached. -/
theorem Faithful.fetch_eq_iff (what : String)
    (pointer : Nat) (hsize : 0 < size) :
    (c.fetch backing what pointer size).1 = .ok (backing pointer size) ↔
      ∀ cp, c.lru.lookup pointer = some cp → cp.length ≤ size := by
  have hget := c.lru.get_fst pointer
  unfold ReadCache.fetch
  rw [if_neg hsize.ne']
  split
  case h_1 cp lru heq =>
    rw [heq] at hget
    have hcached := h _ (LruCache.mem_of_lookup hget.symm)
    rw [← hget]
    simp only [Option.some.injEq, forall_eq']
    split
    case isTrue hle =>
      simp only [Except.ok.injEq]
      constructor
      · intro hcp
        rw [hcp, hexact pointer size hsize]
      · intro hge
        have hlen : cp.length = size := le_antisymm hge hle
        simp only at hcached
        rw [hcached, hlen]
    case isFalse hshort => exact iff_of_true rfl (le_of_lt (not_le.mp hshort))
  case h_2 lru heq =>
    rw [heq] at hget
    rw [← hget]
    exact iff_of_true rfl (by simp)

end

/-- After any sequence of calls, a call returns what the cluster returns exactly
when no longer value is cached for its pointer. -/
theorem read_cache_transparent_iff (hexact : backing.Exact) {capacity : Nat} (_ : 1 ≤ capacity)
    (ops : List Call) (op : Call) (hsize : 0 < op.size) :
    (((empty capacity).after backing ops).call backing op).1 = .ok (backing op.pointer op.size) ↔
      ∀ cp, ((empty capacity).after backing ops).lru.lookup op.pointer = some cp →
        cp.length ≤ op.size := by
  have hfaithful := (faithful_empty backing capacity).after hexact ops
  cases op with
  | readFragment pointer size => exact hfaithful.fetch_eq_iff hexact _ pointer hsize
  | read pointer size => exact hfaithful.fetch_eq_iff hexact _ pointer hsize

/-- A cluster that has the same byte everywhere. -/
def uniformBacking : Backing := fun _ n => List.replicate n 7

theorem uniformBacking_exact : uniformBacking.Exact :=
  fun _ _ _ => List.length_replicate

/-- A longer read of a pointer that is cached. -/
theorem read_cache_transparent_grown : uniformBacking.Exact ∧
      (((empty 1).after uniformBacking [.read 0 3]).call uniformBacking (.readFragment 0 5)).1 =
        .ok [7, 7, 7, 7, 7] := by
  refine ⟨uniformBacking_exact, ?_⟩
  refine (read_cache_transparent_iff uniformBacking_exact (le_refl 1) [.read 0 3]
    (.readFragment 0 5) (by decide)).mpr ?_
  intro cp hcp
  have hcached : ((empty 1).after uniformBacking [.read 0 3]).lru.lookup 0 = some [7, 7, 7] := by
    decide +kernel
  obtain rfl := Option.some.inj (hcp.symm.trans hcached)
  decide

/-- A shorter read of a pointer that is cached returns all that is cached. -/
theorem shorter_read_returns_more : uniformBacking.Exact ∧
      (((empty 1).after uniformBacking [.read 0 5]).call uniformBacking (.read 0 3)).1 =
        .ok [7, 7, 7, 7, 7] ∧ uniformBacking 0 3 = [7, 7, 7] :=
  ⟨uniformBacking_exact, by decide +kernel, by decide⟩

end ReadCache

end UhCore.Caches
