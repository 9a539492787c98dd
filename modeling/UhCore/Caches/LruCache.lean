import Mathlib.Tactic

/-!
The cache of the most recently used values. The nodes are kept in a list, the
least recently used one first; the map from keys to nodes is a search of the
list, as every key has one node.
-/

namespace UhCore.Caches

open List Prod

structure LruCache (κ ν : Type) where
  capacity : Nat
  nodes : List (κ × ν)
  nodup : (nodes.map fst).Nodup

namespace LruCache

variable {κ ν : Type}

def empty (capacity : Nat) : LruCache κ ν := ⟨capacity, [], nodup_nil⟩

/-- A full cache drops the least recently used node. -/
def evicted (c : LruCache κ ν) : List (κ × ν) :=
  if c.capacity ≤ c.nodes.length then c.nodes.tail else c.nodes

theorem evicted_sublist (c : LruCache κ ν) : c.evicted.Sublist c.nodes := by
  unfold evicted
  split
  · exact tail_sublist _
  · exact List.Sublist.refl _

variable {key : κ} {c : LruCache κ ν} {node : κ × ν}

theorem nodup_append {nodes : List (κ × ν)} (hnodup : (nodes.map fst).Nodup)
    (hkey : key ∉ nodes.map fst) (value : ν) :
    ((nodes ++ [(key, value)]).map fst).Nodup := by
  rw [map_append]
  refine List.nodup_append.mpr ⟨hnodup, nodup_singleton _, ?_⟩
  intro a ha b hb heq
  have hlast : a = key := heq.trans (mem_singleton.mp hb)
  rw [hlast] at ha
  exact hkey ha

variable [DecidableEq κ] {value : ν}

/-- The value of a key, without using it. -/
def lookup (c : LruCache κ ν) (key : κ) : Option ν :=
  (c.nodes.find? fun node => decide (node.1 = key)).map snd

/-- The other nodes in their order. -/
def others (c : LruCache κ ν) (key : κ) : List (κ × ν) :=
  c.nodes.filter fun node => decide (node.1 ≠ key)

theorem notMem_others (c : LruCache κ ν) (key : κ) : key ∉ (c.others key).map fst := by
  intro h
  obtain ⟨node, hnode, rfl⟩ := List.mem_map.mp h
  simpa using (mem_filter.mp hnode).2

/-- The node of a key is moved to the end of the list, with this value. -/
def refresh (c : LruCache κ ν) (key : κ) (value : ν) : LruCache κ ν where
  capacity := c.capacity
  nodes := c.others key ++ [(key, value)]
  nodup := nodup_append (c.nodup.sublist (filter_sublist.map fst))
    (c.notMem_others key) value

def put (c : LruCache κ ν) (key : κ) (value : ν) : LruCache κ ν :=
  if h : key ∈ c.nodes.map fst then c.refresh key value
  else
    { capacity := c.capacity
      nodes := c.evicted ++ [(key, value)]
      nodup := nodup_append (c.nodup.sublist (c.evicted_sublist.map fst))
        (fun hmem => h ((c.evicted_sublist.map fst).subset hmem)) value }

def get (c : LruCache κ ν) (key : κ) : Option ν × LruCache κ ν :=
  match c.lookup key with
  | some value => (some value, c.refresh key value)
  | none => (none, c)

theorem mem_of_lookup (h : c.lookup key = some value) : (key, value) ∈ c.nodes := by
  obtain ⟨node, hnode, rfl⟩ := Option.map_eq_some_iff.mp h
  have hkey : node.1 = key := by simpa using find?_some hnode
  rw [← hkey]
  exact mem_of_find?_eq_some hnode

theorem mem_refresh (h : node ∈ (c.refresh key value).nodes) :
    node = (key, value) ∨ node ∈ c.nodes := by
  rcases mem_append.mp h with hold | hnew
  · exact .inr (mem_filter.mp hold).1
  · exact .inl (mem_singleton.mp hnew)

theorem mem_put (h : node ∈ (c.put key value).nodes) : node = (key, value) ∨ node ∈ c.nodes := by
  unfold put at h
  split at h
  · exact mem_refresh h
  · rcases mem_append.mp h with hold | hnew
    · exact .inr (c.evicted_sublist.subset hold)
    · exact .inl (mem_singleton.mp hnew)

theorem mem_get (h : node ∈ (c.get key).2.nodes) : node ∈ c.nodes := by
  unfold get at h
  split at h
  case h_1 value hlook =>
    rcases mem_refresh h with rfl | hold
    · exact mem_of_lookup hlook
    · exact hold
  case h_2 => exact h

theorem get_fst (c : LruCache κ ν) (key : κ) : (c.get key).1 = c.lookup key := by
  unfold get
  cases c.lookup key <;> rfl

end LruCache

end UhCore.Caches
