import Mathlib.Tactic

/-!
The cache of the proxy. Its nodes are kept in a list, the most recently used
one first. A node whose entry was replaced stays in the list with an empty
pointer; the map from keys to nodes is a search for the node of a key that has
an entry, as every key has at most one.
-/

namespace UhCore.Proxy

open List Prod

structure LruCache (κ ι : Type) where
  items : List (κ × Option ι)
  nodup : ((items.filter fun node => node.2.isSome).map fst).Nodup

namespace LruCache

variable {κ ι : Type}

def empty : LruCache κ ι := ⟨[], nodup_nil⟩

/-- The entries that the nodes own. -/
def entries (c : LruCache κ ι) : List ι := c.items.filterMap snd

theorem entries_filter (items : List (κ × Option ι)) :
    (items.filter fun node => node.2.isSome).filterMap snd = items.filterMap snd := by
  rw [filterMap_filter]
  apply filterMap_congr
  intro node _
  cases hnode : node.2 <;> simp

/-- The loop over the nodes from the least recently used one, with the size
that is still to be freed: the entries taken out and the nodes left. -/
def evictLoop (useCount dataSize : ι → Nat) :
    Nat → List (κ × Option ι) → List ι × List (κ × Option ι)
  | _, [] => ([], [])
  | size, (key, none) :: nodes =>
    let (taken, left) := evictLoop useCount dataSize size nodes
    (taken, (key, none) :: left)
  | size, (key, some e) :: nodes =>
    if size > 0 ∧ useCount e = 1 then
      let t := dataSize e
      let (taken, left) := evictLoop useCount dataSize (if t > size then 0 else size - t) nodes
      (e :: taken, left)
    else
      let (taken, left) := evictLoop useCount dataSize size nodes
      (taken, (key, some e) :: left)

theorem evictLoop_sublist (useCount dataSize : ι → Nat) (size : Nat)
    (nodes : List (κ × Option ι)) : (evictLoop useCount dataSize size nodes).2.Sublist nodes := by
  fun_induction evictLoop useCount dataSize size nodes with
  | case1 => exact List.Sublist.refl _
  | case2 size key nodes taken left heq ih =>
    rw [heq] at ih
    exact ih.cons_cons _
  | case3 size key e nodes h t taken left heq ih =>
    rw [heq] at ih
    exact ih.cons _
  | case4 size key e nodes h taken left heq ih =>
    rw [heq] at ih
    exact ih.cons_cons _

theorem nodup_of_sublist {nodes items : List (κ × Option ι)} (h : nodes.Sublist items)
    (hnodup : ((items.filter fun node => node.2.isSome).map fst).Nodup) :
    ((nodes.filter fun node => node.2.isSome).map fst).Nodup :=
  hnodup.sublist ((h.filter _).map fst)

def evict (c : LruCache κ ι) (useCount dataSize : ι → Nat) (size : Nat) : List ι × LruCache κ ι :=
  let result := evictLoop useCount dataSize size c.items.reverse
  (result.1,
    { items := result.2.reverse
      nodup := by
        refine nodup_of_sublist ?_ c.nodup
        have h := (evictLoop_sublist useCount dataSize size c.items.reverse).reverse
        rwa [reverse_reverse] at h })

/-- The entries taken out were used by the cache only. -/
theorem useCount_of_mem_evictLoop (useCount dataSize : ι → Nat) (size : Nat)
    (nodes : List (κ × Option ι)) :
    ∀ e ∈ (evictLoop useCount dataSize size nodes).1, useCount e = 1 := by
  fun_induction evictLoop useCount dataSize size nodes with
  | case1 => simp
  | case2 size key nodes taken left heq ih =>
    rw [heq] at ih
    exact ih
  | case3 size key e nodes h t taken left heq ih =>
    rw [heq] at ih
    exact forall_mem_cons.mpr ⟨h.2, ih⟩
  | case4 size key e nodes h taken left heq ih =>
    rw [heq] at ih
    exact ih

theorem perm_evictLoop (useCount dataSize : ι → Nat) (size : Nat)
    (nodes : List (κ × Option ι)) :
    ((evictLoop useCount dataSize size nodes).1 ++
      (evictLoop useCount dataSize size nodes).2.filterMap snd).Perm
      (nodes.filterMap snd) := by
  fun_induction evictLoop useCount dataSize size nodes with
  | case1 => simp
  | case2 size key nodes taken left heq ih =>
    rw [heq] at ih
    simpa using ih
  | case3 size key e nodes h t taken left heq ih =>
    rw [heq] at ih
    simpa using ih
  | case4 size key e nodes h taken left heq ih =>
    rw [heq] at ih
    simpa using perm_middle.trans (ih.cons e)

variable {useCount dataSize : ι → Nat} {size : Nat} {e : ι}

theorem useCount_of_mem_evict {c : LruCache κ ι} (h : e ∈ (c.evict useCount dataSize size).1) :
    useCount e = 1 :=
  useCount_of_mem_evictLoop useCount dataSize size c.items.reverse e h

variable (c : LruCache κ ι) {node : κ × Option ι} {key : κ}

/-- An eviction splits the entries into those taken out and those left. -/
theorem perm_evict (useCount dataSize : ι → Nat) (size : Nat) :
    ((c.evict useCount dataSize size).1 ++ (c.evict useCount dataSize size).2.entries).Perm
      c.entries := by
  have h := perm_evictLoop useCount dataSize size c.items.reverse
  rw [filterMap_reverse] at h
  refine (List.Perm.append_left _ ?_).trans (h.trans (reverse_perm _))
  unfold entries evict
  rw [filterMap_reverse]
  exact reverse_perm _

/-- `taken` are the first of the `idle` entries, as many as are needed to free
`size` bytes, or all if they are too few. -/
def Frees (dataSize : ι → Nat) (size : Nat) (idle taken : List ι) : Prop :=
  taken <+: idle ∧ (taken = idle ∨ size ≤ (taken.map dataSize).sum) ∧
    ∀ n < taken.length, ((taken.take n).map dataSize).sum < size

theorem frees_evictLoop (useCount dataSize : ι → Nat) (size : Nat) (nodes : List (κ × Option ι)) :
    Frees dataSize size ((nodes.filterMap snd).filter fun e => useCount e = 1)
      (evictLoop useCount dataSize size nodes).1 := by
  fun_induction evictLoop useCount dataSize size nodes with
  | case1 size => exact ⟨ nil_prefix, .inl rfl, nofun⟩
  | case2 size key nodes taken left heq ih =>
    rw [heq] at ih
    exact ih
  | case3 size key e nodes h t taken left heq ih =>
    simp only [heq] at ih
    obtain ⟨hfront, hfreed, hneeded⟩ := ih
    have hsub : (if t > size then 0 else size - t) = size - dataSize e := by
      change (if dataSize e > size then 0 else size - dataSize e) = _
      split <;> omega
    rw [hsub] at hfreed hneeded
    simp only [filterMap_cons, filter_cons, h.2, decide_true, if_true]
    refine ⟨prefix_cons_inj e |>.mpr hfront, ?_, ?_⟩
    · apply hfreed.imp (congrArg _)
      intro hle
      rw [map_cons, sum_cons]
      omega
    · rintro (_ | n) hn
      · exact h.1
      · have hlt := hneeded n (Nat.lt_of_succ_lt_succ hn)
        rw [take_succ_cons, map_cons, sum_cons]
        omega
  | case4 size key e nodes h taken left heq ih =>
    rw [heq] at ih
    rcases Nat.eq_zero_or_pos size with rfl | hpos
    · obtain rfl : taken = [] := by
        apply eq_nil_of_length_eq_zero
        by_contra hne
        exact Nat.not_lt_zero _ (ih.2.2 0 (Nat.pos_of_ne_zero hne))
      exact ⟨ nil_prefix, .inr (Nat.zero_le _), nofun⟩
    · have hused : useCount e ≠ 1 := fun hidle => h ⟨hpos, hidle⟩
      simpa [filter_cons, hused] using ih

/-- An eviction frees the least recently used of the entries that only the cache
uses, no more of them than needed. -/
theorem evict_frees (c : LruCache κ ι) (useCount dataSize : ι → Nat) (size : Nat) :
    Frees dataSize size (c.entries.reverse.filter fun e => useCount e = 1)
      (c.evict useCount dataSize size).1 := by
  rw [entries, ← filterMap_reverse]
  exact frees_evictLoop useCount dataSize size c.items.reverse

theorem mem_items_of_evict {c : LruCache κ ι} (h : node ∈
    (c.evict useCount dataSize size).2.items) : node ∈ c.items := by
  have hmem := (evictLoop_sublist useCount dataSize size c.items.reverse).subset (mem_reverse.mp h)
  exact mem_reverse.mp hmem

variable [DecidableEq κ]

def isNodeOf (key : κ) (node : κ × Option ι) : Bool := decide (node.1 = key) && node.2.isSome

def lookup (c : LruCache κ ι) (key : κ) : Option ι := (c.items.find? (isNodeOf key)).bind snd

def others (c : LruCache κ ι) (key : κ) : List (κ × Option ι) :=
  c.items.filter fun node => !isNodeOf key node

/-- The list with an empty pointer in the node of a key. -/
def released (c : LruCache κ ι) (key : κ) : List (κ × Option ι) :=
  c.items.map fun node => if isNodeOf key node then (node.1, none) else node

theorem isNodeOf_iff : isNodeOf key node = true ↔ ∃ e, node = (key, some e) := by
  obtain ⟨k, entry⟩ := node
  cases entry <;> simp [isNodeOf]

theorem notMem_others (key : κ) :
    key ∉ ((c.others key).filter fun node => node.2.isSome).map fst := by
  intro h
  obtain ⟨node, hnode, hkey⟩ := List.mem_map.mp h
  obtain ⟨hother, hsome⟩ := mem_filter.mp hnode
  have hnot := (mem_filter.mp hother).2
  simp [isNodeOf, hkey, hsome] at hnot

theorem filter_released (key : κ) : ((c.released key).filter fun node => node.2.isSome) =
      (c.others key).filter fun node => node.2.isSome := by
  unfold released others
  induction c.items with
  | nil => rfl
  | cons node items ih =>
    by_cases h : isNodeOf key node
    · simpa [h] using ih
    · simp [h, filter_cons, ih]

theorem nodup_cons_others (key : κ) (e : ι) :
    ((((key, some e) :: c.others key).filter fun node => node.2.isSome).map fst).Nodup := by
  rw [filter_cons_of_pos rfl, map_cons, nodup_cons]
  exact ⟨c.notMem_others key, nodup_of_sublist filter_sublist c.nodup⟩

/-- The node of a key that is looked up becomes the most recently used one. -/
def get (c : LruCache κ ι) (key : κ) : Option ι × LruCache κ ι :=
  match c.lookup key with
  | some e => (some e, ⟨(key, some e) :: c.others key, c.nodup_cons_others key e⟩)
  | none => (none, c)

/-- The entry that the key had before is returned. -/
def put (c : LruCache κ ι) (key : κ) (e : ι) : Option ι × LruCache κ ι :=
  (c.lookup key,
    { items := (key, some e) :: c.released key
      nodup := by
        have h := c.nodup_cons_others key e
        rw [filter_cons_of_pos rfl] at h ⊢
        rwa [filter_released] })

theorem perm_others_aux (items : List (κ × Option ι))
    (hnodup : ((items.filter fun node => node.2.isSome).map fst).Nodup) :
    (((items.find? (isNodeOf key)).bind snd).toList ++
      (items.filter fun node => !isNodeOf key node).filterMap snd).Perm
      (items.filterMap snd) := by
  induction items with
  | nil => simp
  | cons node items ih =>
    by_cases h : isNodeOf key node
    · obtain ⟨e, rfl⟩ := isNodeOf_iff.mp h
      rw [filter_cons_of_pos rfl, map_cons, nodup_cons] at hnodup
      have hrest : (items.filter fun node => !isNodeOf key node) = items := by
        rw [filter_eq_self]
        intro other hother
        have hne : ¬ isNodeOf key other := by
          intro hkey
          obtain ⟨e', rfl⟩ := isNodeOf_iff.mp hkey
          exact hnodup.1 (List.mem_map.mpr ⟨(key, some e'), mem_filter.mpr ⟨hother, rfl⟩, rfl⟩)
        simp [hne]
      simp [h, hrest]
    · have htail := ih (hnodup.sublist (((sublist_cons_self _ _).filter _).map _))
      rw [find?_cons_of_neg h, filter_cons_of_pos (by simp [h])]
      obtain ⟨k, entry⟩ := node
      cases entry with
      | none => simpa using htail
      | some e => exact perm_middle.trans (htail.cons e)

theorem perm_others (key : κ) :
    ((c.lookup key).toList ++ (c.others key).filterMap snd).Perm c.entries :=
  perm_others_aux c.items c.nodup

theorem mem_entries_of_lookup {c : LruCache κ ι} (h : c.lookup key = some e) : e ∈ c.entries := by
  refine (c.perm_others key).subset ?_
  rw [h]
  exact mem_append_left _ (mem_singleton.mpr rfl)

theorem perm_get (key : κ) : (c.get key).2.entries.Perm c.entries := by
  have h := c.perm_others key
  unfold get
  cases hlook : c.lookup key with
  | none => exact List.Perm.refl _
  | some e =>
    rw [hlook] at h
    exact h

theorem perm_put (key : κ) (e : ι) :
    ((c.put key e).1.toList ++ (c.put key e).2.entries).Perm (e :: c.entries) := by
  have hrel : (c.released key).filterMap snd = (c.others key).filterMap snd := by
    rw [← entries_filter, filter_released, entries_filter]
  have hents : (c.put key e).2.entries = e :: (c.others key).filterMap snd := by
    change e :: (c.released key).filterMap snd = _
    rw [hrel]
  rw [hents]
  exact perm_middle.trans ((c.perm_others key).cons e)

theorem mem_items_of_lookup {c : LruCache κ ι} (h : c.lookup key = some e) :
    (key, some e) ∈ c.items := by
  obtain ⟨node, hfind, hentry⟩ := Option.bind_eq_some_iff.mp h
  obtain ⟨e', rfl⟩ := isNodeOf_iff.mp (find?_some hfind)
  cases hentry
  exact mem_of_find?_eq_some hfind

theorem get_fst (key : κ) : (c.get key).1 = c.lookup key := by
  unfold get
  cases c.lookup key <;> rfl

theorem mem_items_get {c : LruCache κ ι} (h : node ∈ (c.get key).2.items) : node ∈ c.items := by
  unfold get at h
  cases hlook : c.lookup key with
  | none =>
    rw [hlook] at h
    exact h
  | some e =>
    rw [hlook] at h
    rcases mem_cons.mp h with rfl | hother
    · exact mem_items_of_lookup hlook
    · exact (mem_filter.mp hother).1

/-- A node with an entry behind a put is the new one or one that was there. -/
theorem mem_items_put {c : LruCache κ ι} {key k : κ} {e' : ι}
    (h : (k, some e') ∈ (c.put key e).2.items) : (k = key ∧ e' = e) ∨ (k, some e') ∈ c.items := by
  rcases mem_cons.mp h with hnew | hold
  · obtain ⟨rfl, heq⟩ := Prod.mk.inj hnew
    exact .inl ⟨rfl, Option.some.inj heq⟩
  · obtain ⟨node, hnode, heq⟩ := List.mem_map.mp hold
    split at heq
    · exact absurd (Prod.mk.inj heq).2 (by simp)
    · exact .inr (heq ▸ hnode)

end LruCache

end UhCore.Proxy
