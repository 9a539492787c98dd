import Mathlib.Data.List.AList
import UhCore.Caches.FreqBuckets

/-!
The cache of the most often used values. The data of a key names its bucket
and its place there; erasing a key leaves its node where it is, so that the
buckets also hold nodes of keys that are not present.
-/

namespace UhCore.Caches

open List Option AList

structure KeyData (ν : Type) where
  val : ν
  bucket : Nat
  pos : Nat
  deriving DecidableEq, Repr

/-- The capacity is what is left of it. -/
structure LfuCache (κ ν : Type) where
  capacity : Nat
  keyData : AList (fun _ : κ => KeyData ν)
  freqBuckets : List (FreqBucket κ)
  nodes : Nat

namespace LfuCache

open FreqBucket

variable {κ ν : Type} [DecidableEq κ]

def empty (capacity : Nat) : LfuCache κ ν := ⟨capacity, ∅, [], 0⟩

def Present (c : LfuCache κ ν) (key : κ) : Prop := (c.keyData.lookup key).isSome = true

instance (c : LfuCache κ ν) (key : κ) : Decidable (c.Present key) :=
  inferInstanceAs (Decidable ((c.keyData.lookup key).isSome = true))

def increment (c : LfuCache κ ν) (key : κ) (data : KeyData ν) : LfuCache κ ν :=
  { c with
    keyData := c.keyData.insert key ⟨data.val, data.bucket + 1, c.nodes⟩
    freqBuckets := FreqBucket.increment data.bucket data.pos ⟨key, c.nodes⟩ c.freqBuckets
    nodes := c.nodes + 1 }

/-- The first part of an insertion. The data of a key that has some stays as
it is. -/
def emplace (c : LfuCache κ ν) (key : κ) (val : ν) : LfuCache κ ν :=
  { c with
    keyData :=
      if c.Present key then c.keyData else c.keyData.insert key ⟨val, 1, c.nodes⟩
    freqBuckets := push 1 ⟨key, c.nodes⟩ c.freqBuckets
    nodes := c.nodes + 1 }

/-- The second part of an insertion into a full cache: the value for the
callback, and what is left. There is no outcome if no node is of a key that is
present. -/
def evict (c : LfuCache κ ν) : Option (ν × LfuCache κ ν) :=
  match popPresent (fun key => decide (c.Present key)) (entries c.freqBuckets).length
      c.freqBuckets with
  | none => none
  | some (item, rest) =>
    (c.keyData.lookup item.key).map fun data =>
      (data.val, { c with keyData := c.keyData.erase item.key, freqBuckets := rest })

/-- An insertion, with the values the callback was called with. -/
def putNonExisting (c : LfuCache κ ν) (key : κ) (val : ν) : Option (List ν × LfuCache κ ν) :=
  if c.capacity = 0 then
    (c.emplace key val).evict.map fun (gone, left) => ([gone], left)
  else some ([], { c.emplace key val with capacity := c.capacity - 1 })

def use (c : LfuCache κ ν) (key : κ) : LfuCache κ ν :=
  match c.keyData.lookup key with
  | some data => c.increment key data
  | none => c

def put (c : LfuCache κ ν) (key : κ) (val : ν) : Option (List ν × LfuCache κ ν) :=
  if c.Present key then some ([], c.use key) else c.putNonExisting key val

def get (c : LfuCache κ ν) (key : κ) : Option ν × LfuCache κ ν :=
  ((c.keyData.lookup key).map KeyData.val, c.use key)

def erase (c : LfuCache κ ν) (key : κ) : List ν × LfuCache κ ν :=
  match c.keyData.lookup key with
  | some data =>
    ([data.val], { c with keyData := c.keyData.erase key, capacity := c.capacity + 1 })
  | none => ([], c)

/-- The nodes of the bucket of the keys used once. -/
def usedOnce (c : LfuCache κ ν) : List (LfuItem κ) :=
  match c.freqBuckets with
  | [] => []
  | b :: _ => if b.freq = 1 then b.items else []

/-- The key of the first of these nodes that is chosen; the node of an
inserted key comes after them. -/
def firstKey (items : List (LfuItem κ)) (chosen : LfuItem κ → Bool) (key : κ) : κ :=
  ((items.find? chosen).map LfuItem.key).getD key

/-- The key that an insertion into a full cache evicts: the one of the first
node of a key that is present or inserted. -/
def victimKey (c : LfuCache κ ν) (key : κ) : κ :=
  firstKey c.usedOnce (fun item => decide (item.key = key ∨ c.Present item.key)) key

/-- The data of every key refers to a node of the key. -/
def Own (c : LfuCache κ ν) : Prop :=
  ∀ key data, c.keyData.lookup key = some data →
    (data.bucket, ⟨key, data.pos⟩) ∈ entries c.freqBuckets

/-- What holds of a cache made for `limit` keys. -/
structure Inv (limit : Nat) (c : LfuCache κ ν) : Prop where
  ordered : Ordered c.nodes c.freqBuckets
  own : c.Own
  size : c.capacity + c.keyData.keys.length ≤ limit

theorem inv_empty (limit : Nat) : Inv limit (empty limit : LfuCache κ ν) where
  ordered := ⟨List.Pairwise.nil, by simp [empty], by simp [empty], by simp [empty], by simp [empty]⟩
  own key data h := by simp [empty] at h
  size := le_rfl

variable {c : LfuCache κ ν} {key : κ} {limit : Nat} {data : KeyData ν} {rest : List (FreqBucket κ)}
  {m : AList fun _ : κ => KeyData ν} {gone : List (Nat × LfuItem κ)} {freq : Nat} {item : LfuItem κ}

theorem present_iff : c.Present key ↔ ∃ data, c.keyData.lookup key = some data := isSome_iff_exists

theorem present_iff_mem_keys : c.Present key ↔ key ∈ c.keyData.keys := by
  rw [Present, AList.lookup_isSome, AList.mem_keys]

theorem length_keys_insert_of_present (h : key ∈ m.keys) (data : KeyData ν) :
    (m.insert key data).keys.length = m.keys.length := by
  have hpos := length_pos_of_mem h
  rw [keys_insert, length_cons, length_erase_of_mem h]
  omega

theorem length_keys_insert_of_absent (h : key ∉ m.keys) (data : KeyData ν) :
    (m.insert key data).keys.length = m.keys.length + 1 := by
  rw [keys_insert, length_cons, erase_of_not_mem h]

theorem Inv.increment (h : Inv limit c) (hdata : c.keyData.lookup key = some data) :
    Inv limit (c.increment key data) where
  ordered := h.ordered.increment data.bucket data.pos rfl
  own := by
    have hbucket : ∃ b ∈ c.freqBuckets, b.freq = data.bucket := by
      obtain ⟨b, hb, hfreq, -⟩ := mem_entries.mp (h.own key data hdata)
      exact ⟨b, hb, hfreq⟩
    intro key' data' hdata'
    refine (mem_entries_increment h.ordered hbucket).mpr ?_
    by_cases hkey : key' = key
    · subst hkey
      rw [LfuCache.increment, lookup_insert] at hdata'
      exact .inl (by rw [← some.inj hdata'])
    · rw [LfuCache.increment, lookup_insert_ne hkey] at hdata'
      have hmem := h.own key' data' hdata'
      refine .inr ⟨hmem, ?_⟩
      rintro ⟨hfreq, hnode⟩
      have heq := h.ordered.entry_eq hmem (h.own key data hdata) hfreq hnode
      exact hkey (congrArg (fun e => e.2.key) heq)
  size := by
    have hmem := present_iff_mem_keys.mp (present_iff.mpr ⟨data, hdata⟩)
    rw [LfuCache.increment]
    rw [length_keys_insert_of_present hmem]
    exact h.size

theorem Inv.use (h : Inv limit c) (key : κ) : Inv limit (c.use key) := by
  unfold LfuCache.use
  split
  case h_1 data hdata => exact h.increment hdata
  case h_2 => exact h

theorem lookup_use (c : LfuCache κ ν) (key k : κ) :
    (c.use key).keyData.lookup k =
      if k = key then
        (c.keyData.lookup key).map fun data => ⟨data.val, data.bucket + 1, c.nodes⟩
      else c.keyData.lookup k := by
  unfold use
  split
  case h_1 data hdata =>
    split
    case isTrue heq => rw [heq, increment, lookup_insert, hdata, map_some]
    case isFalse hne => rw [increment, lookup_insert_ne hne]
  case h_2 hdata =>
    split
    case isTrue heq => rw [heq, hdata, map_none]
    case isFalse => rfl

theorem Inv.erase (h : Inv limit c) (key : κ) : Inv limit (c.erase key).2 := by
  unfold LfuCache.erase
  split
  case h_1 data hdata =>
    refine ⟨h.ordered, ?_, ?_⟩
    · intro key' data' hdata'
      by_cases hkey : key' = key
      · subst hkey
        simp at hdata'
      · rw [lookup_erase_ne hkey] at hdata'
        exact h.own key' data' hdata'
    · have hmem := present_iff_mem_keys.mp (present_iff.mpr ⟨data, hdata⟩)
      have hpos := length_pos_of_mem hmem
      have hsize := h.size
      dsimp only
      rw [keys_erase, length_erase_of_mem hmem]
      omega
  case h_2 => exact h

theorem lookup_emplace (habsent : ¬ c.Present key) (val : ν) (k : κ) :
    (c.emplace key val).keyData.lookup k =
      if k = key then some ⟨val, 1, c.nodes⟩ else c.keyData.lookup k := by
  rw [emplace, if_neg habsent]
  split
  case isTrue heq => rw [heq, lookup_insert]
  case isFalse hne => rw [lookup_insert_ne hne]

theorem Inv.emplace_ordered (h : Inv limit c) (key : κ) (val : ν) :
    Ordered (c.nodes + 1) (c.emplace key val).freqBuckets :=
  h.ordered.push Nat.one_pos (fun b hb => h.ordered.positive b hb) rfl

theorem keyData_emplace_of_present (hpres : c.Present key) (val : ν) :
    (c.emplace key val).keyData = c.keyData := by
  rw [emplace, if_pos hpres]

theorem present_emplace_iff (c : LfuCache κ ν) (key : κ) (val : ν) (k : κ) :
    (c.emplace key val).Present k ↔ k = key ∨ c.Present k := by
  by_cases hkey : c.Present key
  · rw [Present, keyData_emplace_of_present hkey]
    constructor
    · exact .inr
    · rintro (rfl | hpres)
      · exact hkey
      · exact hpres
  · rw [Present, lookup_emplace hkey]
    split
    case isTrue heq => simp [heq]
    case isFalse hne => simp [hne, Present]

theorem Inv.emplace_own (h : Inv limit c) (key : κ) (val : ν) : (c.emplace key val).Own := by
  intro k data hdata
  apply mem_entries_push.mpr
  by_cases hkey : c.Present key
  · rw [keyData_emplace_of_present hkey] at hdata
    exact .inr (h.own k data hdata)
  · rw [lookup_emplace hkey] at hdata
    split at hdata
    case isTrue heq =>
      rw [← some.inj hdata, heq]
      exact .inl rfl
    case isFalse hne => exact .inr (h.own k data hdata)

theorem length_keys_emplace_le (c : LfuCache κ ν) (key : κ) (val : ν) :
    (c.emplace key val).keyData.keys.length ≤ c.keyData.keys.length + 1 := by
  by_cases hkey : c.Present key
  · rw [keyData_emplace_of_present hkey]
    exact Nat.le_succ _
  · rw [emplace, if_neg hkey]
    exact (length_keys_insert_of_absent (fun h => hkey (present_iff_mem_keys.mpr h)) _).le

theorem entries_emplace (c : LfuCache κ ν) (key : κ) (val : ν) :
    ∃ later, entries (c.emplace key val).freqBuckets =
      c.usedOnce.map (fun item => (1, item)) ++ (1, ⟨key, c.nodes⟩) :: later := by
  unfold emplace usedOnce
  cases c.freqBuckets with
  | nil => exact ⟨[], rfl⟩
  | cons b rest =>
    rw [push]
    dsimp only
    by_cases hfreq : b.freq = 1
    · refine ⟨entries rest, ?_⟩
      simp [hfreq]
    · refine ⟨entries (b :: rest), ?_⟩
      rw [if_pos hfreq, if_neg hfreq, entries_cons]
      rfl

theorem find_entries_emplace (c : LfuCache κ ν) (key : κ) (val : ν)
    (chosen : Nat × LfuItem κ → Bool) (hnew : chosen (1, ⟨key, c.nodes⟩) = true) :
    ∃ e, (entries (c.emplace key val).freqBuckets).find? chosen = some e ∧
      e.2.key = firstKey c.usedOnce (fun item => chosen (1, item)) key := by
  obtain ⟨later, hents⟩ := entries_emplace c key val
  rw [hents, find?_append, find?_cons_of_pos hnew, find?_map, firstKey]
  have hcomp : (chosen ∘ fun item => (1, item)) = fun item => chosen (1, item) := rfl
  rw [hcomp]
  cases c.usedOnce.find? fun item => chosen (1, item) with
  | none => exact ⟨_, rfl, rfl⟩
  | some item => exact ⟨_, rfl, rfl⟩

omit [DecidableEq κ] in
theorem firstKey_congr {items : List (LfuItem κ)} {p q : LfuItem κ → Bool}
    (h : ∀ item ∈ items, p item = q item) (key : κ) :
    firstKey items p key = firstKey items q key := by
  rw [firstKey, firstKey, find?_congr h]

theorem evict_spec (hordered : Ordered c.nodes c.freqBuckets) (hown : c.Own) (hkey : c.Present key)
    : ∃ gone freq item data rest,
      c.evict = some (data.val,
        { c with keyData := c.keyData.erase item.key, freqBuckets := rest }) ∧
      c.keyData.lookup item.key = some data ∧ Ordered c.nodes rest ∧
      entries c.freqBuckets = gone ++ (freq, item) :: entries rest ∧
      ∀ e ∈ gone, ¬ c.Present e.2.key := by
  obtain ⟨own, hdata⟩ := present_iff.mp hkey
  have hsome : ∃ e ∈ entries c.freqBuckets, decide (c.Present e.2.key) = true :=
    ⟨_, hown key own hdata, decide_eq_true hkey⟩
  obtain ⟨gone, freq, item, rest, hpop, hrest, hsplit, hgone, hitem⟩ :=
    popPresent_spec (fun key => decide (c.Present key)) hordered le_rfl hsome
  obtain ⟨data, hitem⟩ := present_iff.mp (of_decide_eq_true hitem)
  refine ⟨gone, freq, item, data, rest, ?_, hitem, hrest, hsplit, ?_⟩
  · rw [evict, hpop]
    dsimp only
    rw [hitem, map_some]
  · intro e he
    exact of_decide_eq_false (hgone e he)

theorem Own.mem_rest (hown : c.Own)
    (hsplit : entries c.freqBuckets = gone ++ (freq, item) :: entries rest)
    (hgone : ∀ e ∈ gone, ¬ c.Present e.2.key) (hkey : key ≠ item.key)
    (hdata : c.keyData.lookup key = some data) : (data.bucket, ⟨key, data.pos⟩) ∈ entries rest := by
  have hmem := hown key data hdata
  rw [hsplit] at hmem
  rcases mem_append.mp hmem with hmem | hmem
  · exact absurd (present_iff.mpr ⟨data, hdata⟩) (hgone _ hmem)
  · rcases mem_cons.mp hmem with heq | hmem
    · exact absurd (congrArg (fun e => e.2.key) heq) hkey
    · exact hmem

/-- With the cache full, the key that is evicted is the one of the first node
of a key that is present or inserted. -/
theorem victim_eq {val : ν} (hdata : (c.emplace key val).keyData.lookup item.key = some data)
    (hsplit : entries (c.emplace key val).freqBuckets = gone ++ (freq, item) :: entries rest)
    (hgone : ∀ e ∈ gone, ¬ (c.emplace key val).Present e.2.key) : item.key = c.victimKey key := by
  obtain ⟨e, hfind, hkey⟩ := find_entries_emplace c key val
    (fun e => decide (e.2.key = key ∨ c.Present e.2.key)) (by simp)
  have hfirst : (entries (c.emplace key val).freqBuckets).find?
      (fun e => decide (e.2.key = key ∨ c.Present e.2.key)) = some (freq, item) := by
    refine find?_eq_some_iff_append.mpr ⟨?_, gone, entries rest, hsplit, ?_⟩
    · exact decide_eq_true
        ((present_emplace_iff c key val item.key).mp (present_iff.mpr ⟨data, hdata⟩))
    · intro e he
      have habs := hgone e he
      rw [present_emplace_iff] at habs
      simp [habs]
  rw [hfirst, some.injEq] at hfind
  rw [victimKey, ← hkey, ← hfind]

theorem lookup_evicted (victim k : κ) :
    { c with keyData := c.keyData.erase victim, freqBuckets := rest }.keyData.lookup k =
      if k = victim then none else c.keyData.lookup k := by
  split
  case isTrue heq => rw [heq, lookup_erase]
  case isFalse hne => rw [lookup_erase_ne hne]

/-- An insertion: with room left nothing is evicted, else the key of the first
node of a present key is, with one call of the callback. -/
theorem Inv.putNonExisting_spec (h : Inv limit c) (key : κ) (val : ν) :
    ∃ calls c', c.putNonExisting key val = some (calls, c') ∧ Inv limit c' ∧
      c'.nodes = c.nodes + 1 ∧
      (0 < c.capacity ∧ calls = [] ∧ c'.keyData = (c.emplace key val).keyData ∨
        c.capacity = 0 ∧ ∃ data, calls = [data.val] ∧
          (c.emplace key val).keyData.lookup (c.victimKey key) = some data ∧
          ∀ k, c'.keyData.lookup k =
            if k = c.victimKey key then none else (c.emplace key val).keyData.lookup k) := by
  have hordered := h.emplace_ordered key val
  have hown := h.emplace_own key val
  have hlen := length_keys_emplace_le c key val
  have hsize := h.size
  unfold putNonExisting
  split
  case isTrue hfull =>
    obtain ⟨gone, freq, item, data, rest, hevict, hdata, hrest, hsplit, hgone⟩ :=
      evict_spec hordered hown ((present_emplace_iff c key val key).mpr (.inl rfl))
    rw [← victim_eq hdata hsplit hgone]
    refine ⟨[data.val], _, by rw [hevict, map_some], ⟨hrest, ?_, ?_⟩, rfl, .inr ⟨hfull,
      data, rfl, hdata, lookup_evicted item.key⟩⟩
    · intro k data' hdata'
      rw [lookup_evicted] at hdata'
      split at hdata'
      · cases hdata'
      · rename_i hne
        exact hown.mem_rest hsplit hgone hne hdata'
    · have hmem := present_iff_mem_keys.mp (present_iff.mpr ⟨data, hdata⟩)
      have hcap : (c.emplace key val).capacity = c.capacity := rfl
      rw [keys_erase, length_erase_of_mem hmem, hcap]
      omega
  case isFalse hroom =>
    refine ⟨[], _, rfl, ⟨hordered, hown, ?_⟩, rfl, .inl ⟨pos_of_ne_zero hroom, rfl, rfl⟩⟩
    dsimp only
    omega

end LfuCache

end UhCore.Caches
