import UhCore.Caches.LfuCache
import UhCore.Dedupe.FragmentSet
import UhCore.Lib.Transition

/-!
The fragment set with its eviction index: the elements with the number of
hints held on each, and two caches that name the elements by their pointers,
one for the first fragments of uploads and one for the others. A cache that
drops an entry removes the element from the set, unless a hint is held on it.

The shape of the set is left out. Where an insertion finds an equivalent
element, the step names it; otherwise the new element is placed.
-/

namespace UhCore.Dedupe

open Caches Transition List Option List

structure SetNode where
  id : Nat
  element : Element
  hintCount : Nat

/-- The elements are numbered as they are made; the caches hold these
numbers as iterators. -/
structure FragmentIndex where
  nodes : List SetNode
  lfu : LfuCache Nat Nat
  lfuHeaders : LfuCache Nat Nat
  made : Nat

/-- What `emplace` of the set does. -/
inductive Placement where
  | placed
  | existing (id : Nat)
  deriving DecidableEq

namespace FragmentIndex

def cacheOf (ix : FragmentIndex) (header : Bool) : LfuCache Nat Nat :=
  if header then ix.lfuHeaders else ix.lfu

def setCache (ix : FragmentIndex) (header : Bool) (c : LfuCache Nat Nat) : FragmentIndex :=
  if header then { ix with lfuHeaders := c } else { ix with lfu := c }

/-- The element that a cache has under a pointer. -/
def tracked (ix : FragmentIndex) (header : Bool) (pointer : Nat) : Option Nat :=
  ((ix.cacheOf header).keyData.lookup pointer).map KeyData.val

def size (ix : FragmentIndex) : Nat := ix.nodes.length

def lookup (ix : FragmentIndex) (id : Nat) : Option SetNode :=
  ix.nodes.find? fun n => decide (n.id = id)

/-- The callback of the caches. -/
def remove (ix : FragmentIndex) (id : Nat) : FragmentIndex :=
  { ix with nodes := ix.nodes.filter fun n => decide (¬ (n.id = id ∧ n.hintCount = 0)) }

def removeAll (ix : FragmentIndex) (ids : List Nat) : FragmentIndex := ids.foldl remove ix

/-- Put an element into the cache that the flag names. -/
def track (ix : FragmentIndex) (header : Bool) (pointer id : Nat) : Option FragmentIndex :=
  ((ix.cacheOf header).putNonExisting pointer id).map fun (gone, c) =>
    (ix.setCache header c).removeAll gone

/-- The set with a new element. -/
def place (ix : FragmentIndex) (pointer : Nat) (data : List UInt8) : FragmentIndex :=
  { ix with
    nodes := ix.nodes ++ [⟨ix.made, Element.ofData data pointer none, 0⟩]
    made := ix.made + 1 }

def insert (ix : FragmentIndex) (pointer : Nat) (data : List UInt8) (header hinted : Bool) :
    Placement → Option FragmentIndex
  | .placed => (ix.place pointer data).track header pointer ix.made
  | .existing id =>
    match ix.lookup id with
    | none => none
    | some n =>
      if hinted = true ∧ n.element.pointer = pointer then ix.track header pointer id
      else some ix

def markDeduplication (ix : FragmentIndex) (frag : Fragment) : FragmentIndex :=
  { ix with lfu := ix.lfu.use frag.pointer }

def erase (ix : FragmentIndex) (frag : Fragment) (header : Bool) : FragmentIndex :=
  let (gone, c) := (ix.cacheOf header).erase frag.pointer
  (ix.setCache header c).removeAll gone

/-- A hint is taken on an element or given back. -/
def rehint (ix : FragmentIndex) (id : Nat) (change : Nat → Nat) : FragmentIndex :=
  { ix with
    nodes := ix.nodes.map fun n =>
      if n.id = id then { n with hintCount := change n.hintCount } else n }

end FragmentIndex

/-- A search takes a hint on the element it ends at, which may be the end of
the set. -/
inductive IndexAction where
  | find (found : Option Nat)
  | release (id : Nat)
  | insert (mem : GlobalMemory) (pointer : Nat) (data : List UInt8) (header hinted : Bool)
      (placement : Placement)
  | markDeduplication (frag : Fragment)
  | erase (frag : Fragment) (header : Bool)

namespace FragmentIndex

def start (capacity : Nat) : FragmentIndex := ⟨[], .empty capacity, .empty capacity, 0⟩

/-- Neither element is less than the other. -/
def Equivalent (mem : GlobalMemory) (a b : Element) : Prop :=
  (a.less mem b).toOption = some false ∧ (b.less mem a).toOption = some false

instance (mem : GlobalMemory) (a b : Element) : Decidable (Equivalent mem a b) :=
  inferInstanceAs (Decidable (_ ∧ _))

/-- Hints are on elements of the set and are given back once; an element that
an insertion finds in the set is equivalent to the new one. -/
def Allowed (ix : FragmentIndex) : IndexAction → Prop
  | .find (some id) => ∃ n ∈ ix.nodes, n.id = id
  | .find none => True
  | .release id => ∃ n ∈ ix.nodes, n.id = id ∧ 0 < n.hintCount
  | .insert _ _ _ _ _ .placed => True
  | .insert mem pointer data _ _ (.existing id) =>
    ∃ n ∈ ix.nodes, n.id = id ∧ Equivalent mem n.element (Element.ofData data pointer none)
  | .markDeduplication _ => True
  | .erase _ _ => True

instance (ix : FragmentIndex) (action : IndexAction) : Decidable (ix.Allowed action) := by
  unfold Allowed
  split <;> infer_instance

def perform (ix : FragmentIndex) : IndexAction → Option FragmentIndex
  | .find (some id) => some (ix.rehint id (· + 1))
  | .find none => some ix
  | .release id => some (ix.rehint id (· - 1))
  | .insert _ pointer data header hinted placement =>
    ix.insert pointer data header hinted placement
  | .markDeduplication frag => some (ix.markDeduplication frag)
  | .erase frag header => some (ix.erase frag header)

def next (ix : FragmentIndex) (action : IndexAction) : Option FragmentIndex :=
  if ix.Allowed action then ix.perform action else none

/-- The cache has the element under its pointer. -/
def Tracks (ix : FragmentIndex) (header : Bool) (n : SetNode) : Prop :=
  ix.tracked header n.element.pointer = some n.id

instance (ix : FragmentIndex) (header : Bool) (n : SetNode) : Decidable (ix.Tracks header n) :=
  inferInstanceAs (Decidable (_ = _))

/-- Every element is tracked under its pointer by one of the caches, and by
one only; every entry of a cache refers to an element of the set. -/
structure InStep (ix : FragmentIndex) : Prop where
  tracked : ∀ n ∈ ix.nodes, ∃! header, ix.Tracks header n
  refers : ∀ header pointer id, ix.tracked header pointer = some id →
    ∃ n ∈ ix.nodes, n.id = id ∧ n.element.pointer = pointer

/-- No hint is held on the element that the cache has under a pointer. -/
def Unhinted (ix : FragmentIndex) (header : Bool) (pointer : Nat) : Prop :=
  ∀ id ∈ ix.tracked header pointer, ∀ n ∈ ix.nodes, n.id = id → n.hintCount = 0

instance (ix : FragmentIndex) (header : Bool) (pointer : Nat) :
    Decidable (ix.Unhinted header pointer) :=
  inferInstanceAs (Decidable (∀ _ ∈ _, _))

/-- If the cache is full, no hint is held on the element that the insertion of
the pointer evicts. -/
def EvictsUnhinted (ix : FragmentIndex) (header : Bool) (pointer : Nat) : Prop :=
  (ix.cacheOf header).capacity = 0 → ix.Unhinted header ((ix.cacheOf header).victimKey pointer)

instance (ix : FragmentIndex) (header : Bool) (pointer : Nat) :
    Decidable (ix.EvictsUnhinted header pointer) :=
  inferInstanceAs (Decidable (_ → _))

/-- The condition on a step: no hint is held on an element that a cache drops,
a new element has a pointer that its cache does not have, and an element found
under the same pointer is one that the cache has. -/
def DropsUnhinted (ix : FragmentIndex) : IndexAction → Prop
  | .insert _ pointer _ header _ .placed =>
    ix.tracked header pointer = none ∧ ix.EvictsUnhinted header pointer
  | .insert _ pointer _ header true (.existing id) =>
    (∃ n ∈ ix.nodes, n.id = id ∧ n.element.pointer = pointer) →
      ix.tracked header pointer ≠ none ∧ ix.EvictsUnhinted header pointer
  | .erase frag header => ix.Unhinted header frag.pointer
  | _ => True

instance (ix : FragmentIndex) (action : IndexAction) : Decidable (ix.DropsUnhinted action) := by
  unfold DropsUnhinted
  split <;> infer_instance

/-- The elements by number and pointer. -/
def keys (ix : FragmentIndex) : List (Nat × Nat) := ix.nodes.map fun n => (n.id, n.element.pointer)

def setAt (table : Bool → Nat → Option Nat) (header : Bool) (pointer : Nat)
    (value : Option Nat) (h : Bool) (p : Nat) : Option Nat :=
  if h = header ∧ p = pointer then value else table h p

/-- The elements and the two tables name each other. -/
structure Ledgered (keys : List (Nat × Nat)) (table : Bool → Nat → Option Nat) : Prop where
  tracked : ∀ e ∈ keys, ∃! header, table header e.2 = some e.1
  refers : ∀ header pointer id, table header pointer = some id → (id, pointer) ∈ keys

/-- The elements have different numbers, and an element that a table has is
there under its pointer. -/
structure Numbered (made : Nat) (keys : List (Nat × Nat)) (table : Bool → Nat → Option Nat) :
    Prop where
  nodup : (keys.map Prod.fst).Nodup
  below : ∀ e ∈ keys, e.1 < made
  values : ∀ header pointer id, table header pointer = some id → id < made
  pointers : ∀ header pointer id, table header pointer = some id →
    ∀ e ∈ keys, e.1 = id → e.2 = pointer

theorem inStep_iff (ix : FragmentIndex) : ix.InStep ↔ Ledgered ix.keys ix.tracked := by
  constructor
  · intro h
    refine ⟨?_, ?_⟩
    · intro e he
      obtain ⟨n, hn, rfl⟩ := mem_map.mp he
      exact h.tracked n hn
    · intro header pointer id htrack
      obtain ⟨n, hn, rfl, rfl⟩ := h.refers header pointer id htrack
      exact mem_map_of_mem hn
  · intro h
    refine ⟨?_, ?_⟩
    · intro n hn
      exact h.tracked (n.id, n.element.pointer) (mem_map_of_mem hn)
    · intro header pointer id htrack
      obtain ⟨n, hn, heq⟩ := mem_map.mp (h.refers header pointer id htrack)
      obtain ⟨hid, hptr⟩ := Prod.mk.inj heq
      exact ⟨n, hn, hid, hptr⟩

theorem setAt_self (table : Bool → Nat → Option Nat) (header : Bool) (pointer : Nat)
    (value : Option Nat) : setAt table header pointer value header pointer = value :=
  if_pos ⟨rfl, rfl⟩

theorem setAt_of_ne {table : Bool → Nat → Option Nat} {header h : Bool} {pointer p : Nat}
    (value : Option Nat) (hne : ¬ (h = header ∧ p = pointer)) :
    setAt table header pointer value h p = table h p :=
  if_neg hne

theorem setAt_none_eq_some {table : Bool → Nat → Option Nat} {header h : Bool}
    {pointer p id : Nat} (heq : setAt table header pointer none h p = some id) :
    ¬ (h = header ∧ p = pointer) ∧ table h p = some id := by
  unfold setAt at heq
  split at heq
  · cases heq
  · exact ⟨by assumption, heq⟩

theorem setAt_some_eq_some {table : Bool → Nat → Option Nat} {header h : Bool}
    {pointer p id value : Nat} (heq : setAt table header pointer (some value) h p = some id) :
    (h = header ∧ p = pointer) ∧ id = value ∨ table h p = some id := by
  unfold setAt at heq
  split at heq
  · exact .inl ⟨by assumption, (some.inj heq).symm⟩
  · exact .inr heq

section Tables

variable {made : Nat} {keys : List (Nat × Nat)} {table : Bool → Nat → Option Nat}

theorem Numbered.eq_of_fst_eq (h : Numbered made keys table) {e e' : Nat × Nat} (he : e ∈ keys)
    (he' : e' ∈ keys) (heq : e.1 = e'.1) : e = e' :=
  inj_on_of_nodup_map h.nodup he he' heq

theorem Numbered.place (h : Numbered made keys table) (pointer : Nat) :
    Numbered (made + 1) (keys ++ [(made, pointer)]) table where
  nodup := by
    rw [map_append]
    refine nodup_append.mpr ⟨h.nodup, nodup_singleton _, ?_⟩
    intro a ha b hb heq
    obtain ⟨e, he, rfl⟩ := mem_map.mp ha
    have hlast : e.1 = made := heq.trans (mem_singleton.mp hb)
    exact absurd (h.below e he) (hlast ▸ lt_irrefl _)
  below e he := by
    rcases mem_append.mp he with hold | hnew
    · exact (h.below e hold).trans (Nat.lt_succ_self made)
    · rw [mem_singleton.mp hnew]
      exact Nat.lt_succ_self made
  values header p id htable := (h.values header p id htable).trans (Nat.lt_succ_self made)
  pointers header p id htable e he hid := by
    rcases mem_append.mp he with hold | hnew
    · exact h.pointers header p id htable e hold hid
    · rw [mem_singleton.mp hnew] at hid
      exact absurd (h.values header p id htable) (hid ▸ lt_irrefl _)

theorem Numbered.setAt (h : Numbered made keys table) (header : Bool) {pointer id : Nat}
    (hid : id < made) (hptr : ∀ e ∈ keys, e.1 = id → e.2 = pointer) :
    Numbered made keys (setAt table header pointer (some id)) where
  nodup := h.nodup
  below := h.below
  values header' p id' htable := by
    rcases setAt_some_eq_some htable with ⟨-, rfl⟩ | hold
    · exact hid
    · exact h.values header' p id' hold
  pointers header' p id' htable := by
    rcases setAt_some_eq_some htable with ⟨⟨-, rfl⟩, rfl⟩ | hold
    · exact hptr
    · exact h.pointers header' p id' hold

theorem Numbered.strike (h : Numbered made keys table) (header : Bool) (pointer : Nat)
    {left : List (Nat × Nat)} (hleft : left.Sublist keys) :
    Numbered made left (FragmentIndex.setAt table header pointer none) where
  nodup := h.nodup.sublist (hleft.map Prod.fst)
  below e he := h.below e (hleft.subset he)
  values header' p id htable := h.values header' p id (setAt_none_eq_some htable).2
  pointers header' p id htable e he :=
    h.pointers header' p id (setAt_none_eq_some htable).2 e (hleft.subset he)

theorem Ledgered.place (h : Ledgered keys table) (hnum : Numbered made keys table)
    {header : Bool} {pointer : Nat} (hnone : table header pointer = none) :
    Ledgered (keys ++ [(made, pointer)])
      (FragmentIndex.setAt table header pointer (some made)) where
  tracked e he := by
    rcases mem_append.mp he with hold | hnew
    · obtain ⟨h₁, htable, hunique⟩ := h.tracked e hold
      have hne : ∀ {h₂}, table h₂ e.2 = some e.1 → ¬ (h₂ = header ∧ e.2 = pointer) := by
        rintro h₂ hsome ⟨rfl, heq⟩
        rw [heq, hnone] at hsome
        cases hsome
      refine ⟨h₁, (setAt_of_ne _ (hne htable)).trans htable, ?_⟩
      intro h₂ hset
      rcases setAt_some_eq_some hset with ⟨-, hid⟩ | hsome
      · exact absurd (hnum.below e hold) (hid ▸ lt_irrefl _)
      · exact hunique h₂ hsome
    · rw [mem_singleton.mp hnew]
      refine ⟨header, setAt_self .., ?_⟩
      intro h₂ hset
      rcases setAt_some_eq_some hset with ⟨⟨heq, -⟩, -⟩ | hsome
      · exact heq
      · exact absurd (hnum.values h₂ pointer made hsome) (lt_irrefl _)
  refers header' p id htable := by
    rcases setAt_some_eq_some htable with ⟨⟨-, rfl⟩, rfl⟩ | hold
    · exact mem_append_right _ (mem_singleton.mpr rfl)
    · exact mem_append_left _ (h.refers header' p id hold)

theorem Ledgered.strike (h : Ledgered keys table) (hnum : Numbered made keys table)
    {header : Bool} {pointer gone : Nat} (hgone : table header pointer = some gone) :
    Ledgered (keys.filter fun e => decide (e.1 ≠ gone))
      (FragmentIndex.setAt table header pointer none) where
  tracked e he := by
    obtain ⟨hmem, hne⟩ := mem_filter.mp he
    obtain ⟨h₁, htable, hunique⟩ := h.tracked e hmem
    have hother : ¬ (h₁ = header ∧ e.2 = pointer) := by
      rintro ⟨rfl, heq⟩
      rw [heq, hgone, some.injEq] at htable
      exact of_decide_eq_true hne htable.symm
    refine ⟨h₁, (setAt_of_ne _ hother).trans htable, ?_⟩
    intro h₂ hset
    exact hunique h₂ (setAt_none_eq_some hset).2
  refers header' p id htable := by
    obtain ⟨hne, hold⟩ := setAt_none_eq_some htable
    have hmem := h.refers header' p id hold
    refine mem_filter.mpr ⟨hmem, decide_eq_true ?_⟩
    rintro rfl
    have hptr := hnum.pointers header pointer id hgone (id, p) hmem rfl
    have hhead := (h.tracked (id, p) hmem).unique hold (hptr ▸ hgone)
    exact hne ⟨hhead, hptr⟩

end Tables

theorem cacheOf_setCache (ix : FragmentIndex) (header h : Bool) (c : LfuCache Nat Nat) :
    (ix.setCache header c).cacheOf h = if h = header then c else ix.cacheOf h := by
  cases header <;> cases h <;> rfl

theorem nodes_setCache (ix : FragmentIndex) (header : Bool) (c : LfuCache Nat Nat) :
    (ix.setCache header c).nodes = ix.nodes := by
  cases header <;> rfl

theorem made_setCache (ix : FragmentIndex) (header : Bool) (c : LfuCache Nat Nat) :
    (ix.setCache header c).made = ix.made := by
  cases header <;> rfl

theorem tracked_setCache (ix : FragmentIndex) (header h : Bool) (c : LfuCache Nat Nat)
    (p : Nat) : (ix.setCache header c).tracked h p =
      if h = header then (c.keyData.lookup p).map KeyData.val else ix.tracked h p := by
  rw [tracked, cacheOf_setCache]
  split <;> rfl

/-- What holds in every run. -/
structure Sound (capacity : Nat) (ix : FragmentIndex) : Prop where
  caches : ∀ header, LfuCache.Inv capacity (ix.cacheOf header)
  numbered : Numbered ix.made ix.keys ix.tracked

/-- An entry was dropped by its cache, with a call of the callback. -/
structure Struck (ix ix' : FragmentIndex) (header : Bool) (pointer gone : Nat) : Prop where
  had : ix.tracked header pointer = some gone
  nodes : ix'.nodes = (ix.remove gone).nodes
  made : ix'.made = ix.made
  tracked : ix'.tracked = setAt ix.tracked header pointer none

theorem keys_remove_sublist (ix : FragmentIndex) (id : Nat) : (ix.remove id).keys.Sublist ix.keys :=
  filter_sublist.map _

variable {ix : FragmentIndex} {header : Bool} {pointer gone : Nat} {capacity : Nat}

theorem keys_remove_of_unhinted {id : Nat} (h : ∀ n ∈ ix.nodes, n.id = id → n.hintCount = 0) :
    (ix.remove id).keys = ix.keys.filter fun e => decide (e.1 ≠ id) := by
  rw [keys, keys, List.filter_map, remove]
  congr 1
  apply filter_congr
  intro n hn
  apply decide_eq_decide.mpr
  constructor
  · intro hkept hid
    exact hkept ⟨hid, h n hn hid⟩
  · intro hne heq
    exact hne heq.1

theorem Struck.keys_eq {ix ix' : FragmentIndex} (h : Struck ix ix' header pointer gone) :
    ix'.keys = (ix.remove gone).keys := by
  rw [keys, keys, h.nodes]

theorem Struck.numbered {ix ix' : FragmentIndex} (h : Struck ix ix' header pointer gone)
    (hix : Numbered ix.made ix.keys ix.tracked) : Numbered ix'.made ix'.keys ix'.tracked := by
  rw [h.made, h.tracked, h.keys_eq]
  exact hix.strike header pointer (keys_remove_sublist ix gone)

theorem Struck.ledgered {ix ix' : FragmentIndex} (h : Struck ix ix' header pointer gone)
    (hix : Numbered ix.made ix.keys ix.tracked) (hledgered : Ledgered ix.keys ix.tracked)
    (hunhinted : ix.Unhinted header pointer) : Ledgered ix'.keys ix'.tracked := by
  rw [h.tracked, h.keys_eq, keys_remove_of_unhinted (hunhinted gone h.had)]
  exact hledgered.strike hix h.had

theorem struck_setCache {c : LfuCache Nat Nat} (hhad : ix.tracked header pointer = some gone)
    (hlook : ∀ p, c.keyData.lookup p = if p = pointer then none else (ix.cacheOf header).keyData.lookup p)
    : Struck ix ((ix.setCache header c).removeAll [gone]) header pointer gone where
  had := hhad
  nodes := by
    rw [removeAll, foldl_cons, foldl_nil, remove, nodes_setCache]
    rfl
  made := made_setCache ix header c
  tracked := by
    funext h p
    have hsame : ((ix.setCache header c).removeAll [gone]).tracked h p =
        (ix.setCache header c).tracked h p := rfl
    rw [hsame, tracked_setCache, setAt]
    by_cases hhead : h = header
    · subst hhead
      rw [if_pos rfl, hlook]
      by_cases hp : p = pointer
      · rw [if_pos hp, if_pos ⟨rfl, hp⟩, map_none]
      · rw [if_neg hp, if_neg (fun h => hp h.2), tracked]
    · rw [if_neg hhead, if_neg (fun h => hhead h.1)]

theorem tracked_eq_none_iff {pointer : Nat} :
    ix.tracked header pointer = none ↔ ¬ (ix.cacheOf header).Present pointer := by
  rw [tracked, map_eq_none_iff, LfuCache.Present, not_isSome_iff_eq_none]

theorem erase_spec (ix : FragmentIndex) (frag : Fragment) (header : Bool) :
    ix.tracked header frag.pointer = none ∧ ix.erase frag header = ix ∨
      ∃ gone, Struck ix (ix.erase frag header) header frag.pointer gone := by
  cases hdata : (ix.cacheOf header).keyData.lookup frag.pointer with
  | none =>
    refine .inl ⟨by rw [tracked, hdata, map_none], ?_⟩
    rw [erase, LfuCache.erase, hdata]
    cases header <;> rfl
  | some data =>
    refine .inr ⟨data.val, ?_⟩
    rw [erase, LfuCache.erase, hdata]
    refine struck_setCache (by rw [tracked, hdata, map_some]) ?_
    intro p
    split
    case isTrue heq => rw [heq, AList.lookup_erase]
    case isFalse hne => rw [AList.lookup_erase_ne hne]

/-- The first part of putting an element into a cache. -/
def emplaced (ix : FragmentIndex) (header : Bool) (pointer id : Nat) : FragmentIndex :=
  ix.setCache header ((ix.cacheOf header).emplace pointer id)

theorem keys_emplaced (ix : FragmentIndex) (header : Bool) (pointer id : Nat) :
    (ix.emplaced header pointer id).keys = ix.keys := by
  rw [keys, emplaced, nodes_setCache, keys]

theorem tracked_emplaced_of_absent {pointer : Nat} (hnone : ix.tracked header pointer = none)
    (id : Nat) :
    (ix.emplaced header pointer id).tracked = setAt ix.tracked header pointer (some id) := by
  funext h p
  rw [emplaced, tracked_setCache, setAt, LfuCache.lookup_emplace (tracked_eq_none_iff.mp hnone)]
  by_cases hhead : h = header
  · subst hhead
    rw [if_pos rfl]
    by_cases hp : p = pointer
    · rw [if_pos hp, if_pos ⟨rfl, hp⟩, map_some]
    · rw [if_neg hp, if_neg (fun h => hp h.2), tracked]
  · rw [if_neg hhead, if_neg (fun h => hhead h.1)]

theorem tracked_emplaced_of_present {pointer : Nat} (hsome : ix.tracked header pointer ≠ none)
    (id : Nat) : (ix.emplaced header pointer id).tracked = ix.tracked := by
  funext h p
  rw [Ne, tracked_eq_none_iff, not_not] at hsome
  rw [emplaced, tracked_setCache, LfuCache.keyData_emplace_of_present hsome]
  split
  case isTrue heq => rw [heq, tracked]
  case isFalse => rfl

theorem setCache_emplaced (ix : FragmentIndex) (header : Bool) (pointer id : Nat)
    (c : LfuCache Nat Nat) :
    (ix.emplaced header pointer id).setCache header c = ix.setCache header c := by
  cases header <;> rfl

theorem cacheOf_emplaced (ix : FragmentIndex) (header : Bool) (pointer id : Nat) :
    (ix.emplaced header pointer id).cacheOf header = (ix.cacheOf header).emplace pointer id := by
  rw [emplaced, cacheOf_setCache, if_pos rfl]

/-- Putting an element into a cache has an outcome; a full cache drops one
entry. -/
theorem track_spec (hcaches : ∀ header, LfuCache.Inv capacity (ix.cacheOf header)) (header : Bool)
    (pointer id : Nat) : ∃ ix', ix.track header pointer id = some ix' ∧
      (∀ header, LfuCache.Inv capacity (ix'.cacheOf header)) ∧
      (ix'.nodes = ix.nodes ∧ ix'.made = ix.made ∧
          ix'.tracked = (ix.emplaced header pointer id).tracked ∨
        (ix.cacheOf header).capacity = 0 ∧ ∃ gone,
          Struck (ix.emplaced header pointer id) ix' header
            ((ix.cacheOf header).victimKey pointer) gone) := by
  obtain ⟨calls, c, hput, hinv, -, hcases⟩ := (hcaches header).putNonExisting_spec pointer id
  have hcaches' : ∀ h, LfuCache.Inv capacity
      (((ix.setCache header c).removeAll calls).cacheOf h) := by
    intro h
    have hsame : ((ix.setCache header c).removeAll calls).cacheOf h =
        (ix.setCache header c).cacheOf h := by
      rcases hcases with ⟨-, rfl, -⟩ | ⟨-, data, rfl, -⟩ <;> rfl
    rw [hsame, cacheOf_setCache]
    split
    · exact hinv
    · exact hcaches h
  refine ⟨_, by rw [track, hput, map_some], hcaches', ?_⟩
  rcases hcases with ⟨-, rfl, hdata⟩ | ⟨hfull, data, rfl, hdata, hlook⟩
  · refine .inl ⟨nodes_setCache ix header c, made_setCache ix header c, ?_⟩
    funext h p
    rw [removeAll, foldl_nil, emplaced, tracked_setCache, tracked_setCache, hdata]
  · refine .inr ⟨hfull, data.val, ?_⟩
    rw [← setCache_emplaced ix header pointer id]
    refine struck_setCache ?_ ?_
    · rw [tracked, cacheOf_emplaced, hdata, map_some]
    · intro p
      rw [hlook, cacheOf_emplaced]

theorem track_sound (hcaches : ∀ header, LfuCache.Inv capacity (ix.cacheOf header))
    {pointer id : Nat}
    (hnum : Numbered ix.made ix.keys (ix.emplaced header pointer id).tracked) :
    ∃ ix', ix.track header pointer id = some ix' ∧ Sound capacity ix' ∧
      (Ledgered ix.keys (ix.emplaced header pointer id).tracked →
        ((ix.cacheOf header).capacity = 0 → (ix.emplaced header pointer id).Unhinted header
          ((ix.cacheOf header).victimKey pointer)) → ix'.InStep) := by
  obtain ⟨ix', htrack, hcaches', hcases⟩ := track_spec hcaches header pointer id
  have hmade : (ix.emplaced header pointer id).made = ix.made := made_setCache ix header _
  rw [← keys_emplaced ix header pointer id, ← hmade] at hnum
  refine ⟨ix', htrack, ⟨hcaches', ?_⟩, ?_⟩
  · rcases hcases with ⟨hnodes, hmade', htracked⟩ | ⟨-, gone, hstruck⟩
    · rw [keys, hnodes, hmade', htracked, ← hmade]
      rw [keys_emplaced] at hnum
      exact hnum
    · exact hstruck.numbered hnum
  · intro hledgered hunhinted
    rw [inStep_iff]
    rcases hcases with ⟨hnodes, -, htracked⟩ | ⟨hfull, gone, hstruck⟩
    · rw [keys, hnodes, htracked]
      exact hledgered
    · rw [← keys_emplaced ix header pointer id] at hledgered
      exact hstruck.ledgered hnum hledgered (hunhinted hfull)

theorem keys_place (ix : FragmentIndex) (pointer : Nat) (data : List UInt8) :
    (ix.place pointer data).keys = ix.keys ++ [(ix.made, pointer)] := by
  rw [keys, place, map_append]
  rfl

theorem Sound.insert_placed (h : Sound capacity ix) (pointer : Nat) (data : List UInt8)
    (header hinted : Bool) :
    ∃ ix', ix.insert pointer data header hinted .placed = some ix' ∧ Sound capacity ix' ∧
      (ix.InStep → ix.tracked header pointer = none → ix.EvictsUnhinted header pointer →
        ix'.InStep) := by
  have hplace := h.numbered.place pointer
  rw [← keys_place ix pointer data] at hplace
  have hlast : ∀ e ∈ (ix.place pointer data).keys, e.1 = ix.made → e.2 = pointer := by
    intro e he hid
    have hnew : (ix.made, pointer) ∈ (ix.place pointer data).keys := by
      rw [keys_place]
      exact mem_append_right _ (mem_singleton.mpr rfl)
    rw [hplace.eq_of_fst_eq he hnew hid]
  have hnum : Numbered (ix.place pointer data).made (ix.place pointer data).keys
      ((ix.place pointer data).emplaced header pointer ix.made).tracked := by
    by_cases hnone : (ix.place pointer data).tracked header pointer = none
    · rw [tracked_emplaced_of_absent hnone]
      exact hplace.setAt header (Nat.lt_succ_self ix.made) hlast
    · rw [tracked_emplaced_of_present hnone]
      exact hplace
  have hcaches : ∀ h, LfuCache.Inv capacity ((ix.place pointer data).cacheOf h) := h.caches
  obtain ⟨ix', htrack, hsound, hinstep⟩ := track_sound hcaches hnum
  refine ⟨ix', htrack, hsound, ?_⟩
  intro hix hnone hevicts
  rw [inStep_iff] at hix
  have hnone' : (ix.place pointer data).tracked header pointer = none := hnone
  have htracked := tracked_emplaced_of_absent hnone' ix.made
  refine hinstep ?_ ?_
  · rw [htracked, keys_place]
    exact hix.place h.numbered hnone
  · intro hfull id hid n hn hnid
    have hn' : n ∈ ix.nodes ++ [⟨ix.made, Element.ofData data pointer none, 0⟩] := by
      rw [emplaced, nodes_setCache] at hn
      exact hn
    rcases mem_append.mp hn' with hold | hnew
    · rw [htracked] at hid
      rcases setAt_some_eq_some hid with ⟨-, rfl⟩ | htable
      · exact absurd (h.numbered.below _ (mem_map_of_mem hold)) (hnid ▸ lt_irrefl _)
      · exact hevicts hfull id htable n hold hnid
    · rw [mem_singleton.mp hnew]

theorem Sound.mem_nodes_eq (h : Sound capacity ix) {n n' : SetNode} (hn : n ∈ ix.nodes)
    (hn' : n' ∈ ix.nodes) (hid : n.id = n'.id) : n = n' := by
  have hnodup := h.numbered.nodup
  rw [keys, List.map_map] at hnodup
  exact inj_on_of_nodup_map hnodup hn hn' hid

theorem Sound.lookup_eq (h : Sound capacity ix) {n : SetNode} (hn : n ∈ ix.nodes) :
    ix.lookup n.id = some n := by
  cases hfind : ix.lookup n.id with
  | none => exact absurd (find?_eq_none.mp hfind n hn) (by simp)
  | some n' =>
    have hid : n'.id = n.id := by simpa using find?_some hfind
    rw [h.mem_nodes_eq (mem_of_find?_eq_some hfind) hn hid]

theorem Sound.insert_existing (h : Sound capacity ix) (pointer : Nat) (data : List UInt8)
    (header hinted : Bool) {n : SetNode} (hn : n ∈ ix.nodes) :
    ∃ ix', ix.insert pointer data header hinted (.existing n.id) = some ix' ∧
      Sound capacity ix' ∧
      (ix.InStep → (hinted = true → n.element.pointer = pointer →
        ix.tracked header pointer ≠ none ∧ ix.EvictsUnhinted header pointer) → ix'.InStep) := by
  rw [insert, h.lookup_eq hn]
  dsimp only
  split
  case isFalse => exact ⟨ix, rfl, h, fun hix _ => hix⟩
  case isTrue hput =>
    obtain ⟨hhinted, hptr⟩ := hput
    have hmem : (n.id, n.element.pointer) ∈ ix.keys := mem_map_of_mem hn
    have hnum : Numbered ix.made ix.keys (ix.emplaced header pointer n.id).tracked := by
      by_cases hnone : ix.tracked header pointer = none
      · rw [tracked_emplaced_of_absent hnone]
        refine h.numbered.setAt header (h.numbered.below _ hmem) ?_
        intro e he hid
        rw [h.numbered.eq_of_fst_eq he hmem hid]
        exact hptr
      · rw [tracked_emplaced_of_present hnone]
        exact h.numbered
    obtain ⟨ix', htrack, hsound, hinstep⟩ := track_sound h.caches hnum
    refine ⟨ix', htrack, hsound, ?_⟩
    intro hix hcond
    obtain ⟨hsome, hevicts⟩ := hcond hhinted hptr
    rw [inStep_iff] at hix
    refine hinstep (by rwa [tracked_emplaced_of_present hsome]) ?_
    intro hfull id hid m hm
    rw [tracked_emplaced_of_present hsome] at hid
    rw [emplaced, nodes_setCache] at hm
    exact hevicts hfull id hid m hm

theorem Sound.erase (h : Sound capacity ix) (frag : Fragment) (header : Bool) :
    Sound capacity (ix.erase frag header) where
  caches header' := by
    have hsame : (ix.erase frag header).cacheOf header' =
        (ix.setCache header ((ix.cacheOf header).erase frag.pointer).2).cacheOf header' := by
      rw [FragmentIndex.erase, LfuCache.erase]
      cases (ix.cacheOf header).keyData.lookup frag.pointer <;> rfl
    rw [hsame, cacheOf_setCache]
    split
    · exact (h.caches header).erase frag.pointer
    · exact h.caches header'
  numbered := by
    rcases erase_spec ix frag header with ⟨-, hsame⟩ | ⟨gone, hstruck⟩
    · rw [hsame]
      exact h.numbered
    · exact hstruck.numbered h.numbered

theorem Sound.erase_inStep (h : Sound capacity ix) (hix : ix.InStep) {frag : Fragment}
    (hunhinted : ix.Unhinted header frag.pointer) : (ix.erase frag header).InStep := by
  rcases erase_spec ix frag header with ⟨-, hsame⟩ | ⟨gone, hstruck⟩
  · rw [hsame]
    exact hix
  · rw [inStep_iff] at hix ⊢
    exact hstruck.ledgered h.numbered hix hunhinted

theorem keys_rehint (ix : FragmentIndex) (id : Nat) (change : Nat → Nat) :
    (ix.rehint id change).keys = ix.keys := by
  rw [keys, rehint, List.map_map, keys]
  apply map_congr_left
  intro n _
  dsimp only [Function.comp]
  split <;> rfl

theorem Sound.rehint (h : Sound capacity ix) (id : Nat) (change : Nat → Nat) :
    Sound capacity (ix.rehint id change) where
  caches := h.caches
  numbered := by
    rw [keys_rehint]
    exact h.numbered

theorem rehint_inStep (h : ix.InStep) (id : Nat) (change : Nat → Nat) :
    (ix.rehint id change).InStep := by
  rw [inStep_iff] at h ⊢
  rw [keys_rehint]
  exact h

theorem tracked_markDeduplication (ix : FragmentIndex) (frag : Fragment) :
    (ix.markDeduplication frag).tracked = ix.tracked := by
  funext header p
  cases header with
  | true => rfl
  | false =>
    have hlook := LfuCache.lookup_use ix.lfu frag.pointer p
    change ((ix.lfu.use frag.pointer).keyData.lookup p).map KeyData.val =
      (ix.lfu.keyData.lookup p).map KeyData.val
    rw [hlook]
    split
    case isTrue heq =>
      rw [heq, Option.map_map]
      rfl
    case isFalse => rfl

end FragmentIndex

end UhCore.Dedupe
