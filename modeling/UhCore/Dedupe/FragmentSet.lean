import UhCore.Types
import UhCore.Lib.Memory

/-!
The set of known fragments that the deduplicator searches. An element holds a
pointer to storage, a size and the first bytes of the fragment; two elements
with equal first bytes are compared by the bytes in storage. The set is a
binary search tree of any shape.
-/

namespace UhCore.Dedupe

open Memory List

/-- The bytes of the storage cluster by global pointer. -/
abbrev GlobalMemory := Nat → Option UInt8

def readStorage (mem : GlobalMemory) (pointer n : Nat) : Except Exn (List UInt8) :=
  match load mem pointer n with
  | some bytes => .ok bytes
  | none => .error (.outOfRange "pointer out of range")

def prefixSize : Nat := 16

/-- `data` is present only in the element that a search is made with. -/
structure Element where
  pointer : Nat
  size : Nat
  prefixBytes : List UInt8
  data : Option (List UInt8)

/-- The element made of a fragment's data; sizes are 16-bit. -/
def Element.ofData (data : List UInt8) (pointer : Nat) (full : Option (List UInt8)) : Element :=
  ⟨pointer, min 65535 data.length, data.take (min prefixSize data.length), full⟩

def catchFrag (mem : GlobalMemory) (f : Element) (size : Nat) : Except Exn (List UInt8) :=
  match f.data with
  | some data => .ok (data.take size)
  | none => readStorage mem f.pointer size

/-- `operator<` of elements. -/
def Element.less (mem : GlobalMemory) (a b : Element) : Except Exn Bool :=
  if a.prefixBytes ≠ b.prefixBytes then .ok (decide (a.prefixBytes < b.prefixBytes))
  else do
    let size := min a.size b.size
    let s1 ← catchFrag mem a size
    let s2 ← catchFrag mem b size
    pure (decide (s1 < s2))

inductive FragmentSet where
  | leaf
  | node (left : FragmentSet) (element : Element) (right : FragmentSet)

/-- The elements in iteration order. -/
def FragmentSet.elements : FragmentSet → List Element
  | leaf => []
  | node left element right => left.elements ++ element :: right.elements

/-- The position in iteration order that `lower_bound` returns. -/
def FragmentSet.lowerBound (mem : GlobalMemory) (key : Element) :
    FragmentSet → Except Exn Nat
  | leaf => .ok 0
  | node left element right => do
    if ← element.less mem key then
      let position ← right.lowerBound mem key
      pure (left.elements.length + 1 + position)
    else left.lowerBound mem key

/-- A neighbour found in the set: its fragment and its first bytes. -/
def Element.entry (e : Element) : Fragment × List UInt8 := (⟨e.pointer, e.size⟩, e.prefixBytes)

structure Response where
  low : Option (Fragment × List UInt8)
  high : Option (Fragment × List UInt8)
  hint : Nat

/-- The element at a position and the one before it. -/
def FragmentSet.neighbours (set : FragmentSet) (position : Nat) : Response where
  low := if position = 0 then none else set.elements[position - 1]?.map Element.entry
  high := set.elements[position]?.map Element.entry
  hint := position

def FragmentSet.find (mem : GlobalMemory) (set : FragmentSet) (data : List UInt8) :
    Except Exn Response := do
  let position ← set.lowerBound mem (Element.ofData data 0 (some data))
  pure (set.neighbours position)

def largestCommonPrefix : List UInt8 → List UInt8 → Nat
  | a :: as, b :: bs => if a = b then largestCommonPrefix as bs + 1 else 0
  | _, _ => 0

def matchSize (mem : GlobalMemory) (data : List UInt8) :
    Option (Fragment × List UInt8) → Except Exn Nat
  | none => .ok 0
  | some (f, prefixBytes) => do
    let common := largestCommonPrefix prefixBytes data
    if common < prefixBytes.length then pure common
    else
      let complete ← readStorage mem f.pointer f.size
      if complete.length < common then
        .error (.outOfRange "basic_string_view::substr")
      else
        pure (common + largestCommonPrefix (data.drop common) (complete.drop common))

/-- The element names bytes in storage that start with its first bytes. -/
def Element.Stored (mem : GlobalMemory) (e : Element) : Prop :=
  ∃ bytes, load mem e.pointer e.size = some bytes ∧ e.prefixBytes <+: bytes

/-- Every element of the set names bytes in storage. -/
def FragmentSet.Stored (mem : GlobalMemory) (set : FragmentSet) : Prop :=
  ∀ e ∈ set.elements, e.Stored mem

variable {mem : GlobalMemory}

theorem FragmentSet.leaf_stored : leaf.Stored fun _ => none := by
  intro e he
  cases he

theorem readStorage_ok {pointer n : Nat} {bytes : List UInt8} (h : load mem pointer n = some bytes)
    : readStorage mem pointer n = .ok bytes := by
  simp [readStorage, h]

theorem Element.less_ok {e : Element} (he : e.Stored mem) (data : List UInt8) (pointer : Nat) :
    ∃ b, e.less mem (Element.ofData data pointer (some data)) = .ok b := by
  obtain ⟨bytes, hload, -⟩ := he
  unfold Element.less
  split
  · exact ⟨_, rfl⟩
  · have hcatch : ∃ s, catchFrag mem e
        (min e.size (Element.ofData data pointer (some data)).size) = .ok s := by
      unfold catchFrag
      split
      · exact ⟨_, rfl⟩
      · have hsub := load_sub 0
          (min e.size (Element.ofData data pointer (some data)).size) hload (by omega)
        exact ⟨_, readStorage_ok hsub⟩
    obtain ⟨s, hs⟩ := hcatch
    refine ⟨decide (s < data.take (min e.size (Element.ofData data pointer (some data)).size)), ?_⟩
    simp only [hs, Bind.bind, Except.bind]
    rfl

theorem FragmentSet.lowerBound_ok (data : List UInt8) (pointer : Nat) (set : FragmentSet)
    (hset : set.Stored mem) :
    ∃ position, set.lowerBound mem (Element.ofData data pointer (some data)) = .ok position := by
  induction set with
  | leaf => exact ⟨0, rfl⟩
  | node left element right ihl ihr =>
    have hleft : left.Stored mem := by
      intro e he
      exact hset e (mem_append_left _ he)
    have hright : right.Stored mem := by
      intro e he
      exact hset e (mem_append_right _ (mem_cons_of_mem _ he))
    obtain ⟨b, hb⟩ := Element.less_ok (hset element (mem_append_right _ mem_cons_self)) data pointer
    obtain ⟨i, hi⟩ := ihl hleft
    obtain ⟨j, hj⟩ := ihr hright
    cases b with
    | false => exact ⟨i, by simp [lowerBound, hb, hi, Bind.bind, Except.bind]⟩
    | true =>
      exact ⟨left.elements.length + 1 + j, by
        simp [lowerBound, hb, hj, Bind.bind, Except.bind, pure, Except.pure]⟩

theorem FragmentSet.find_ok (data : List UInt8) (set : FragmentSet) (hset : set.Stored mem) :
    ∃ r, set.find mem data = .ok r ∧
      (∀ x, r.low = some x → ∃ e ∈ set.elements, x = e.entry) ∧
      ∀ x, r.high = some x → ∃ e ∈ set.elements, x = e.entry := by
  obtain ⟨i, hi⟩ := set.lowerBound_ok data 0 hset
  have hentry : ∀ (j : Nat) (x : Fragment × List UInt8), set.elements[j]?.map Element.entry =
      some x → ∃ e ∈ set.elements, x = e.entry := by
    intro j x hx
    obtain ⟨e, he, rfl⟩ := Option.map_eq_some_iff.mp hx
    exact ⟨e, mem_of_getElem? he, rfl⟩
  refine ⟨set.neighbours i, ?_, ?_, ?_⟩
  · simp only [find, hi, Bind.bind, Except.bind, pure, Except.pure]
  · intro x hx
    simp only [neighbours] at hx
    split at hx
    · cases hx
    · exact hentry _ x hx
  · intro x hx
    exact hentry _ x hx

theorem largestCommonPrefix_le (a b : List UInt8) :
    largestCommonPrefix a b ≤ a.length ∧ largestCommonPrefix a b ≤ b.length := by
  induction a generalizing b with
  | nil => simp [largestCommonPrefix]
  | cons x xs ih =>
    cases b with
    | nil => simp [largestCommonPrefix]
    | cons y ys =>
      obtain ⟨h1, h2⟩ := ih ys
      simp only [largestCommonPrefix, length_cons]
      split <;> omega

theorem take_largestCommonPrefix (a b : List UInt8) :
    a.take (largestCommonPrefix a b) = b.take (largestCommonPrefix a b) := by
  induction a generalizing b with
  | nil => simp [largestCommonPrefix]
  | cons x xs ih =>
    cases b with
    | nil => simp [largestCommonPrefix]
    | cons y ys =>
      simp only [largestCommonPrefix]
      split
      · rename_i heq
        simp [heq, ih ys]
      · simp

/-- The match with a stored element is a number of bytes from its pointer on
that equal the first bytes of the data. -/
theorem matchSize_ok (data : List UInt8) {e : Element} (he : e.Stored mem) :
    ∃ n, matchSize mem data (some e.entry) = .ok n ∧ n ≤ data.length ∧
      load mem e.pointer n = some (data.take n) := by
  obtain ⟨bytes, hload, hprefix⟩ := he
  have hlen := length_of_load hload
  have hle := largestCommonPrefix_le e.prefixBytes data
  have htake := take_largestCommonPrefix e.prefixBytes data
  obtain ⟨tail, rfl⟩ := hprefix
  rw [length_append] at hlen
  by_cases hshort : largestCommonPrefix e.prefixBytes data < e.prefixBytes.length
  · refine ⟨largestCommonPrefix e.prefixBytes data, ?_, hle.2, ?_⟩
    · simp [matchSize, Element.entry, hshort, pure, Except.pure]
    · have hsub := load_sub 0 (largestCommonPrefix e.prefixBytes data) hload (by omega)
      rw [drop_zero, take_append_of_le_length hle.1, htake] at hsub
      exact hsub
  · have hall : largestCommonPrefix e.prefixBytes data = e.prefixBytes.length := by omega
    rw [hall, take_length] at htake
    have hrest := largestCommonPrefix_le (data.drop e.prefixBytes.length) tail
    have hresttake := take_largestCommonPrefix (data.drop e.prefixBytes.length) tail
    rw [length_drop] at hrest
    have hprefixLen := hall ▸ hle.2
    refine ⟨e.prefixBytes.length +
      largestCommonPrefix (data.drop e.prefixBytes.length) tail, ?_, by omega, ?_⟩
    · have hnotlt : ¬ (e.prefixBytes ++ tail).length < e.prefixBytes.length := by simp
      simp only [matchSize, Element.entry, hall, lt_irrefl, if_false,
        readStorage_ok hload, Bind.bind, Except.bind, hnotlt, drop_left]
      rfl
    · have hsub := load_sub 0 (e.prefixBytes.length +
        largestCommonPrefix (data.drop e.prefixBytes.length) tail) hload (by omega)
      rw [drop_zero, take_append, take_of_length_le (by omega),
        Nat.add_sub_cancel_left, ← hresttake] at hsub
      rw [take_add, ← htake]
      exact hsub

end UhCore.Dedupe
