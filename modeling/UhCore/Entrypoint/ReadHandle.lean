import UhCore.Entrypoint.Ranges

/-!
The body of a GetObject response. `read` hands out what is in a buffer; when
that is too little, `fill` packs fragments into the free part of the buffer and
splits the one that reaches over its end. `consume` moves what is left to the
front. The storage gives the byte of `mem` for every cell of an address.
-/

namespace UhCore.Entrypoint

open Words List

/-- `buffer` are the bytes in front of `m_put_ptr`, `left` are the fragments
from `m_addr_index` on. -/
structure LocalReadHandle (α : Type) where
  capacity : Nat
  buffer : List α
  getPtr : Nat
  left : Address
  fragOffset : Nat
  size : Nat

namespace LocalReadHandle

def make {α : Type} (addr : Address) (capacity : Nat) : LocalReadHandle α :=
  ⟨capacity, [], 0, addr, 0, wrap 64 addr.dataSize⟩

def skipTo (f : Fragment) (offset : Nat) : Fragment :=
  if 0 < offset then ⟨wrap 128 (f.pointer + offset), f.size - offset⟩ else f

/-- What the loop of `fill` leaves behind. -/
structure Collected where
  part : Address
  left : Address
  fragOffset : Nat
  count : Nat

def collect (capacity put : Nat) : Address → Nat → Nat → Collected
  | [], offset, count => ⟨[], [], offset, count⟩
  | f :: rest, offset, count =>
    if count + put < capacity then
      let frag := skipTo f offset
      if capacity < wrap 64 (frag.size + count + put) then
        let remains := capacity - (count + put)
        ⟨[⟨frag.pointer, remains⟩], f :: rest, offset + remains, count + remains⟩
      else
        let next := collect capacity put rest 0 (wrap 64 (count + frag.size))
        { next with part := frag :: next.part }
    else ⟨[], f :: rest, offset, count⟩

variable {α : Type} (mem : Nat → α) (h : LocalReadHandle α)

def length : Nat := h.size

def fill : LocalReadHandle α :=
  let got := collect h.capacity h.buffer.length h.left h.fragOffset 0
  let h := { h with left := got.left, fragOffset := got.fragOffset }
  if 0 < got.count then
    { h with
      buffer := h.buffer ++ (got.part.flatMap cells).map mem
      size := wsub 64 h.size got.count }
  else h

def read (count : Nat) : List α × LocalReadHandle α :=
  let h := if h.buffer.length - h.getPtr < count then h.fill mem else h
  let size := min count (h.buffer.length - h.getPtr)
  ((h.buffer.drop h.getPtr).take size, { h with getPtr := h.getPtr + size })

def consume : LocalReadHandle α := { h with buffer := h.buffer.drop h.getPtr, getPtr := 0 }

/-- The spans of a sequence of reads, each followed by `consume`. -/
def spans (h : LocalReadHandle α) : List Nat → List (List α)
  | [] => []
  | count :: rest => (h.read mem count).1 :: spans (h.read mem count).2.consume rest

/-- Bytes that were not handed out. -/
def pending : List α := h.buffer.drop h.getPtr ++ ((h.left.flatMap cells).drop h.fragOffset).map mem

section Collect

variable {f : Fragment} {capacity put offset : Nat}

theorem size_skipTo : (skipTo f offset).size = f.size - offset := by
  unfold skipTo
  split
  · rfl
  · simp_all

theorem cells_skipTo (f : Fragment) (offset : Nat) {n : Nat} (hn : offset + n ≤ f.size) :
    cells ⟨(skipTo f offset).pointer, n⟩ = ((cells f).drop offset).take n := by
  apply ext_getElem
  · simp only [cells, length_map, length_range, length_take, length_drop]
    omega
  · intro i _ _
    unfold skipTo
    split
    · simp [cells, wrap_wrap_add, add_assoc]
    · have hzero : offset = 0 := by omega
      simp [cells, hzero]

theorem collect_spec (capacity put : Nat) (left : Address) (count : Nat) (hoff : ∀ f ∈ left.head?, offset ≤ f.size)
    (hsum : count + put + ((left.flatMap cells).drop offset).length < 2 ^ 64) :
    let got := collect capacity put left offset count
    got.part.flatMap cells ++ (got.left.flatMap cells).drop got.fragOffset =
        (left.flatMap cells).drop offset ∧
      got.count = count + (got.part.flatMap cells).length ∧
      (∀ f ∈ got.left.head?, got.fragOffset ≤ f.size) ∧
      (count + put < capacity → got.part.flatMap cells = [] →
        (left.flatMap cells).drop offset = []) := by
  induction left generalizing offset count with
  | nil => simp [collect]
  | cons f rest ih =>
    have hoff : offset ≤ f.size := hoff f rfl
    have hlen : (cells f).length = f.size := by simp [cells]
    have hdrop : ((f :: rest).flatMap cells).drop offset =
        (cells f).drop offset ++ rest.flatMap cells := by
      rw [flatMap_cons, drop_append_of_le_length (by omega)]
    rw [hdrop, length_append, length_drop, hlen] at hsum
    rw [collect]
    split
    case isFalse hfull => simp [hfull, hoff]
    case isTrue hroom =>
      simp only [size_skipTo]
      rw [wrap_of_lt (by omega), wrap_of_lt (by omega)]
      split
      case isTrue hcut =>
        have hpart := cells_skipTo f offset (n := capacity - (count + put))
          (by omega)
        have hsize : (cells ⟨(skipTo f offset).pointer, capacity - (count + put)⟩).length =
          capacity - (count + put) := by simp [cells]
        simp only [flatMap_singleton]
        refine ⟨?_, by rw [hsize], ?_, ?_⟩
        · rw [← drop_drop, hdrop, hpart,
            drop_append_of_le_length (by rw [length_drop]; omega), ← append_assoc,
            take_append_drop]
        · simp only [head?_cons, Option.mem_some_iff, forall_eq']
          omega
        · intro _ hnone
          rw [hnone, length_nil] at hsize
          omega
      case isFalse hfits =>
        have hpart : cells (skipTo f offset) = (cells f).drop offset := by
          have hall := cells_skipTo f offset (n := f.size - offset) (by omega)
          rwa [← size_skipTo, take_of_length_le (by rw [length_drop, size_skipTo, hlen])] at hall
        obtain ⟨hbytes, hcount, hin, hmore⟩ := @ih 0 (count + (f.size - offset))
          (by simp) (by rw [drop_zero]; omega)
        simp only [flatMap_cons, hpart] at *
        refine ⟨?_, ?_, hin, ?_⟩
        · rw [append_assoc, hbytes, hdrop, drop_zero]
        · rw [hcount, length_append, length_drop, hlen, add_assoc]
        · intro _ hnone
          obtain ⟨hempty, hnext⟩ := append_eq_nil_iff.mp hnone
          have hskip := congrArg List.length hempty
          rw [length_drop, hlen, length_nil] at hskip
          rw [hdrop, hempty, nil_append]
          exact hmore (by omega) hnext

end Collect

section Run

variable {mem h}

/-- Where a handle stands between `consume` and `read`. -/
structure Ready (mem : Nat → α) (h : LocalReadHandle α) : Prop where
  capacity : 1 ≤ h.capacity
  getPtr : h.getPtr = 0
  inside : ∀ f ∈ h.left.head?, h.fragOffset ≤ f.size
  small : (h.pending mem).length < 2 ^ 64

theorem fill_spec (hready : h.Ready mem) :
    (h.fill mem).Ready mem ∧ (h.fill mem).pending mem = h.pending mem ∧
      ((h.fill mem).buffer = [] → h.pending mem = []) := by
  have hpend : h.pending mem = h.buffer ++ ((h.left.flatMap cells).drop h.fragOffset).map mem := by
    rw [pending, hready.getPtr, drop_zero]
  have hsmall := hready.small
  rw [hpend, length_append, length_map] at hsmall
  have hspec := collect_spec h.capacity h.buffer.length h.left 0
    hready.inside (by omega)
  generalize hgot : collect h.capacity h.buffer.length h.left h.fragOffset 0 = got at hspec
  obtain ⟨hbytes, hcount, hin, hmore⟩ := hspec
  have hfill : ∃ size, h.fill mem = ⟨h.capacity, h.buffer ++ (got.part.flatMap cells).map mem,
      h.getPtr, got.left, got.fragOffset, size⟩ := by
    simp only [fill, hgot]
    split
    · exact ⟨_, rfl⟩
    · have hnone : got.part.flatMap cells = [] := length_eq_zero_iff.mp (by omega)
      rw [hnone, map_nil, append_nil]
      exact ⟨_, rfl⟩
  obtain ⟨size, hfill⟩ := hfill
  have hsame : (h.fill mem).pending mem = h.pending mem := by
    rw [hfill, hpend, pending]
    simp only [hready.getPtr, drop_zero, append_assoc, ← map_append, hbytes]
  have hsmall' : ((h.fill mem).pending mem).length < 2 ^ 64 := by
    rw [hsame]
    exact hready.small
  rw [hfill] at hsame hsmall' ⊢
  refine ⟨⟨hready.capacity, hready.getPtr, hin, hsmall'⟩, hsame, ?_⟩
  simp only [append_eq_nil_iff, map_eq_nil_iff]
  rintro ⟨hbuf, hpart⟩
  have hcap := hready.capacity
  rw [hpend, hbuf, hmore (by rw [hbuf, length_nil]; omega) hpart]
  rfl

/-- A read takes its span off the bytes that are pending, and nothing only from
none. -/
theorem read_spec (hready : h.Ready mem) {count : Nat} (hcount : 1 ≤ count) :
    (h.read mem count).2.consume.Ready mem ∧
      h.pending mem = (h.read mem count).1 ++ (h.read mem count).2.consume.pending mem ∧
      ((h.read mem count).1 = [] → h.pending mem = []) := by
  have hstep : ∀ g : LocalReadHandle α, g.Ready mem → ∀ n,
      ({ g with getPtr := g.getPtr + n } : LocalReadHandle α).consume.Ready mem ∧
        g.pending mem = g.buffer.take n ++
          ({ g with getPtr := g.getPtr + n } : LocalReadHandle α).consume.pending mem := by
    intro g hg n
    have hsplit : g.pending mem = g.buffer.take n ++
        ({ g with getPtr := g.getPtr + n } : LocalReadHandle α).consume.pending mem := by
      simp [pending, consume, hg.getPtr, ← append_assoc]
    have hsmall := hg.small
    rw [hsplit, length_append] at hsmall
    exact ⟨⟨hg.capacity, rfl, hg.inside, by omega⟩, hsplit⟩
  have hempty : ∀ g : LocalReadHandle α, g.buffer.take (min count g.buffer.length) = [] →
      g.buffer = [] := by
    intro g hg
    have hlen := congrArg List.length hg
    rw [length_take, length_nil] at hlen
    exact length_eq_zero_iff.mp (by omega)
  obtain ⟨hfilled, hsame, hnone⟩ := fill_spec hready
  unfold read
  split
  case isTrue hfew =>
    simp only [hfilled.getPtr, drop_zero, Nat.sub_zero]
    obtain ⟨hnext, hsplit⟩ := hstep _ hfilled (min count (h.fill mem).buffer.length)
    rw [hfilled.getPtr] at hnext hsplit
    exact ⟨hnext, hsame ▸ hsplit, fun hspan => hnone (hempty _ hspan)⟩
  case isFalse hfew =>
    simp only [hready.getPtr, drop_zero, Nat.sub_zero] at hfew ⊢
    obtain ⟨hnext, hsplit⟩ := hstep _ hready (min count h.buffer.length)
    rw [hready.getPtr] at hnext hsplit
    refine ⟨hnext, hsplit, fun hspan => ?_⟩
    rw [hempty _ hspan, length_nil] at hfew
    omega

/-- The spans are the bytes in order, an empty one comes behind all of them, and
as many reads as there are bytes deliver all. -/
structure Delivers (bytes : List α) (spans : List (List α)) : Prop where
  inOrder : spans.flatten <+: bytes
  emptyLast : ∀ front back, spans = front ++ [] :: back → front.flatten = bytes
  complete : bytes.length ≤ spans.length → spans.flatten = bytes

theorem spans_delivers (hready : h.Ready mem) {counts : List Nat} (hcounts : ∀ c ∈ counts, 1 ≤ c) :
    Delivers (h.pending mem) (h.spans mem counts) := by
  induction counts generalizing h with
  | nil =>
    refine ⟨ nil_prefix, by simp [spans], ?_⟩
    intro hnone
    exact (length_eq_zero_iff.mp (Nat.le_zero.mp hnone)).symm
  | cons count rest ih =>
    obtain ⟨hnext, hsplit, hend⟩ := read_spec hready (hcounts count (by simp))
    have hrest := ih hnext fun c hc => hcounts c (by simp [hc])
    rw [spans]
    generalize (h.read mem count).1 = span at hsplit hend ⊢
    rw [hsplit] at hend ⊢
    refine ⟨?_, ?_, ?_⟩
    · rw [flatten_cons]
      exact (prefix_append_right_inj span).mpr hrest.inOrder
    · intro front back heq
      cases front with
      | nil => exact (hend (cons.inj heq).1).symm
      | cons first others =>
        obtain ⟨rfl, hothers⟩ := cons.inj heq
        rw [flatten_cons, hrest.emptyLast others back hothers]
    · intro hmany
      rw [flatten_cons]
      rw [length_append, length_cons] at hmany
      by_cases hspan : span = []
      · have hnil := append_eq_nil_iff.mp (hend hspan)
        rw [hrest.complete (by rw [hnil.2]; exact Nat.zero_le _)]
      · have hpos := length_pos_iff.mpr hspan
        rw [hrest.complete (by omega)]

theorem pending_make (addr : Address) (capacity : Nat) :
    (make addr capacity).pending mem = (addr.flatMap cells).map mem := by
  simp [pending, make]

/-- A response body delivers its address and tells its length exactly when the
length is a number of 64 bits. -/
theorem read_handle_iff (mem : Nat → α) (addr : Address) {capacity : Nat}
    (hcap : 1 ≤ capacity) :
    ((∀ counts : List Nat, (∀ c ∈ counts, 1 ≤ c) →
        Delivers ((addr.flatMap cells).map mem) ((make addr capacity).spans mem counts)) ∧
      (make addr capacity : LocalReadHandle α).length = ((addr.flatMap cells).map mem).length) ↔
      addr.dataSize < 2 ^ 64 := by
  rw [length_map, length_cells]
  constructor
  · rintro ⟨-, hlen⟩
    rw [← hlen]
    exact wrap_lt 64 _
  · intro hsmall
    refine ⟨fun counts hcounts => ?_, wrap_of_lt hsmall⟩
    rw [← pending_make addr capacity]
    apply spans_delivers _ hcounts
    refine ⟨hcap, rfl, by simp [make], ?_⟩
    rwa [pending_make, length_map, length_cells]

theorem read_handle_iff_sample :
    Delivers [5, 6, 8] ((make [⟨5, 2⟩, ⟨7, 0⟩, ⟨8, 1⟩] 2).spans id [1, 2, 1]) :=
  ((read_handle_iff id [⟨5, 2⟩, ⟨7, 0⟩, ⟨8, 1⟩] (by decide)).mpr (by decide)).1
    [1, 2, 1] (by decide)

/-- Two fragments of `2 ^ 63` bytes announce a body without bytes. -/
theorem length_make_wraps :
    (make [⟨0, 2 ^ 63⟩, ⟨0, 2 ^ 63⟩] 1 : LocalReadHandle Nat).length = 0 ∧
      ([⟨0, 2 ^ 63⟩, ⟨0, 2 ^ 63⟩].flatMap cells).length = 2 ^ 64 := by
  rw [length_cells]
  decide

end Run

end LocalReadHandle

end UhCore.Entrypoint
