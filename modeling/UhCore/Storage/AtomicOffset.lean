import UhCore.Storage.DataStore
import UhCore.Lib.Transition

/-!
Threads that race on the write offset of one data store. `allocate` loads the
offset and swaps in the end of its allocation; the loop of `write` loads it and
swaps in the end of what it wrote where that is larger. A swap that finds
another value than the one expected, or fails without cause, leaves the value it
found to the next try.
-/

namespace UhCore.Storage.AtomicOffset

open Words Blocks Transition

/-- Where a thread stands between two accesses to the write offset. -/
inductive Thread where
  | idle
  | allocating (size alignment currentOffset : Nat)
  | writing (allocation : Allocation) (expected desired : Nat)
  deriving DecidableEq

/-- The write offset and the threads, with the allocations that were returned,
each with its alignment, and those whose write has left its loop. -/
structure Race where
  writeOffset : Nat
  threads : Nat → Thread
  returned : List (Allocation × Nat)
  written : List Allocation

/-- One access of a thread to the write offset: the load of an operation, or one
swap, which may fail without cause. -/
inductive Action where
  | load (thread size alignment : Nat)
  | swap (thread : Nat) (spurious : Bool)
  | loadWrite (thread : Nat) (allocation : Allocation)
  | swapWrite (thread : Nat) (spurious : Bool)

def start (writeOffset : Nat) : Race := ⟨writeOffset, fun _ => .idle, [], []⟩

def Race.become (w : Race) (t : Nat) (thread : Thread) : Race :=
  { w with threads := Function.update w.threads t thread }

/-- `compare_exchange_weak` succeeds. -/
def Race.swaps (w : Race) (expected : Nat) (spurious : Bool) : Prop :=
  w.writeOffset = expected ∧ spurious = false

instance (w : Race) (expected : Nat) (spurious : Bool) : Decidable (w.swaps expected spurious) :=
  inferInstanceAs (Decidable (_ ∧ _))

/-- One round of the loop of `allocate`. -/
def Race.tryAllocate (maxDataStoreSize : Nat) (w : Race) (t size alignment currentOffset : Nat)
    (spurious : Bool) : Race :=
  match allocateAt maxDataStoreSize currentOffset size alignment with
  | .error _ => w.become t .idle
  | .ok a =>
    if w.swaps currentOffset spurious then
      { w.become t .idle with
        writeOffset := wrap 64 (a.offset + a.size)
        returned := (a, alignment) :: w.returned }
    else w.become t (.allocating size alignment w.writeOffset)

/-- One round of the loop of `write`. -/
def Race.tryWrite (w : Race) (t : Nat) (a : Allocation) (expected desired : Nat)
    (spurious : Bool) : Race :=
  if expected < desired then
    if w.swaps expected spurious then
      { w.become t .idle with writeOffset := desired, written := a :: w.written }
    else w.become t (.writing a w.writeOffset (max desired w.writeOffset))
  else { w.become t .idle with written := a :: w.written }

def next (maxDataStoreSize : Nat) (w : Race) : Action → Option Race
  | .load t size alignment =>
    match w.threads t with
    | .idle => some (w.become t (.allocating size alignment w.writeOffset))
    | _ => none
  | .swap t spurious =>
    match w.threads t with
    | .allocating size alignment currentOffset =>
      some (w.tryAllocate maxDataStoreSize t size alignment currentOffset spurious)
    | _ => none
  | .loadWrite t a =>
    match w.threads t with
    | .idle => some (w.become t (.writing a w.writeOffset (wrap 64 (a.offset + a.size))))
    | _ => none
  | .swapWrite t spurious =>
    match w.threads t with
    | .writing a expected desired => some (w.tryWrite t a expected desired spurious)
    | _ => none

/-- The end of the allocation that a thread tries to make. -/
def Thread.finish : Thread → Nat
  | .allocating size alignment currentOffset => alignUp currentOffset alignment + size
  | _ => 0

/-- The ends of allocations are 64-bit words. -/
def NoOverflow (w : Race) : Action → Prop
  | .swap t _ => (w.threads t).finish < 2 ^ 64
  | .loadWrite _ a => a.finish < 2 ^ 64
  | _ => True

instance (w : Race) (action : Action) : Decidable (NoOverflow w action) := by
  cases action <;> unfold NoOverflow <;> infer_instance

/-- Two allocations have no byte in common. -/
def Disjoint (a b : Allocation) : Prop := a.finish ≤ b.offset ∨ b.finish ≤ a.offset

/-- What holds between two accesses. -/
structure Inv (w : Race) : Prop where
  below : ∀ p ∈ w.returned, p.1.finish ≤ w.writeOffset
  aligned : ∀ p ∈ w.returned, p.1.offset % p.2 = 0
  disjoint : w.returned.Pairwise fun p q => Disjoint p.1 q.1
  written : ∀ a ∈ w.written, a.finish ≤ w.writeOffset
  writing : ∀ t a expected desired, w.threads t = .writing a expected desired →
    a.finish ≤ desired ∧ expected ≤ w.writeOffset

theorem inv_start (writeOffset : Nat) : Inv (start writeOffset) := by
  refine ⟨?_, ?_, List.Pairwise.nil, ?_, ?_⟩
  · intro p hp
    cases hp
  · intro p hp
    cases hp
  · intro a ha
    cases ha
  · intro t a expected desired h
    cases h

variable {w : Race} {a : Allocation} {alignment maxDataStoreSize currentOffset size : Nat}

theorem Inv.become (h : Inv w) (t : Nat) {thread : Thread}
    (hthread : ∀ a expected desired, thread = .writing a expected desired → a.finish ≤ desired ∧ expected ≤ w.writeOffset)
    : Inv (w.become t thread) := by
  refine ⟨h.below, h.aligned, h.disjoint, h.written, ?_⟩
  intro u a expected desired hu
  by_cases heq : u = t
  · subst heq
    exact hthread a expected desired (by simpa [Race.become] using hu)
  · exact h.writing u a expected desired (by simpa [Race.become, heq] using hu)

theorem Inv.raise (h : Inv w) {writeOffset : Nat} (hle : w.writeOffset ≤ writeOffset) :
    Inv { w with writeOffset := writeOffset } := by
  refine ⟨?_, h.aligned, h.disjoint, ?_, ?_⟩
  · intro p hp
    exact (h.below p hp).trans hle
  · intro a ha
    exact (h.written a ha).trans hle
  · intro t a expected desired ht
    obtain ⟨hdesired, hexp⟩ := h.writing t a expected desired ht
    exact ⟨hdesired, hexp.trans hle⟩

theorem Inv.returns (h : Inv w) (hoff : w.writeOffset ≤ a.offset)
    (halign : a.offset % alignment = 0) :
    Inv { w with writeOffset := a.finish, returned := (a, alignment) :: w.returned } := by
  have hraised := h.raise (hoff.trans (Nat.le_add_right a.offset a.size))
  refine ⟨?_, ?_, ?_, hraised.written, hraised.writing⟩
  · intro p hp
    rcases List.mem_cons.mp hp with rfl | hold
    · exact le_refl _
    · exact hraised.below p hold
  · intro p hp
    rcases List.mem_cons.mp hp with rfl | hold
    · exact halign
    · exact h.aligned p hold
  · refine List.Pairwise.cons ?_ h.disjoint
    intro p hp
    right
    exact (h.below p hp).trans hoff

theorem Inv.wrote (h : Inv w) (ha : a.finish ≤ w.writeOffset) :
    Inv { w with written := a :: w.written } := by
  refine ⟨h.below, h.aligned, h.disjoint, ?_, h.writing⟩
  intro b hb
  rcases List.mem_cons.mp hb with rfl | hold
  · exact ha
  · exact h.written b hold

theorem Inv.tryAllocate (h : Inv w) (maxDataStoreSize t : Nat) (spurious : Bool)
    (hword : alignUp currentOffset alignment + size < 2 ^ 64) :
    Inv (w.tryAllocate maxDataStoreSize t size alignment currentOffset spurious) ∧
      w.writeOffset ≤
        (w.tryAllocate maxDataStoreSize t size alignment currentOffset spurious).writeOffset := by
  unfold Race.tryAllocate
  cases halloc : allocateAt maxDataStoreSize currentOffset size alignment with
  | error e => exact ⟨h.become t (by simp), le_refl _⟩
  | ok a =>
    obtain ⟨hpos, _, rfl, _⟩ := allocateAt_eq_ok halloc
    rw [wrap_of_lt (by omega)]
    dsimp only
    split
    case isTrue hswap =>
      have hidle : Inv (w.become t .idle) := h.become t (by simp)
      have hle : (w.become t .idle).writeOffset ≤ alignUp currentOffset alignment :=
        hswap.1 ▸ le_alignUp currentOffset alignment
      have hend : wrap 64 (alignUp currentOffset alignment + size) =
          (⟨alignUp currentOffset alignment, size⟩ : Allocation).finish := wrap_of_lt hword
      rw [hend]
      exact ⟨hidle.returns hle (alignUp_mod _ hpos), hle.trans (Nat.le_add_right _ _)⟩
    case isFalse => exact ⟨h.become t (by simp), le_refl _⟩

theorem Inv.tryWrite (h : Inv w) (t : Nat) {expected desired : Nat} (spurious : Bool)
    (hdesired : a.finish ≤ desired) (hexp : expected ≤ w.writeOffset) :
    Inv (w.tryWrite t a expected desired spurious) ∧
      w.writeOffset ≤ (w.tryWrite t a expected desired spurious).writeOffset := by
  have hidle : Inv (w.become t .idle) := h.become t (by simp)
  unfold Race.tryWrite
  split
  case isTrue hless =>
    split
    case isTrue hswap =>
      have hle : w.writeOffset ≤ desired := hswap.1 ▸ le_of_lt hless
      exact ⟨(hidle.raise hle).wrote hdesired, hle⟩
    case isFalse =>
      refine ⟨h.become t ?_, le_refl _⟩
      intro b expected' desired' heq
      cases heq
      exact ⟨hdesired.trans (le_max_left _ _), le_refl _⟩
  case isFalse hnot =>
    exact ⟨hidle.wrote (hdesired.trans ((not_lt.mp hnot).trans hexp)), le_refl _⟩

/-- Every access keeps the invariant and lowers the write offset never. -/
theorem Inv.step {w w' : Race} {action : Action} (h : Inv w) (hok : NoOverflow w action)
    (hnext : next maxDataStoreSize w action = some w') :
    Inv w' ∧ w.writeOffset ≤ w'.writeOffset := by
  cases action with
  | load t size alignment =>
    simp only [next] at hnext
    split at hnext
    case h_1 =>
      cases hnext
      exact ⟨h.become t (by simp), le_refl _⟩
    case h_2 => cases hnext
  | swap t spurious =>
    simp only [next] at hnext
    split at hnext
    case h_1 size alignment currentOffset hthread =>
      cases hnext
      simp only [NoOverflow, hthread] at hok
      exact h.tryAllocate maxDataStoreSize t spurious hok
    case h_2 => cases hnext
  | loadWrite t a =>
    simp only [next] at hnext
    split at hnext
    case h_1 =>
      cases hnext
      refine ⟨h.become t ?_, le_refl _⟩
      intro b expected desired heq
      cases heq
      exact ⟨le_of_eq (wrap_of_lt hok).symm, le_refl _⟩
    case h_2 => cases hnext
  | swapWrite t spurious =>
    simp only [next] at hnext
    split at hnext
    case h_1 a expected desired hthread =>
      cases hnext
      obtain ⟨hdesired, hexp⟩ := h.writing t a expected desired hthread
      exact h.tryWrite t spurious hdesired hexp
    case h_2 => cases hnext

/-- Under every interleaving the returned allocations are disjoint and aligned,
what was written ends at the write offset, and no access lowers it. -/
theorem allocations_disjoint (maxDataStoreSize writeOffset : Nat) {w : Race}
    (h : Reachable (next maxDataStoreSize) NoOverflow (start writeOffset) w) :
    (w.returned.Pairwise fun p q => Disjoint p.1 q.1) ∧
      (∀ p ∈ w.returned, p.1.offset % p.2 = 0) ∧
      (∀ a ∈ w.written, a.finish ≤ w.writeOffset) ∧
      ∀ action w', NoOverflow w action → next maxDataStoreSize w action = some w' →
        w.writeOffset ≤ w'.writeOffset := by
  have hinv : Inv w := by
    apply Reachable.invariant (inv_start writeOffset) _ h
    intro s a s' hs hok hnext
    exact (hs.step hok hnext).1
  refine ⟨hinv.disjoint, hinv.aligned, hinv.written, ?_⟩
  intro action w' hok hnext
  exact (hinv.step hok hnext).2

/-- Two threads that loaded the same offset; the second one finds another value,
fails once without cause and is then served behind the first. A third writes
behind both. -/
theorem allocations_disjoint_raced :
    ∃ w, Reachable (next 100) NoOverflow (start 0) w ∧
      (w.returned = [(⟨12, 5⟩, 4), (⟨0, 10⟩, 8)] ∧ w.written = [⟨20, 6⟩] ∧ w.writeOffset = 26) ∧
      (w.returned.Pairwise fun p q => Disjoint p.1 q.1) ∧
      ∀ a ∈ w.written, a.finish ≤ w.writeOffset := by
  apply exists_sample
    [.load 0 10 8, .load 1 5 4, .loadWrite 2 ⟨20, 6⟩, .swap 0 false, .swap 1 false, .swap 1 true,
      .swap 1 false, .swapWrite 2 false, .swapWrite 2 false] (by decide +kernel)
  intro w hreach _
  obtain ⟨hdisjoint, _, hwritten, _⟩ := allocations_disjoint 100 0 hreach
  exact ⟨hdisjoint, hwritten⟩

end UhCore.Storage.AtomicOffset
