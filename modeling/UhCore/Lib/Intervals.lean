import Mathlib.Tactic
import Mathlib.Order.Interval.Finset.Nat

/-!
Lists of half-open ranges of natural numbers. Where no two ranges overlap, the
numbers in them are counted range by range.
-/

namespace Intervals

open Finset

/-- A range from its first number to the one behind its last. -/
abbrev Range := Nat × Nat

def Range.toFinset (r : Range) : Finset Nat := Finset.Ico r.1 r.2

/-- The ranges have no number in common. -/
def Separate (r s : Range) : Prop := r.2 ≤ s.1 ∨ s.2 ≤ r.1

def occupied : List Range → Finset Nat
  | [] => ∅
  | r :: rest => r.toFinset ∪ occupied rest

variable {l : List Range}

theorem mem_occupied {p : Nat} : p ∈ occupied l ↔ ∃ r ∈ l, r.1 ≤ p ∧ p < r.2 := by
  induction l with
  | nil => simp [occupied]
  | cons r rest ih => simp [occupied, Range.toFinset, ih]

theorem disjoint_occupied {r : Range} (h : ∀ s ∈ l, Separate r s) :
    Disjoint r.toFinset (occupied l) := by
  rw [disjoint_left]
  intro p hp hmem
  obtain ⟨s, hs, hlow, hhigh⟩ := mem_occupied.mp hmem
  have hr := mem_Ico.mp hp
  rcases h s hs with h | h <;> omega

/-- Numbers with a property are counted range by range. -/
theorem card_filter_occupied (h : l.Pairwise Separate) (P : Nat → Prop) [DecidablePred P] :
    ((occupied l).filter P).card = (l.map fun r => (r.toFinset.filter P).card).sum := by
  induction l with
  | nil => simp [occupied]
  | cons r rest ih =>
    obtain ⟨hhead, htail⟩ := List.pairwise_cons.mp h
    rw [occupied, filter_union, card_union_of_disjoint, List.map_cons,
      List.sum_cons, ih htail]
    exact disjoint_filter_filter (disjoint_occupied hhead)

theorem card_occupied (h : l.Pairwise Separate) :
    (occupied l).card = (l.map fun r => r.2 - r.1).sum := by
  have hcard := card_filter_occupied h fun _ => True
  simpa [Range.toFinset] using hcard

/-- Ranges below a bound that do not overlap have no more numbers than it. -/
theorem card_occupied_le {n : Nat} (h : ∀ r ∈ l, r.2 ≤ n) : (occupied l).card ≤ n := by
  have hsub : occupied l ⊆ range n := by
    intro p hp
    obtain ⟨r, hr, _, hlt⟩ := mem_occupied.mp hp
    exact mem_range.mpr (lt_of_lt_of_le hlt (h r hr))
  exact (card_le_card hsub).trans_eq (card_range n)

end Intervals
