import UhCore.Dedupe.FragmentIndexRuns
import UhCore.Dedupe.Fragmentation

/-!
Fragments that storage rejects: the entries of the upload turn into unstored
ones, and the fragment set is told to forget their pointers. The call names
the cache by the place of the fragment in this upload, so that an element
which another upload has put into the other cache stays.
-/

namespace UhCore.Dedupe.FragmentIndex

open Caches Transition FragmentIndex

/-- The calls that need no more than the index. -/
def performCall (ix : FragmentIndex) : SetCall → Option FragmentIndex
  | .erase frag header => some (ix.erase frag header)
  | .markDeduplication frag => some (ix.markDeduplication frag)
  | .insert _ _ _ _ => none

def performCalls (ix : FragmentIndex) : List SetCall → Option FragmentIndex
  | [] => some ix
  | call :: rest => (ix.performCall call).bind fun ix' => ix'.performCalls rest

/-- The erasures of rejected entries. -/
def eraseEntries (ix : FragmentIndex) : List DdFragment → FragmentIndex
  | [] => ix
  | f :: rest => (ix.erase f.storedFragment f.header).eraseEntries rest

theorem performCalls_erase (ix : FragmentIndex) (entries : List DdFragment) :
    ix.performCalls (entries.map fun f => .erase f.storedFragment f.header) =
      some (ix.eraseEntries entries) := by
  induction entries generalizing ix with
  | nil => rfl
  | cons f rest ih => exact ih (ix.erase f.storedFragment f.header)

variable {capacity : Nat} {ix : FragmentIndex} {n : SetNode}

/-- An erasure takes the element away that the named cache has under the
pointer, if no hint is held on it. -/
theorem Sound.mem_erase (h : Sound capacity ix) (frag : Fragment) (header : Bool)
    (hhint : n.hintCount = 0) : n ∈ (ix.erase frag header).nodes ↔
      n ∈ ix.nodes ∧ (n.element.pointer = frag.pointer → ¬ ix.Tracks header n) := by
  rcases erase_spec ix frag header with ⟨hnone, hsame⟩ | ⟨gone, hstruck⟩
  · rw [hsame]
    refine ⟨fun hn => ⟨hn, ?_⟩, fun hn => hn.1⟩
    intro hptr htracks
    rw [Tracks, hptr, hnone] at htracks
    cases htracks
  · rw [hstruck.nodes, remove, List.mem_filter, decide_eq_true_iff]
    apply and_congr_right
    intro hn
    constructor
    · intro hkept hptr htracks
      rw [Tracks, hptr, hstruck.had, Option.some.injEq] at htracks
      exact hkept ⟨htracks.symm, hhint⟩
    · rintro hother ⟨rfl, -⟩
      have hptr : n.element.pointer = frag.pointer :=
        h.numbered.pointers header frag.pointer n.id hstruck.had
          (n.id, n.element.pointer) (List.mem_map_of_mem hn) rfl
      apply hother hptr
      rw [Tracks, hptr]
      exact hstruck.had

theorem tracks_erase_iff {frag : Fragment} {header : Bool}
    (hother : n.element.pointer = frag.pointer → ¬ ix.Tracks header n) (h : Bool) :
    (ix.erase frag header).Tracks h n ↔ ix.Tracks h n := by
  rcases erase_spec ix frag header with ⟨-, hsame⟩ | ⟨gone, hstruck⟩
  · rw [hsame]
  · rw [Tracks, Tracks, hstruck.tracked, setAt]
    split
    case isTrue heq =>
      refine iff_of_false (by simp) ?_
      rw [heq.1]
      exact hother heq.2
    case isFalse => rfl

/-- What is left after the erasures: the elements that none of them names. -/
theorem Sound.mem_eraseEntries (h : Sound capacity ix) (entries : List DdFragment)
    (hhint : n.hintCount = 0) : n ∈ (ix.eraseEntries entries).nodes ↔
      n ∈ ix.nodes ∧ ∀ f ∈ entries, n.element.pointer = f.storedPointer →
        ¬ ix.Tracks f.header n := by
  induction entries generalizing ix with
  | nil => simp [eraseEntries]
  | cons f rest ih =>
    rw [eraseEntries, ih (h.erase f.storedFragment f.header),
      h.mem_erase f.storedFragment f.header hhint, and_assoc, List.forall_mem_cons]
    refine and_congr_right fun _ => and_congr_right fun hother => ?_
    refine forall₂_congr fun g _ => imp_congr_right fun _ => ?_
    rw [tracks_erase_iff hother]

/-- No element of the set without a hint on it has a rejected pointer. -/
def Forgotten (ix : FragmentIndex) (rejected : List DdFragment) : Prop :=
  ∀ f ∈ rejected, ∀ n ∈ ix.nodes, n.hintCount = 0 → n.element.pointer ≠ f.storedPointer

/-- Every element under a rejected pointer without a hint on it is in the
cache that the place of a rejected fragment with this pointer names. -/
def NamedByPlace (ix : FragmentIndex) (rejected : List DdFragment) : Prop :=
  ∀ f ∈ rejected, ∀ n ∈ ix.nodes, n.hintCount = 0 → n.element.pointer = f.storedPointer →
    ∃ g ∈ rejected, g.storedPointer = n.element.pointer ∧ ix.Tracks g.header n

instance (ix : FragmentIndex) (rejected : List DdFragment) : Decidable (ix.Forgotten rejected) :=
  inferInstanceAs (Decidable (∀ f ∈ rejected, _))

instance (ix : FragmentIndex) (rejected : List DdFragment) : Decidable (ix.NamedByPlace rejected) :=
  inferInstanceAs (Decidable (∀ f ∈ rejected, _))

theorem Sound.forgotten_iff (h : Sound capacity ix) (rejected : List DdFragment) :
    (ix.eraseEntries rejected).Forgotten rejected ↔ ix.NamedByPlace rejected := by
  constructor
  · intro hforgotten f hf n hn hhint hptr
    by_contra hnone
    push Not at hnone
    refine hforgotten f hf n ((h.mem_eraseEntries rejected hhint).mpr ⟨hn, ?_⟩) hhint hptr
    intro g hg heq
    exact hnone g hg heq.symm
  · intro hnamed f hf n hn hhint hptr
    obtain ⟨hmem, hleft⟩ := (h.mem_eraseEntries rejected hhint).mp hn
    obtain ⟨g, hg, heq, htracks⟩ := hnamed f hf n hmem hhint hptr
    exact hleft g hg heq.symm htracks

/-- For every list of fragments, every rejection and every state of the set:
exactly the rejected entries turn into unstored ones and the sizes grow by
their data; the set forgets their pointers exactly if each element is in the
cache that a rejected fragment names. -/
theorem rejected_fragments_exact (fr : Fragmentation) (reject : Fragment → Bool)
    {capacity : Nat} {ix : FragmentIndex}
    (h : Reachable next (fun _ _ => True) (start capacity) ix) :
    ∃ fr' calls ix',
      fr.handleRejectedFragments ((getStoredFragments fr.frags).filter reject) = (fr', calls) ∧
      fr'.frags = fr.frags.map (markRejected reject) ∧
      fr'.effectiveSize = fr.effectiveSize +
        ((rejectedEntries reject fr.frags).map fun f => f.data.length).sum ∧
      fr'.unstoredSize = fr.unstoredSize +
        ((rejectedEntries reject fr.frags).map fun f => f.data.length).sum ∧
      ix.performCalls calls = some ix' ∧
      (ix'.Forgotten (rejectedEntries reject fr.frags) ↔
        ix.NamedByPlace (rejectedEntries reject fr.frags)) :=
  ⟨_, _, _, fr.handleRejectedFragments_eq reject, rfl, rfl, rfl,
    ix.performCalls_erase (rejectedEntries reject fr.frags),
    (sound_of_reachable h).forgotten_iff (rejectedEntries reject fr.frags)⟩

/-- An upload of one fragment that was found in the set. -/
def knownByte (header : Bool) : Fragmentation :=
  { Fragmentation.empty with frags := [⟨.stored, [1], header, 100, 1, none, []⟩] }

/-- A rejected fragment at the place at which it was inserted. -/
theorem rejected_fragments_exact_first :
    ∃ ix, (Reachable next (fun _ _ => True) (start 1) ix ∧
        ix.NamedByPlace (rejectedEntries (fun _ => true) (knownByte true).frags)) ∧
      ∃ calls ix', ((knownByte true).handleRejectedFragments
          ((getStoredFragments (knownByte true).frags).filter fun _ => true)).2 = calls ∧
        ix.performCalls calls = some ix' ∧
        ix'.Forgotten (rejectedEntries (fun _ => true) (knownByte true).frags) := by
  have hrun : ∃ ix, Reachable next (fun _ _ => True) (start 1) ix ∧
      ix.NamedByPlace (rejectedEntries (fun _ => true) (knownByte true).frags) :=
    exists_reachable_of_runWhile _ [insertByte 100 1 true] (by decide +kernel)
  obtain ⟨ix, hix, hnamed⟩ := hrun
  obtain ⟨fr', calls, ix', hhandled, -, -, -, hperform, hiff⟩ :=
    rejected_fragments_exact (knownByte true) (fun _ => true) hix
  exact ⟨ix, ⟨hix, hnamed⟩, calls, ix', by rw [hhandled], hperform, hiff.mpr hnamed⟩

/-- A fragment that was the first of its upload is known by later uploads at
another place: when it is rejected there, the set keeps it. -/
theorem rejected_header_kept :
    ∃ ix ix', Reachable next (fun _ _ => True) (start 1) ix ∧
      (∀ n ∈ ix.nodes, n.hintCount = 0) ∧
      ix.performCalls ((knownByte false).handleRejectedFragments
        ((getStoredFragments (knownByte false).frags).filter fun _ => true)).2 = some ix' ∧
      ¬ ix'.Forgotten (rejectedEntries (fun _ => true) (knownByte false).frags) := by
  have hrun : ∃ ix, Reachable next (fun _ _ => True) (start 1) ix ∧
      (∀ n ∈ ix.nodes, n.hintCount = 0) ∧
      (ix.performCalls ((knownByte false).handleRejectedFragments
        ((getStoredFragments (knownByte false).frags).filter fun _ => true)).2).any
          (fun ix' => decide (¬ ix'.Forgotten
            (rejectedEntries (fun _ => true) (knownByte false).frags))) = true :=
    exists_reachable_of_runWhile _ [insertByte 100 1 true] (by decide +kernel)
  obtain ⟨ix, hix, hhints, hkept⟩ := hrun
  cases hperform : ix.performCalls ((knownByte false).handleRejectedFragments
      ((getStoredFragments (knownByte false).frags).filter fun _ => true)).2 with
  | none =>
    rw [hperform] at hkept
    cases hkept
  | some ix' =>
    rw [hperform, Option.any_some, decide_eq_true_iff] at hkept
    exact ⟨ix, ix', hix, hhints, hperform, hkept⟩

end UhCore.Dedupe.FragmentIndex
