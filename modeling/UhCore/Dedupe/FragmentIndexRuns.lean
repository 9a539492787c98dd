import UhCore.Dedupe.FragmentIndex

/-!
Runs of the fragment set with its eviction index. The set and the index stay
in step as long as no hint is held on an element that a cache drops: such an
element stays in the set, and no cache has it any more.
-/

namespace UhCore.Dedupe.FragmentIndex

open Caches Transition List FragmentIndex

theorem sound_start (capacity : Nat) : Sound capacity (start capacity) where
  caches header := by
    cases header <;> exact LfuCache.inv_empty capacity
  numbered := by
    refine ⟨nodup_nil, forall_mem_nil _, ?_, ?_⟩
    · intro header pointer id h
      cases header <;> cases h
    · intro header pointer id h
      cases header <;> cases h

theorem inStep_start (capacity : Nat) : (start capacity).InStep where
  tracked := forall_mem_nil _
  refers header pointer id h := by
    cases header <;> cases h

variable {capacity : Nat} {ix : FragmentIndex} {action : IndexAction}

theorem Sound.markDeduplication (h : Sound capacity ix) (frag : Fragment) :
    Sound capacity (ix.markDeduplication frag) where
  caches header := by
    cases header with
    | true => exact h.caches true
    | false => exact (h.caches false).use frag.pointer
  numbered := by
    rw [tracked_markDeduplication]
    exact h.numbered

theorem markDeduplication_inStep (h : ix.InStep) (frag : Fragment) :
    (ix.markDeduplication frag).InStep := by
  rw [inStep_iff] at h ⊢
  rw [tracked_markDeduplication]
  exact h

/-- One step: it has an outcome, and it keeps the set and the index in step if
it drops no element that a hint is held on. -/
theorem Sound.perform (h : Sound capacity ix) (hallowed : ix.Allowed action) :
    ∃ ix', ix.perform action = some ix' ∧ Sound capacity ix' ∧
      (ix.InStep → ix.DropsUnhinted action → ix'.InStep) := by
  cases action with
  | find found =>
    cases found with
    | none => exact ⟨ix, rfl, h, fun hix _ => hix⟩
    | some id => exact ⟨_, rfl, h.rehint id _, fun hix _ => rehint_inStep hix id _⟩
  | release id => exact ⟨_, rfl, h.rehint id _, fun hix _ => rehint_inStep hix id _⟩
  | insert mem pointer data header hinted placement =>
    cases placement with
    | placed =>
      obtain ⟨ix', hinsert, hsound, hinstep⟩ := h.insert_placed pointer data header hinted
      exact ⟨ix', hinsert, hsound, fun hix hdrops => hinstep hix hdrops.1 hdrops.2⟩
    | existing id =>
      obtain ⟨n, hn, rfl, -⟩ := hallowed
      obtain ⟨ix', hinsert, hsound, hinstep⟩ := h.insert_existing pointer data header hinted hn
      refine ⟨ix', hinsert, hsound, fun hix hdrops => hinstep hix ?_⟩
      rintro rfl hptr
      exact hdrops ⟨n, hn, rfl, hptr⟩
  | markDeduplication frag =>
    exact ⟨_, rfl, h.markDeduplication frag, fun hix _ => markDeduplication_inStep hix frag⟩
  | erase frag header =>
    exact ⟨_, rfl, h.erase frag header, fun hix hdrops => h.erase_inStep hix hdrops⟩

theorem Sound.next {ix ix' : FragmentIndex} (h : Sound capacity ix)
    (hnext : ix.next action = some ix') :
    Sound capacity ix' ∧ (ix.InStep → ix.DropsUnhinted action → ix'.InStep) := by
  unfold FragmentIndex.next at hnext
  split at hnext
  case isFalse => cases hnext
  case isTrue hallowed =>
    obtain ⟨ix'', hperform, hsound, hinstep⟩ := h.perform hallowed
    rw [hperform] at hnext
    cases hnext
    exact ⟨hsound, hinstep⟩

theorem sound_of_reachable {ok : FragmentIndex → IndexAction → Prop}
    (h : Reachable next ok (start capacity) ix) : Sound capacity ix :=
  h.invariant (sound_start capacity) fun _ _ _ hix _ hnext => (hix.next hnext).1

theorem Sound.length_filter_tracks_le (h : Sound capacity ix) (header : Bool) :
    (ix.nodes.filter fun n => decide (ix.Tracks header n)).length ≤ capacity := by
  have hsize := (h.caches header).size
  have hnodup : ((ix.nodes.filter fun n => decide (ix.Tracks header n)).map
      fun n => n.element.pointer).Nodup := by
    refine List.Nodup.map_on ?_ ?_
    · intro n hn n' hn' heq
      obtain ⟨hmem, htracks⟩ := mem_filter.mp hn
      obtain ⟨hmem', htracks'⟩ := mem_filter.mp hn'
      have hn := of_decide_eq_true htracks
      have hn' := of_decide_eq_true htracks'
      rw [Tracks] at hn hn'
      rw [heq, hn', Option.some.injEq] at hn
      exact h.mem_nodes_eq hmem hmem' hn.symm
    · have hids := h.numbered.nodup
      rw [keys, List.map_map] at hids
      exact (List.Nodup.of_map _ hids).filter _
  have hsub : ((ix.nodes.filter fun n => decide (ix.Tracks header n)).map
      fun n => n.element.pointer) ⊆ (ix.cacheOf header).keyData.keys := by
    intro p hp
    obtain ⟨n, hn, rfl⟩ := List.mem_map.mp hp
    have htracks := of_decide_eq_true (mem_filter.mp hn).2
    rw [← LfuCache.present_iff_mem_keys]
    by_contra habsent
    rw [Tracks, tracked_eq_none_iff.mpr habsent] at htracks
    cases htracks
  have hle := (subperm_of_subset hnodup hsub).length_le
  rw [length_map] at hle
  omega

theorem InStep.size_le (hix : ix.InStep) (h : Sound capacity ix) : ix.size ≤ 2 * capacity := by
  have hfalse := h.length_filter_tracks_le false
  have htrue := h.length_filter_tracks_le true
  have hrest : (ix.nodes.filter fun n => !decide (ix.Tracks false n)).length ≤
      (ix.nodes.filter fun n => decide (ix.Tracks true n)).length := by
    rw [← countP_eq_length_filter, ← countP_eq_length_filter]
    apply countP_mono_left
    intro n hn hnot
    obtain ⟨header, htracks, -⟩ := hix.tracked n hn
    cases header with
    | true => exact decide_eq_true htracks
    | false => simp [htracks] at hnot
  have hsum := ix.nodes.length_eq_length_filter_add fun n => decide (ix.Tracks false n)
  rw [size]
  omega

/-- The insertion of a one-byte fragment. -/
def insertByte (pointer : Nat) (byte : UInt8) (header : Bool) : IndexAction :=
  .insert (fun _ => none) pointer [byte] header true .placed

end UhCore.Dedupe.FragmentIndex
