import UhCore.Dedupe.Deduplicate
import UhCore.Lib.Effects

/-!
The deduplicator with the calls it makes on its data view. `link` and `write`
change the state of the view and may fail, and what a call changed before a
later one fails stays. Searching and changing the fragment set may fail, too,
as both read from storage.
-/

namespace UhCore.Dedupe

open Effects List

/-- The calls of the deduplicator on a data view with a state of type `σ`. -/
structure DataView (σ : Type) where
  write : List UInt8 → List Nat → Effect σ Exn Address
  link : Address → Effect σ Exn Address

/-- The fragment set of a call and the bytes of storage it refers to, with the
exceptions of its operations. -/
structure SearchEnv where
  mem : GlobalMemory
  set : FragmentSet
  stored : set.Stored mem
  searchError : Option Exn
  eraseError : Option Exn
  insertError : Option Exn

/-- What the search finds, when it does not fail. -/
def SearchEnv.found (env : SearchEnv) (conf : DeduplicatorConfig) (data : List UInt8) :
    Except Exn Fragmentation :=
  searchLoop conf env.mem env.set data.length data 0 .empty

section Calls

variable {σ : Type} (view : DataView σ) (env : SearchEnv)

def handleRejected (fr : Fragmentation) (rejected : Address) : Effect σ Exn Fragmentation :=
  if rejected.isEmpty then pure fr
  else do
    raise env.eraseError
    pure (fr.handleRejectedFragments rejected).1

def linkFragments (fr : Fragmentation) : Effect σ Exn Fragmentation :=
  let storedFragments := getStoredFragments fr.frags
  if storedFragments.isEmpty then pure fr
  else do
    let rejected ← view.link storedFragments
    handleRejected env fr rejected

def flushToStorage (fr : Fragmentation) : Effect σ Exn Fragmentation :=
  if fr.unstoredSize = 0 then pure fr
  else do
    let offsets := fr.offsets ++ unstoredOffsets 0 fr.frags
    let bufferAddress ← view.write (unstoredBuffer fr.frags) offsets
    let frags ← computed (computeUnstoredAddresses bufferAddress ⟨none, 0, 0⟩ fr.frags)
    pure { fr with frags := frags, offsets := offsets, bufferAddress := bufferAddress }

def flushToSet (fr : Fragmentation) : Effect σ Exn Fragmentation :=
  if fr.unstoredSize = 0 then pure fr
  else do
    raise env.insertError
    let (fr, _) ← computed fr.flushFragmentSet
    pure fr

/-- `local_deduplicator::deduplicate`. -/
def DataView.deduplicate (conf : DeduplicatorConfig) (data : List UInt8) :
    Effect σ Exn DedupeResponse := do
  raise env.searchError
  let fr ← computed (env.found conf data)
  let fr ← linkFragments view env fr
  let fr ← flushToStorage view fr
  let fr ← flushToSet env fr
  pure ⟨fr.effectiveSize, makeAddress fr.frags⟩

end Calls

theorem SearchEnv.found_ok (env : SearchEnv) (conf : DeduplicatorConfig) (data : List UInt8) :
    ∃ fr, env.found conf data = .ok fr ∧ fr.Ready env.mem ∧ fr.contents = data :=
  searchLoop_ok conf env.stored data.length data (le_refl _) 0 .empty
    (Fragmentation.ready_empty env.mem)

variable {mem : GlobalMemory}

theorem storedSize_pos {fr : Fragmentation} (h : fr.Ready mem) {f : Fragment}
    (hf : f ∈ getStoredFragments fr.frags) : 0 < f.size := by
  obtain ⟨entry, hentry, rfl⟩ := List.mem_map.mp hf
  obtain ⟨hmem, htype⟩ := mem_filter.mp hentry
  have hgood := h.good entry hmem
  have hlen := Memory.length_of_load (hgood.stored (of_decide_eq_true htype))
  have hpos := hgood.nonempty
  show 0 < entry.storedSize
  omega

theorem getStoredFragments_markRejected (reject : Fragment → Bool) (frags : List DdFragment) :
    getStoredFragments (frags.map (markRejected reject)) =
      (getStoredFragments frags).filter (fun f => !reject f) := by
  induction frags with
  | nil => rfl
  | cons f rest ih =>
    simp only [getStoredFragments] at ih ⊢
    by_cases hstore : f.type = .stored
    · by_cases hrej : reject f.storedFragment = true <;>
        simp [markRejected, DdFragment.rejected, hstore, hrej, ih]
    · simp [markRejected, hstore, ih]

theorem map_markRejected_of_none {reject : Fragment → Bool} {frags : List DdFragment}
    (h : (getStoredFragments frags).filter reject = []) :
    frags.map (markRejected reject) = frags := by
  conv_rhs => rw [← List.map_id frags]
  apply map_congr_left
  intro f hf
  have hnot : ¬ (f.type = .stored ∧ reject f.storedFragment = true) := by
    rintro ⟨htype, hrej⟩
    have hstore : f.storedFragment ∈ getStoredFragments frags :=
      List.mem_map_of_mem (mem_filter.mpr ⟨hf, decide_eq_true htype⟩)
    have hmem := mem_filter.mpr ⟨hstore, hrej⟩
    rw [h] at hmem
    cases hmem
  rw [markRejected, if_neg hnot]
  rfl

theorem Fragmentation.Ready.unstoredSize_eq_zero {fr : Fragmentation} (h : fr.Ready mem) :
    fr.unstoredSize = 0 ↔ ∀ f ∈ fr.frags, f.type = .stored := by
  rw [h.unstoredSize]
  constructor
  · exact stored_of_unstoredBuffer_nil h.good
  · intro hall
    rw [unstoredBuffer_of_stored hall, length_nil]

/-- A link that rejects the fragments selected by `reject` leaves a list that is
ready to be written, in which exactly these are unstored. -/
theorem Fragmentation.Ready.handled {fr : Fragmentation} (h : fr.Ready mem)
    (reject : Fragment → Bool) :
    (fr.handleRejectedFragments ((getStoredFragments fr.frags).filter reject)).1.Ready mem ∧
      (fr.handleRejectedFragments ((getStoredFragments fr.frags).filter reject)).1.frags =
        fr.frags.map (markRejected reject) := by
  refine ⟨(h.handleRejected reject).1, ?_⟩
  have hfrags := congrArg Prod.fst (handleRejectedLoop_eq reject fr.frags [])
  rw [nil_append, length_nil] at hfrags
  exact hfrags

/-- Writing a list that is ready: only the write itself can fail, and its
fragments are the stored ones and the written ones. -/
theorem Fragmentation.Ready.computed {fr : Fragmentation} (h : fr.Ready mem) (place : Nat → Nat) :
    ∃ frags, computeUnstoredAddresses (computeAddress place (unstoredBuffer fr.frags).length
        (fr.offsets ++ unstoredOffsets 0 fr.frags)) ⟨none, 0, 0⟩ fr.frags = .ok frags ∧
      (makeAddress frags).Perm (getStoredFragments fr.frags ++
        computeAddress place (unstoredBuffer fr.frags).length
          (fr.offsets ++ unstoredOffsets 0 fr.frags)) ∧
      ∃ calls, flushFragmentsInternal frags = .ok calls := by
  rw [h.offsets, nil_append]
  have hsizes := computeAddress_unstoredSizes place fr.frags
  have hend : Cursor.AtEnd ⟨none, 0, 0⟩ := by
    intro f hf
    cases hf
  exact ⟨_, computeUnstoredAddresses_take mem fr.frags h.good _ ⟨none, 0, 0⟩ hend hsizes,
    makeAddress_takeFragments hsizes, flushFragmentsInternal_take hsizes⟩

section Runs

variable {σ : Type} {view : DataView σ} {env : SearchEnv} {fr fr' : Fragmentation} {s s' : σ}

theorem returns_linkFragments (h : Returns (linkFragments view env fr) s fr' s') :
    (getStoredFragments fr.frags = [] ∧ fr' = fr ∧ s' = s) ∨
      (getStoredFragments fr.frags ≠ [] ∧ ∃ rejected,
        Returns (view.link (getStoredFragments fr.frags)) s rejected s' ∧
          (rejected = [] ∧ fr' = fr ∨ rejected ≠ [] ∧ env.eraseError = none ∧
            fr' = (fr.handleRejectedFragments rejected).1)) := by
  unfold linkFragments at h
  by_cases hempty : getStoredFragments fr.frags = []
  · simp only [hempty, isEmpty_nil, if_true, returns_pure] at h
    exact .inl ⟨hempty, h.1.symm, h.2.symm⟩
  · rw [if_neg (by simpa using hempty), returns_bind] at h
    obtain ⟨rejected, mid, hlink, hrest⟩ := h
    refine .inr ⟨hempty, rejected, ?_⟩
    unfold handleRejected at hrest
    by_cases hnone : rejected = []
    · simp only [hnone, isEmpty_nil, if_true, returns_pure] at hrest
      obtain ⟨rfl, rfl⟩ := hrest
      exact ⟨hlink, .inl ⟨hnone, rfl⟩⟩
    · rw [if_neg (by simpa using hnone)] at hrest
      simp only [returns_bind, returns_raise, returns_pure] at hrest
      obtain ⟨_, _, ⟨herase, rfl⟩, rfl, rfl⟩ := hrest
      exact ⟨hlink, .inr ⟨hnone, herase, rfl⟩⟩

theorem returns_flushToStorage {mem : GlobalMemory} (hready : fr.Ready mem) {place : Nat → Nat}
    (hwrite : ∀ data offsets t addr t', Returns (view.write data offsets) t addr t' →
      addr = computeAddress place data.length offsets)
    (h : Returns (flushToStorage view fr) s fr' s') :
    ∃ written, fr'.unstoredSize = fr.unstoredSize ∧
      (makeAddress fr'.frags).Perm (getStoredFragments fr.frags ++ written) ∧
      written.map Fragment.size = unstoredSizes fr.frags ∧
      ((fr.unstoredSize = 0 ∧ written = [] ∧ s' = s) ∨
        (fr.unstoredSize ≠ 0 ∧ (∃ calls, flushFragmentsInternal fr'.frags = .ok calls) ∧
          ∃ data offsets, Returns (view.write data offsets) s written s')) := by
  unfold flushToStorage at h
  by_cases hzero : fr.unstoredSize = 0
  · simp only [hzero, if_true, returns_pure] at h
    obtain ⟨rfl, rfl⟩ := h
    have hstore := hready.unstoredSize_eq_zero.mp hzero
    refine ⟨[], rfl, ?_, ?_, .inl ⟨hzero, rfl, rfl⟩⟩
    · rw [append_nil, makeAddress_of_stored hstore]
    · rw [unstoredSizes_eq_nil.mpr hstore, map_nil]
  · rw [if_neg hzero] at h
    simp only [returns_bind, returns_computed, returns_pure] at h
    obtain ⟨addr, _, hrun, frags, _, ⟨hwalk, rfl⟩, rfl, rfl⟩ := h
    obtain rfl := hwrite _ _ _ _ _ hrun
    obtain ⟨frags', hwalk', hperm, hcalls⟩ := hready.computed place
    obtain rfl : frags' = frags := Except.ok.inj (hwalk'.symm.trans hwalk)
    refine ⟨_, rfl, hperm, ?_, .inr ⟨hzero, hcalls, _, _, hrun⟩⟩
    rw [hready.offsets, nil_append, computeAddress_unstoredSizes]

theorem returns_flushToSet (h : Returns (flushToSet env fr) s fr' s') :
    fr'.frags = fr.frags ∧ s' = s ∧ (fr.unstoredSize ≠ 0 → env.insertError = none) := by
  unfold flushToSet at h
  by_cases hzero : fr.unstoredSize = 0
  · simp only [hzero, if_true, returns_pure] at h
    obtain ⟨rfl, rfl⟩ := h
    exact ⟨rfl, rfl, fun hne => absurd hzero hne⟩
  · rw [if_neg hzero] at h
    simp only [returns_bind, returns_raise, returns_computed, returns_pure] at h
    obtain ⟨_, _, ⟨hnone, rfl⟩, ⟨fr1, calls⟩, _, ⟨hflush, rfl⟩, rfl, rfl⟩ := h
    refine ⟨?_, rfl, fun _ => hnone⟩
    unfold Fragmentation.flushFragmentSet at hflush
    rw [if_neg hzero] at hflush
    cases hcalls : flushFragmentsInternal fr.frags with
    | error e => simp [hcalls, Bind.bind, Except.bind] at hflush
    | ok calls' =>
      simp only [hcalls, Bind.bind, Except.bind, pure, Except.pure, Except.ok.injEq,
        Prod.mk.injEq] at hflush
      rw [← hflush.1]

theorem throws_flushToSet {e : Exn} (hcalls : fr.unstoredSize ≠ 0 →
    ∃ calls, flushFragmentsInternal fr.frags = .ok calls)
    (h : Throws (flushToSet env fr) s e s') :
    fr.unstoredSize ≠ 0 ∧ env.insertError = some e ∧ s' = s := by
  unfold flushToSet at h
  by_cases hzero : fr.unstoredSize = 0
  · simp [hzero] at h
  · obtain ⟨calls, hcalls⟩ := hcalls hzero
    have hflush : fr.flushFragmentSet = .ok ({ fr with unstoredSize := 0 }, calls) := by
      simp only [Fragmentation.flushFragmentSet, hzero, if_false, hcalls, Bind.bind, Except.bind,
        pure, Except.pure]
    rw [if_neg hzero, hflush] at h
    simp only [throws_bind, throws_raise, throws_computed, throws_pure, reduceCtorEq, false_and,
      and_false, exists_false, or_false] at h
    exact ⟨hzero, h.1, h.2.symm⟩

end Runs

end UhCore.Dedupe
