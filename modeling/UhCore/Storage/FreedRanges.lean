import UhCore.Storage.DataStore

/-!
The ranges that `reference_counter::free_stripes` gives to its callback. Their
offsets and sizes are computed in 64-bit words.
-/

namespace UhCore.Storage

open Words List

/-- A call of the callback and what it returned. -/
structure FreeCall where
  delOffset : Nat
  delSize : Nat
  freed : Nat

def FreeCall.bytes (c : FreeCall) : Set Nat := Set.Ico c.delOffset (c.delOffset + c.delSize)

/-- A callback, which may answer by all the calls that it had before. -/
abbrev Callback := List FreeCall → Nat → Nat → Nat

def freeRange (stripeSize : Nat) (cb : Callback) (done : List FreeCall × Nat)
    (range : Nat × Nat) : List FreeCall × Nat :=
  let delOffset := wrap 64 (range.1 * stripeSize)
  let delSize := wrap 64 ((wsub 64 range.2 range.1 + 1) * stripeSize)
  let freed := cb done.1 delOffset delSize
  (done.1 ++ [⟨delOffset, delSize, freed⟩], wrap 64 (done.2 + freed))

/-- The calls of `free_stripes` and what it returns. -/
def freeStripes (stripeSize : Nat) (cb : Callback) : List Nat → List FreeCall × Nat
  | [] => ([], 0)
  | stripe :: rest => (freeRanges stripe stripe rest).foldl (freeRange stripeSize cb) ([], 0)

structure FreesExactly (stripeSize : Nat) (stripes : List Nat) (done : List FreeCall × Nat) :
    Prop where
  disjoint : (done.1.map FreeCall.bytes).Pairwise fun s t => s ∩ t = ∅
  union : ∀ p, (∃ s ∈ done.1.map FreeCall.bytes, p ∈ s) ↔
    ∃ id ∈ stripes, id * stripeSize ≤ p ∧ p < (id + 1) * stripeSize
  sum : done.2 = wrap 64 (done.1.map FreeCall.freed).sum

/-- A run of successive stripes whose offset and size are words. -/
def RunFits (stripeSize : Nat) (run : List Nat) : Prop :=
  ∀ first ∈ run.head?, first * stripeSize < 2 ^ 64 ∧ run.length * stripeSize < 2 ^ 64 ∧
    first + run.length ≤ 2 ^ 64

variable {size : Nat} {cb : Callback} {stripes run : List Nat}

theorem foldl_freeRange (size : Nat) (cb : Callback) (ranges : List (Nat × Nat))
    (done : List FreeCall × Nat) (hsum : done.2 = wrap 64 (done.1.map FreeCall.freed).sum) :
    let all := ranges.foldl (freeRange size cb) done
    all.2 = wrap 64 (all.1.map FreeCall.freed).sum ∧
      all.1.map FreeCall.bytes = done.1.map FreeCall.bytes ++ ranges.map fun r =>
        Set.Ico (wrap 64 (r.1 * size)) (wrap 64 (r.1 * size) +
          wrap 64 ((wsub 64 r.2 r.1 + 1) * size)) := by
  induction ranges generalizing done with
  | nil => exact ⟨hsum, by simp⟩
  | cons r rest ih =>
    obtain ⟨hall, hbytes⟩ := ih (freeRange size cb done r) (by
      simp [freeRange, hsum, wrap_wrap_add])
    refine ⟨hall, hbytes.trans ?_⟩
    simp [freeRange, FreeCall.bytes]

/-- The bytes of the call for a run. -/
def runBytes (size : Nat) (run : List Nat) : Set Nat :=
  Set.Ico (wrap 64 (run.headD 0 * size))
    (wrap 64 (run.headD 0 * size) + wrap 64 (run.length * size))

variable {first n : Nat}

theorem RunAt.first_mem (h : RunAt stripes first n) : first ∈ wrapped first (n + 1) :=
  mem_wrapped (le_refl _) (by omega) h.lt

theorem RunAt.bytes (h : RunAt stripes first n) (size : Nat) :
    runBytes size (wrapped first (n + 1)) = Set.Ico (wrap 64 (first * size))
      (wrap 64 (first * size) + wrap 64 ((n + 1) * size)) := by
  rw [runBytes, length_wrapped]
  change Set.Ico (wrap 64 (wrap 64 first * _)) (wrap 64 (wrap 64 first * _) + _) = _
  rw [wrap_of_lt h.lt]

theorem freeStripes_calls (hword : ∀ id ∈ stripes, id < 2 ^ 64) (size : Nat) (cb : Callback) :
    let all := freeStripes size cb stripes
    all.2 = wrap 64 (all.1.map FreeCall.freed).sum ∧
      all.1.map FreeCall.bytes = (stripes.splitBy follows).map (runBytes size) := by
  cases stripes with
  | nil => exact ⟨rfl, rfl⟩
  | cons stripe rest =>
    obtain ⟨hsum, hbytes⟩ := foldl_freeRange size cb
      (freeRanges stripe stripe rest) ([], 0) rfl
    refine ⟨hsum, hbytes.trans ?_⟩
    rw [freeRanges_eq, map_nil, nil_append, map_map]
    apply map_congr_left
    intro run hrun
    obtain ⟨first, n, hat, rfl⟩ := exists_runAt hword hrun
    have hmod : wrap 64 ((wrap 64 n + 1) * size) = wrap 64 ((n + 1) * size) := by
      simp [wrap, Nat.mul_mod]
    rw [Function.comp, runEnds_wrapped, hat.bytes, wsub_wrap_add, hmod, wrap_of_lt hat.lt]

theorem mem_covered_iff (hpos : 0 < size) {p : Nat} :
    (∃ id ∈ stripes, id * size ≤ p ∧ p < (id + 1) * size) ↔ p / size ∈ stripes := by
  constructor
  · rintro ⟨id, hid, hlow, hhigh⟩
    rwa [Nat.div_eq_of_lt_le hlow hhigh]
  · intro hmem
    refine ⟨_, hmem, Nat.div_mul_le_self p size, ?_⟩
    exact (Nat.div_lt_iff_lt_mul hpos).mp (Nat.lt_succ_self _)

/-- The call for a run that fits frees the stripes of the run. -/
theorem RunAt.mem_runBytes (hat : RunAt stripes first n) (hpos : 0 < size)
    (h : RunFits size (wrapped first (n + 1))) (p : Nat) :
    p ∈ runBytes size (wrapped first (n + 1)) ↔ p / size ∈ wrapped first (n + 1) := by
  obtain ⟨hoffset, hsize, hend⟩ := h (wrap 64 first) rfl
  rw [length_wrapped, wrap_of_lt hat.lt] at *
  rw [hat.bytes, wrapped_eq hend, mem_range'_1, Nat.le_div_iff_mul_le hpos,
    Nat.div_lt_iff_lt_mul hpos, add_mul first, wrap_of_lt hoffset, wrap_of_lt hsize]
  rfl

section

variable (hpos : 0 < size) (hnodup : stripes.Nodup) (hword : ∀ id ∈ stripes, id < 2 ^ 64)
  (hcover : ∀ p, (∃ run ∈ stripes.splitBy follows, p ∈ runBytes size run) ↔
    p / size ∈ stripes)

include hnodup in
theorem runs_apart : (stripes.splitBy follows).Pairwise List.Disjoint := by
  rw [← flatten_splitBy follows stripes] at hnodup
  exact (nodup_flatten.mp hnodup).2

include hnodup hcover

/-- The calls are not smaller than the stripes together. -/
theorem RunAt.size_eq (h : RunAt stripes first n) :
    wrap 64 ((n + 1) * size) = (n + 1) * size := by
  have hbytes : (stripes.flatMap fun id => range' (id * size) size).Nodup := by
    refine nodup_flatMap.mpr ⟨fun _ _ => nodup_range', hnodup.imp ?_⟩
    intro id id' hne p hp hp'
    rw [mem_range'_1] at hp hp'
    apply hne
    rw [← Nat.div_eq_of_lt_le hp.1 (by rw [add_mul]; omega),
      ← Nat.div_eq_of_lt_le hp'.1 (by rw [add_mul]; omega)]
  have hsub : (stripes.flatMap fun id => range' (id * size) size) ⊆
      (stripes.splitBy follows).flatMap fun run =>
        range' (wrap 64 (run.headD 0 * size)) (wrap 64 (run.length * size)) := by
    intro p hp
    obtain ⟨id, hid, hin⟩ := mem_flatMap.mp hp
    rw [mem_range'_1] at hin
    obtain ⟨run, hrun, hmem⟩ := (hcover p).mpr
      (Nat.div_eq_of_lt_le hin.1 (by rw [add_mul]; omega) ▸ hid)
    exact mem_flatMap.mpr ⟨run, hrun, mem_range'_1.mpr hmem⟩
  have hle := (subperm_of_subset hbytes hsub).length_le
  simp only [length_flatMap, length_range', map_const', sum_replicate, smul_eq_mul] at hle
  rw [← flatten_splitBy follows stripes, length_flatten, ← sum_map_mul_right,
    flatten_splitBy] at hle
  by_contra hne
  refine absurd (sum_lt_sum _ _ (fun run _ => wrap_le 64 (run.length * size))
    ⟨_, h.run, lt_of_le_of_ne (wrap_le _ _) ?_⟩) (not_lt.mpr hle)
  rwa [length_wrapped]

include hpos

theorem RunAt.last (h : RunAt stripes first n) : ∃ id ∈ stripes,
    wrap 64 (first * size) + (n + 1) * size ≤ (id + 1) * size := by
  have hn : 0 < (n + 1) * size := Nat.mul_pos n.succ_pos hpos
  have hin := (hcover (wrap 64 (first * size) + (n + 1) * size - 1)).mp
    ⟨_, h.run, by rw [h.bytes, h.size_eq hnodup hcover]; exact ⟨by omega, by omega⟩⟩
  obtain ⟨id, hid, _, hhigh⟩ := (mem_covered_iff hpos).mpr hin
  exact ⟨id, hid, by omega⟩

include hword

/-- The run whose call frees the last stripe starts at its own offset, and has
every stripe behind it. -/
theorem RunAt.offset_lt (h : RunAt stripes first n) : first * size < 2 ^ 64 := by
  by_contra hover
  obtain ⟨top, htop, hmax⟩ := stripes.toFinset.exists_max_image id
    ⟨first, mem_toFinset.mpr (h.mem h.first_mem)⟩
  rw [mem_toFinset] at htop
  have hmax : ∀ t ∈ stripes, t ≤ top := fun t ht => hmax t (mem_toFinset.mpr ht)
  have hbyte : ((top + 1) * size - 1) / size = top := by
    apply Nat.div_eq_of_lt_le
    · rw [add_mul]
      omega
    · exact Nat.sub_lt (Nat.mul_pos top.succ_pos hpos) Nat.one_pos
  obtain ⟨run, hrun, hin⟩ := (hcover ((top + 1) * size - 1)).mpr (by rwa [hbyte])
  obtain ⟨start, k, hat, rfl⟩ := exists_runAt hword hrun
  have hsize := hat.size_eq hnodup hcover
  rw [hat.bytes, hsize] at hin
  obtain ⟨id, hid, hend⟩ := hat.last hpos hnodup hcover
  have hid' : (id + 1) * size ≤ (top + 1) * size :=
    Nat.mul_le_mul_right _ (Nat.succ_le_succ (hmax id hid))
  have hstart := Nat.mul_le_mul_right size (hmax start (hat.mem hat.first_mem))
  have hlt := wrap_lt 64 ((k + 1) * size)
  have hexact : start * size < 2 ^ 64 := by
    by_contra hwrap
    have hperiod := wrap_add_period_le (not_lt.mp hwrap)
    simp only [add_mul, one_mul, Set.mem_Ico] at *
    omega
  rw [wrap_of_lt hexact] at hin hend
  have hcount : start + (k + 1) = top + 1 := by
    apply Nat.eq_of_mul_eq_mul_right hpos
    rw [add_mul start]
    have hhigh := hin.2
    exact le_antisymm (hend.trans hid') (by omega)
  have hlow : start < first := by
    by_contra hle
    exact hover ((Nat.mul_le_mul_right _ (not_lt.mp hle)).trans_lt hexact)
  have hle := hmax first (h.mem h.first_mem)
  have hsame : wrapped first (n + 1) = wrapped start (k + 1) := by
    by_contra hne
    have : Std.Symm (@List.Disjoint Nat) := ⟨fun _ _ => List.Disjoint.symm⟩
    exact (runs_apart hnodup).forall h.run hat.run hne h.first_mem
      (mem_wrapped (by omega) (by omega) h.lt)
  have hhead : wrap 64 first = wrap 64 start := (cons.inj hsame).1
  rw [wrap_of_lt h.lt, wrap_of_lt hat.lt] at hhead
  omega

theorem RunAt.fits (h : RunAt stripes first n) :
    RunFits size (wrapped first (n + 1)) := by
  intro start hstart
  obtain rfl : wrap 64 first = start := Option.some.inj hstart
  have hoffset := h.offset_lt hpos hnodup hword hcover
  have hsize := wrap_lt 64 ((n + 1) * size)
  rw [h.size_eq hnodup hcover] at hsize
  obtain ⟨id, hid, hend⟩ := h.last hpos hnodup hcover
  have hlt := hword id hid
  rw [wrap_of_lt hoffset, ← add_mul] at hend
  rw [length_wrapped, wrap_of_lt h.lt]
  have hle := Nat.le_of_mul_le_mul_right hend hpos
  exact ⟨hoffset, hsize, by omega⟩

end

/-- The callback is given the bytes of the stripes, each once, exactly where the
offset and the size of every run of stripes in the list are words. -/
theorem free_stripes_exact_iff (size : Nat) (cb : Callback) {stripes : List Nat}
    (hnodup : stripes.Nodup) (hword : ∀ id ∈ stripes, id < 2 ^ 64) :
    FreesExactly size stripes (freeStripes size cb stripes) ↔
      size = 0 ∨ ∀ run ∈ stripes.splitBy follows, RunFits size run := by
  obtain ⟨hsum, hbytes⟩ := freeStripes_calls hword size cb
  rcases Nat.eq_zero_or_pos size with rfl | hpos
  · have hempty : ∀ run, runBytes 0 run = ∅ := by simp [runBytes, wrap]
    refine iff_of_true ⟨?_, ?_, hsum⟩ (Or.inl rfl)
    · rw [hbytes, pairwise_map]
      exact pairwise_of_forall fun _ _ => by simp [hempty]
    · simp [hbytes, hempty]
  constructor
  · intro h
    have hcover : ∀ p, (∃ run ∈ stripes.splitBy follows, p ∈ runBytes size run) ↔
        p / size ∈ stripes := by
      intro p
      rw [← mem_covered_iff hpos, ← h.union, hbytes]
      simp
    refine Or.inr fun run hrun => ?_
    obtain ⟨first, n, hat, rfl⟩ := exists_runAt hword hrun
    exact hat.fits hpos hnodup hword hcover
  · rintro (hzero | hfits)
    · omega
    have hmem : ∀ run ∈ stripes.splitBy follows, ∀ p,
        p ∈ runBytes size run ↔ p / size ∈ run := by
      intro run hrun
      obtain ⟨first, n, hat, rfl⟩ := exists_runAt hword hrun
      exact hat.mem_runBytes hpos (hfits _ hrun)
    refine ⟨?_, ?_, hsum⟩
    · rw [hbytes, pairwise_map]
      refine (runs_apart hnodup).imp_of_mem fun hr ht hapart => ?_
      rw [Set.eq_empty_iff_forall_notMem]
      rintro p ⟨hp, hp'⟩
      exact hapart ((hmem _ hr p).mp hp) ((hmem _ ht p).mp hp')
    · intro p
      rw [mem_covered_iff hpos, hbytes]
      nth_rewrite 2 [← flatten_splitBy follows stripes]
      rw [mem_flatten]
      simp only [mem_map, exists_exists_and_eq_and]
      exact exists_congr fun run => and_congr_right fun hrun => hmem run hrun p

theorem free_stripes_exact_iff_sample : [2, 3, 7].Nodup ∧
    FreesExactly 4 [2, 3, 7] (freeStripes 4 (fun _ _ size => size) [2, 3, 7]) := by
  refine ⟨by decide, (free_stripes_exact_iff 4 _ (by decide) (by decide)).mpr (Or.inr ?_)⟩
  simp [splitBy, splitBy.loop, follows, RunFits, wrap]

/-- The offset of a stripe beyond the word size is that of another one. -/
theorem offset_wraps_around :
    ¬ FreesExactly (2 ^ 63) [2] (freeStripes (2 ^ 63) (fun _ _ size => size) [2]) := by
  intro h
  have hfreed := (h.union 0).mp ⟨Set.Ico 0 (2 ^ 63), by
    simp [freeStripes, freeRanges, freeRange, FreeCall.bytes, wrap, wsub], by simp⟩
  simp at hfreed

end UhCore.Storage
