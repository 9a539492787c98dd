import UhCore.Dedupe.WrittenAddresses

/-!
The deduplicator: cut the data into fragments that are known and fragments to
write, link the known ones, turn those that storage rejects into fragments to
write, and write these in one buffer.
-/

namespace UhCore.Dedupe

open Memory List Fragmentation

structure DeduplicatorConfig where
  minFragmentSize : Nat
  maxFragmentSize : Nat
  maxFragmentSize_pos : 0 < maxFragmentSize

structure DedupeResponse where
  effectiveSize : Nat
  addr : Address
  deriving DecidableEq

/-- The search loop of `deduplicate`. Every round consumes at least one byte. -/
def searchLoop (conf : DeduplicatorConfig) (mem : GlobalMemory) (set : FragmentSet) :
    Nat → List UInt8 → Nat → Fragmentation → Except Exn Fragmentation
  | 0, _, _, fr => .ok fr
  | fuel + 1, data, offset, fr =>
    if data.isEmpty then .ok fr
    else do
      let f ← set.find mem data
      let matchLow ← matchSize mem data f.low
      let matchHigh ← matchSize mem data f.high
      let size := max matchLow matchHigh
      if conf.minFragmentSize < size then
        match if matchHigh < matchLow then f.low else f.high with
        | none => .error (.undefinedBehaviour "*f.high")
        | some (frag, _) =>
          searchLoop conf mem set fuel (data.drop size) (offset + size)
            (fr.pushStored frag.pointer size (data.take size) (offset = 0))
      else
        let fragSize := min data.length conf.maxFragmentSize
        searchLoop conf mem set fuel (data.drop fragSize) (offset + fragSize)
          (fr.pushUnstored (data.take fragSize) (offset = 0) (some f.hint))

/-- Link the stored fragments and handle those that `reject` selects. -/
def Fragmentation.linkStored (reject : Fragment → Bool) (fr : Fragmentation) :
    Fragmentation × List SetCall :=
  let storedFragments := getStoredFragments fr.frags
  if storedFragments.isEmpty then (fr, [])
  else
    let rejected := storedFragments.filter reject
    if rejected.isEmpty then (fr, []) else fr.handleRejectedFragments rejected

/-- `deduplicate` against a storage with the bytes `mem`, which writes a buffer
of size `n` at `alloc n` and whose `link` rejects the fragments that `reject`
selects. -/
def deduplicate (conf : DeduplicatorConfig) (mem : GlobalMemory) (set : FragmentSet)
    (alloc : Nat → Nat) (reject : Fragment → Bool) (fuel : Nat) (data : List UInt8) :
    Except Exn (DedupeResponse × GlobalMemory × List SetCall) := do
  let fr ← searchLoop conf mem set fuel data 0 .empty
  let (fr, erased) := fr.linkStored reject
  let (fr, mem') ← fr.flushStorage mem alloc
  let (fr, calls) ← fr.flushFragmentSet
  pure (⟨fr.effectiveSize, makeAddress fr.frags⟩, mem', erased ++ calls)

/-- A list of fragments before its write. -/
structure Fragmentation.Ready (mem : GlobalMemory) (fr : Fragmentation) : Prop where
  good : ∀ f ∈ fr.frags, f.Good mem
  effectiveSize : fr.effectiveSize = (unstoredBuffer fr.frags).length
  unstoredSize : fr.unstoredSize = (unstoredBuffer fr.frags).length
  offsets : fr.offsets = []

/-- The data that the list stands for. -/
def Fragmentation.contents (fr : Fragmentation) : List UInt8 := fr.frags.flatMap DdFragment.data

theorem unstoredBuffer_append (xs ys : List DdFragment) :
    unstoredBuffer (xs ++ ys) = unstoredBuffer xs ++ unstoredBuffer ys := by
  induction xs with
  | nil => rfl
  | cons f rest ih =>
    simp only [cons_append, unstoredBuffer, ih]
    split <;> simp

theorem Fragmentation.ready_empty (mem : GlobalMemory) : empty.Ready mem := by
  refine ⟨?_, rfl, rfl, rfl⟩
  intro f hf
  cases hf

variable {mem : GlobalMemory} {fr : Fragmentation} {set : FragmentSet}

theorem Fragmentation.Ready.pushStored (h : fr.Ready mem) {pointer size : Nat} {data : List UInt8}
    (header : Bool) (hpos : 0 < data.length) (hload : load mem pointer size = some data) :
    (fr.pushStored pointer size data header).Ready mem ∧
      (fr.pushStored pointer size data header).contents = fr.contents ++ data := by
  have hne : data.isEmpty = false := by
    cases data with
    | nil => cases hpos
    | cons b rest => rfl
  have hsame : unstoredBuffer
      (fr.frags ++ [⟨.stored, data, header, pointer, size, none, []⟩]) =
      unstoredBuffer fr.frags := by
    simp [unstoredBuffer_append, unstoredBuffer]
  simp only [Fragmentation.pushStored, hne, Bool.false_eq_true, if_false]
  refine ⟨⟨?_, ?_, ?_, h.offsets⟩, ?_⟩
  · intro f hf
    rcases mem_append.mp hf with hold | hnew
    · exact h.good f hold
    · rw [mem_singleton.mp hnew]
      exact ⟨hpos, fun _ => hload, rfl⟩
  · rw [hsame]
    exact h.effectiveSize
  · rw [hsame]
    exact h.unstoredSize
  · simp [contents]

theorem Fragmentation.Ready.pushUnstored (h : fr.Ready mem) (data : List UInt8) (header : Bool)
    (hint : Option Nat) (hpos : 0 < data.length) : (fr.pushUnstored data header hint).Ready mem ∧
      (fr.pushUnstored data header hint).contents = fr.contents ++ data := by
  have hmore : unstoredBuffer
      (fr.frags ++ [⟨.unstored, data, header, 0, data.length, hint, []⟩]) =
      unstoredBuffer fr.frags ++ data := by
    simp [unstoredBuffer_append, unstoredBuffer]
  simp only [Fragmentation.pushUnstored]
  refine ⟨⟨?_, ?_, ?_, h.offsets⟩, ?_⟩
  · intro f hf
    rcases mem_append.mp hf with hold | hnew
    · exact h.good f hold
    · rw [mem_singleton.mp hnew]
      refine ⟨hpos, ?_, rfl⟩
      intro htype
      cases htype
  · rw [hmore, length_append, ← h.effectiveSize]
  · rw [hmore, length_append, ← h.unstoredSize]
  · simp [contents]

/-- The match with either neighbour of a search is a range of storage that
holds the first bytes of the data. -/
theorem matchSize_neighbour (hset : set.Stored mem) (data : List UInt8)
    {x : Option (Fragment × List UInt8)} (hx : ∀ y, x = some y → ∃ e ∈ set.elements, y = e.entry) :
    ∃ n, matchSize mem data x = .ok n ∧ n ≤ data.length ∧ (x = none → n = 0) ∧
      ∀ y, x = some y → load mem y.1.pointer n = some (data.take n) := by
  cases x with
  | none => exact ⟨0, rfl, Nat.zero_le _, fun _ => rfl, by simp⟩
  | some y =>
    obtain ⟨e, he, rfl⟩ := hx y rfl
    obtain ⟨n, hn, hle, hload⟩ := matchSize_ok data (hset e he)
    refine ⟨n, hn, hle, by simp, ?_⟩
    rintro z hz
    cases hz
    exact hload

theorem searchLoop_ok (conf : DeduplicatorConfig) (hset : set.Stored mem) (fuel : Nat)
    (data : List UInt8) (hfuel : data.length ≤ fuel) (offset : Nat) (fr : Fragmentation)
    (hready : fr.Ready mem) :
    ∃ fr', searchLoop conf mem set fuel data offset fr = .ok fr' ∧ fr'.Ready mem ∧
      fr'.contents = fr.contents ++ data := by
  induction fuel generalizing data offset fr with
  | zero =>
    obtain rfl : data = [] := length_eq_zero_iff.mp (by omega)
    exact ⟨fr, rfl, hready, by simp⟩
  | succ fuel ih =>
    by_cases hempty : data.isEmpty = true
    · obtain rfl : data = [] := List.isEmpty_iff.mp hempty
      exact ⟨fr, rfl, hready, by simp⟩
    · have hpos : 0 < data.length := by
        rw [length_pos_iff]
        intro hnil
        simp [hnil] at hempty
      obtain ⟨r, hfind, hlow, hhigh⟩ := set.find_ok data hset
      obtain ⟨low, hlowRun, hlowLe, hlowNone, hlowLoad⟩ := matchSize_neighbour hset data hlow
      obtain ⟨high, hhighRun, hhighLe, hhighNone, hhighLoad⟩ := matchSize_neighbour hset data hhigh
      have hcontinue : ∀ (n : Nat) (fr1 : Fragmentation), 0 < n → n ≤ data.length →
          fr1.Ready mem → fr1.contents = fr.contents ++ data.take n →
          ∃ fr', searchLoop conf mem set fuel (data.drop n) (offset + n) fr1 = .ok fr' ∧
            fr'.Ready mem ∧ fr'.contents = fr.contents ++ data := by
        intro n fr1 hn hle hready1 hconts1
        obtain ⟨fr', hrun, hready', hconts'⟩ := ih (data.drop n)
          (by rw [length_drop]; omega) (offset + n) fr1 hready1
        refine ⟨fr', hrun, hready', ?_⟩
        rw [hconts', hconts1, append_assoc, take_append_drop]
      simp only [searchLoop, hempty, if_false, hfind, hlowRun, hhighRun, Bind.bind,
        Except.bind, Bool.false_eq_true]
      by_cases hsize : conf.minFragmentSize < max low high
      · have hchosen : ∃ y, (if high < low then r.low else r.high) = some y ∧
            load mem y.1.pointer (max low high) = some (data.take (max low high)) := by
          by_cases hlt : high < low
          · rw [if_pos hlt, max_eq_left (le_of_lt hlt)]
            cases hr : r.low with
            | none =>
              have := hlowNone hr
              omega
            | some y => exact ⟨y, rfl, hlowLoad y hr⟩
          · rw [if_neg hlt, max_eq_right (Nat.le_of_not_lt hlt)]
            cases hr : r.high with
            | none =>
              have := hhighNone hr
              omega
            | some y => exact ⟨y, rfl, hhighLoad y hr⟩
        obtain ⟨⟨frag, bytes⟩, hpick, hload⟩ := hchosen
        have hle : max low high ≤ data.length := by omega
        have hpush := hready.pushStored (decide (offset = 0)) (by rw [length_take]; omega) hload
        rw [if_pos hsize, hpick]
        exact hcontinue _ _ (by omega) hle hpush.1 hpush.2
      · have hfrag : 0 < min data.length conf.maxFragmentSize := by
          have := conf.maxFragmentSize_pos
          omega
        have hpush := hready.pushUnstored
          (data.take (min data.length conf.maxFragmentSize)) (decide (offset = 0))
          (some r.hint) (by rw [length_take]; omega)
        rw [if_neg hsize]
        exact hcontinue _ _ hfrag (min_le_left _ _) hpush.1 hpush.2

/-- Rejections turn stored entries into unstored ones and change no data. -/
theorem Fragmentation.Ready.handleRejected (h : fr.Ready mem) (reject : Fragment → Bool) :
    (fr.handleRejectedFragments ((getStoredFragments fr.frags).filter reject)).1.Ready mem ∧
      (fr.handleRejectedFragments
        ((getStoredFragments fr.frags).filter reject)).1.contents = fr.contents := by
  have hfrags := congrArg Prod.fst (handleRejectedLoop_eq reject fr.frags [])
  have hsize := handleRejectedLoop_size ((getStoredFragments fr.frags).filter reject) 0 fr.frags
  rw [nil_append, length_nil] at hfrags
  rcases hrun : handleRejectedLoop ((getStoredFragments fr.frags).filter reject) 0
    fr.frags with ⟨frags, calls, size⟩
  rw [hrun] at hfrags hsize
  simp only at hfrags hsize
  simp only [handleRejectedFragments, hrun]
  refine ⟨⟨?_, ?_, ?_, h.offsets⟩, ?_⟩
  · intro f hf
    simp only [hfrags] at hf
    obtain ⟨g, hg, rfl⟩ := List.mem_map.mp hf
    unfold markRejected
    split
    · exact (h.good g hg).rejected
    · exact h.good g hg
  · rw [hsize, h.effectiveSize]
  · rw [hsize, h.unstoredSize]
  · simp only [contents, hfrags, flatMap_map]
    apply flatMap_congr
    intro f _
    unfold markRejected
    split <;> rfl

theorem Fragmentation.Ready.linkStored (h : fr.Ready mem) (reject : Fragment → Bool) :
    (fr.linkStored reject).1.Ready mem ∧ (fr.linkStored reject).1.contents = fr.contents := by
  simp only [Fragmentation.linkStored]
  split
  · exact ⟨h, rfl⟩
  · split
    · exact ⟨h, rfl⟩
    · exact h.handleRejected reject

/-- The write of a list that is ready: the bytes of its unstored entries go to
storage, and its address then reads as its data. -/
theorem Fragmentation.Ready.flush (h : fr.Ready mem) {alloc : Nat → Nat}
    (hfresh : ∀ n i, i < n → mem (alloc n + i) = none) :
    ∃ fr' mem' fr'' calls, fr.flushStorage mem alloc = .ok (fr', mem') ∧
      fr'.flushFragmentSet = .ok (fr'', calls) ∧
      mem' = store mem (alloc (unstoredBuffer fr.frags).length) (unstoredBuffer fr.frags) ∧
      fr''.effectiveSize = (unstoredBuffer fr.frags).length ∧
      readAddress mem' (makeAddress fr''.frags) = some fr.contents := by
  have hext : Extends mem
      (store mem (alloc (unstoredBuffer fr.frags).length) (unstoredBuffer fr.frags)) :=
    extends_store (hfresh _)
  have hread : readAddress
      (store mem (alloc (unstoredBuffer fr.frags).length) (unstoredBuffer fr.frags))
      (makeAddress (assignAddresses (alloc (unstoredBuffer fr.frags).length) 0 fr.frags)) =
      some fr.contents := by
    apply readAddress_assigned
    · intro f hf htype
      exact load_mono hext ((h.good f hf).stored htype)
    · exact load_store mem _ _
  by_cases hzero : fr.unstoredSize = 0
  · have hlen : (unstoredBuffer fr.frags).length = 0 := by rw [← h.unstoredSize, hzero]
    have hnil : unstoredBuffer fr.frags = [] := length_eq_zero_iff.mp hlen
    have hstore := stored_of_unstoredBuffer_nil h.good hlen
    have hmem : mem = store mem (alloc (unstoredBuffer fr.frags).length)
        (unstoredBuffer fr.frags) := by
      rw [hnil]
      exact (Bytes.splice_nil mem _).symm
    refine ⟨fr, mem, fr, [], ?_, ?_, hmem, h.effectiveSize, ?_⟩
    · simp [flushStorage, hzero]
    · simp [flushFragmentSet, hzero]
    · rw [assignAddresses_of_stored _ _ _ hstore, ← hmem] at hread
      exact hread
  · have haddr := computeAddress_unstoredOffsets (alloc (unstoredBuffer fr.frags).length) fr.frags 0
    rw [zero_add] at haddr
    have hwalk := computeUnstoredAddresses_eq mem (alloc (unstoredBuffer fr.frags).length)
      fr.frags h.good (writtenFragments (alloc (unstoredBuffer fr.frags).length) 0 fr.frags)
      0 ⟨none, 0, 0⟩ (by intro f hf; cases hf) rfl
    obtain ⟨calls, hcalls⟩ := flushFragmentsInternal_ok
      (alloc (unstoredBuffer fr.frags).length) 0 fr.frags
    refine ⟨{ fr with
        frags := assignAddresses (alloc (unstoredBuffer fr.frags).length) 0 fr.frags
        offsets := unstoredOffsets 0 fr.frags
        bufferAddress := writtenFragments (alloc (unstoredBuffer fr.frags).length) 0 fr.frags },
      _, { fr with
        frags := assignAddresses (alloc (unstoredBuffer fr.frags).length) 0 fr.frags
        offsets := unstoredOffsets 0 fr.frags
        unstoredSize := 0
        bufferAddress := writtenFragments (alloc (unstoredBuffer fr.frags).length) 0 fr.frags },
      calls, ?_, ?_, rfl, h.effectiveSize, hread⟩
    · simp only [flushStorage, hzero, if_false, h.offsets, nil_append,
        haddr, hwalk, Bind.bind, Except.bind, pure, Except.pure]
    · simp only [flushFragmentSet, hzero, if_false, hcalls, Bind.bind,
        Except.bind, pure, Except.pure]

/-- Deduplication round trip: with enough rounds for the data the deduplicator
returns an address that reads as the data, and its effective size is the
number of bytes it wrote. -/
theorem deduplicate_round_trip (conf : DeduplicatorConfig) {mem : GlobalMemory}
    {set : FragmentSet} (hset : set.Stored mem) {alloc : Nat → Nat}
    (hfresh : ∀ n i, i < n → mem (alloc n + i) = none) (reject : Fragment → Bool)
    (data : List UInt8) (fuel : Nat) (hfuel : data.length ≤ fuel) :
    ∃ response calls buffer,
      deduplicate conf mem set alloc reject fuel data =
        .ok (response, store mem (alloc buffer.length) buffer, calls) ∧
      response.effectiveSize = buffer.length ∧
      readAddress (store mem (alloc buffer.length) buffer) response.addr = some data := by
  obtain ⟨fr, hsearch, hready, hcontents⟩ := searchLoop_ok conf hset fuel data hfuel 0
    .empty (ready_empty mem)
  have hdata : fr.contents = data := hcontents
  obtain ⟨hready1, hdata1⟩ := hready.linkStored reject
  rcases hlink : fr.linkStored reject with ⟨fr1, erased⟩
  rw [hlink] at hready1 hdata1
  obtain ⟨fr2, mem', fr3, calls, hflush, hset', hmem, heff, hread⟩ := hready1.flush hfresh
  refine ⟨⟨fr3.effectiveSize, makeAddress fr3.frags⟩, erased ++ calls,
    unstoredBuffer fr1.frags, ?_, heff, ?_⟩
  · simp only [deduplicate, hsearch, Bind.bind, Except.bind, hlink, hflush, hset', pure,
      Except.pure, hmem]
  · rw [← hmem, hread, hdata1, hdata]

/-- Four equal bytes in storage and the set that knows them. -/
def sampleMemory : GlobalMemory := fun p => if p < 4 then some 7 else none

def sampleSet : FragmentSet := .node .leaf ⟨0, 4, [7, 7], none⟩ .leaf

theorem sampleSet_stored : sampleSet.Stored sampleMemory := by
  intro e he
  rw [mem_singleton.mp he]
  exact ⟨[7, 7, 7, 7], rfl, ⟨[7, 7], rfl⟩⟩

def sampleAlloc (_ : Nat) : Nat := 10

theorem sampleAlloc_fresh (n i : Nat) (_ : i < n) : sampleMemory (sampleAlloc n + i) = none := by
  have hge : ¬ 10 + i < 4 := by omega
  simp [sampleMemory, sampleAlloc, hge]

theorem deduplicate_round_trip_sample :
    ∃ response calls buffer,
      deduplicate ⟨1, 2, by decide⟩ sampleMemory sampleSet sampleAlloc (fun _ => true) 5
        [7, 7, 7, 8, 9] =
        .ok (response, store sampleMemory (sampleAlloc buffer.length) buffer, calls) ∧
      response.effectiveSize = buffer.length ∧
      readAddress (store sampleMemory (sampleAlloc buffer.length) buffer) response.addr =
        some [7, 7, 7, 8, 9] :=
  deduplicate_round_trip ⟨1, 2, by decide⟩ sampleSet_stored sampleAlloc_fresh
    (fun _ => true) [7, 7, 7, 8, 9] 5 (le_refl 5)

example : (deduplicate ⟨1, 2, by decide⟩ sampleMemory sampleSet sampleAlloc
    (fun _ => false) 5 [7, 7, 7, 8, 9]).map (fun r => (r.1, r.2.2)) =
    .ok (⟨2, [⟨0, 3⟩, ⟨10, 2⟩]⟩,
      [.markDeduplication ⟨0, 3⟩, .insert 10 [8, 9] false (some 1)]) := by
  rfl

end UhCore.Dedupe
