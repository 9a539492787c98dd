import UhCore.Storage.Capacity

/-!
An unlink as one transaction. The counts are committed before the pages that
lose their entry are released, so an unlink is all or nothing only where the
release of a tracked page never throws: every tracked page starts below the
write offset and lies in the files.
-/

namespace UhCore.Storage

open Words Blocks Transition List Function DataStore LivePages Refcount

section Transaction

/-- When the entries in `front` are done, the stripe of an entry has no count
any more. -/
def Untracked (dbi : RefTable) (front : List Refcount) (rc : Refcount) : Prop :=
  match dbi rc.stripeId with
  | none => True
  | some current => rc.stripeId ∈ front.map stripeId ∧ current ≤ countOf front rc.stripeId

/-- The turn of some entry comes when its stripe is untracked. -/
def MeetsUntracked (dbi : RefTable) (rcs : List Refcount) : Prop :=
  ∃ front rc back, rcs = front ++ rc :: back ∧ Untracked dbi front rc

variable {dbi mid : RefTable} {rc : Refcount} {current : Nat}

section

variable (hcur : dbi rc.stripeId = some current)
  (hmid : mid = update dbi rc.stripeId
    (if current ≤ rc.count then none else some (current - rc.count)))

include hcur hmid

theorem untracked_cons (front : List Refcount) (entry : Refcount) :
    Untracked mid front entry ↔ Untracked dbi (rc :: front) entry := by
  unfold Untracked
  rw [countOf_cons, map_cons, mem_cons, hmid]
  by_cases ht : entry.stripeId = rc.stripeId
  · rw [ht, update_self, hcur]
    by_cases hle : current ≤ rc.count
    · rw [if_pos hle]
      rw [if_pos rfl]
      exact iff_of_true trivial ⟨.inl rfl, by omega⟩
    · rw [if_neg hle]
      rw [if_pos rfl]
      by_cases hmem : rc.stripeId ∈ front.map stripeId
      · simp only [hmem, true_and, or_true]
        omega
      · rw [countOf_eq_zero hmem]
        simp only [hmem, false_and, true_or, true_and, add_zero, hle]
  · rw [update_of_ne ht]
    simp only [ht, false_or, Ne.symm ht, if_false, zero_add]

theorem meetsUntracked_cons
    (rest : List Refcount) : MeetsUntracked mid rest ↔ MeetsUntracked dbi (rc :: rest) := by
  constructor
  · rintro ⟨front, entry, back, rfl, h⟩
    exact ⟨rc :: front, entry, back, rfl, (untracked_cons hcur hmid front entry).mp h⟩
  · rintro ⟨front, entry, back, heq, h⟩
    cases front with
    | nil =>
      obtain ⟨rfl, rfl⟩ := cons.inj heq
      rw [Untracked, hcur] at h
      exact absurd h.1 (by simp)
    | cons first front =>
      obtain ⟨rfl, rfl⟩ := cons.inj heq
      exact ⟨front, entry, back, rfl, (untracked_cons hcur hmid front entry).mpr h⟩

end

/-- A decrement fails when the turn of an untracked stripe comes, and else takes
the sum of its counts off every stripe. -/
theorem decrementTxn_spec (rcs : List Refcount) (dbi : RefTable) :
    (MeetsUntracked dbi rcs ∧ ∃ e, decrementTxn rcs dbi = .error e) ∨
      ¬ MeetsUntracked dbi rcs ∧
        ∃ stripes dbi', decrementTxn rcs dbi = .ok (stripes, dbi') ∧ dbi' = remaining dbi rcs := by
  induction rcs generalizing dbi with
  | nil =>
    refine .inr ⟨?_, [], dbi, rfl, ?_⟩
    · rintro ⟨front, rc, back, heq, _⟩
      exact absurd heq.symm (append_ne_nil_of_right_ne_nil _ (cons_ne_nil _ _))
    · funext t
      unfold remaining
      cases dbi t <;> simp [countOf]
  | cons rc rest ih =>
    cases hcur : dbi rc.stripeId with
    | none =>
      refine .inl ⟨⟨[], rc, rest, rfl, ?_⟩, ?_⟩
      · rw [Untracked, hcur]
        trivial
      · simp [decrementTxn, decrementStripe, hcur, Bind.bind, Except.bind]
    | some current =>
      obtain ⟨free, mid, hone, hmid⟩ : ∃ free mid,
          decrementStripe rc.stripeId rc.count dbi = .ok (free, mid) ∧
          mid = update dbi rc.stripeId
            (if current ≤ rc.count then none else some (current - rc.count)) := by
        unfold decrementStripe
        rw [hcur]
        by_cases hle : current ≤ rc.count
        · exact ⟨true, _, if_pos hle, by rw [if_pos hle]⟩
        · exact ⟨false, _, if_neg hle, by rw [if_neg hle]⟩
      have hmeets := meetsUntracked_cons hcur hmid rest
      rcases ih mid with ⟨huntracked, e, herror⟩ | ⟨htrack, stripes, dbi', hok, hdbi'⟩
      · refine .inl ⟨hmeets.mp huntracked, e, ?_⟩
        simp [decrementTxn, hone, herror, Bind.bind, Except.bind]
      · have htxn : decrementTxn (rc :: rest) dbi =
            .ok (if free then rc.stripeId :: stripes else stripes, dbi') := by
          simp [decrementTxn, hone, hok, Bind.bind, Except.bind, pure, Except.pure]
        exact .inr ⟨mt hmeets.mpr htrack, _, dbi', htxn, (decrementTxn_ok htxn).1⟩

end Transaction

namespace Unlinks

inductive Action where
  | allocate (size alignment : Nat)
  | write (allocation : Allocation) (buffers : List (List UInt8)) (refcounts : List Refcount)
  | link (refcounts : List Refcount)
  | unlink (refcounts : List Refcount)

def CountsWithin (page : Nat) (a : Allocation) (refcounts : List Refcount) : Prop :=
  ∀ rc ∈ refcounts, rc.stripeId * page < a.finish

instance (page : Nat) (a : Allocation) (refcounts : List Refcount) :
    Decidable (CountsWithin page a refcounts) :=
  inferInstanceAs (Decidable (∀ rc ∈ refcounts, _))

/-- One request of a data view. The allocation of a write may have been made by
another store of the group. -/
def next (s : DataStore) : Action → Option DataStore
  | .allocate size alignment => some (s.allocate size alignment).2
  | .write a buffers refcounts =>
    if (buffers.map List.length).sum < 2 ^ 64 ∧ CountsWithin s.conf.pageSize a refcounts then
      some (s.write a buffers refcounts).2
    else none
  | .link refcounts => some (s.link refcounts).2
  | .unlink refcounts => some (s.unlink refcounts).2

/-- Allocations end in the address space, or are refused since the capacity is
short without the difference wrapping around; the last page of what is written
ends in the address space. -/
def Fits (s : DataStore) : Action → Prop
  | .allocate size alignment => alignUp s.writeOffset alignment + size < 2 ^ 64 ∨
      (alignUp s.writeOffset alignment ≤ s.conf.maxDataStoreSize ∧
        s.conf.maxDataStoreSize < alignUp s.writeOffset alignment + size)
  | .write a _ _ => alignUp a.finish s.conf.pageSize < 2 ^ 64
  | _ => True

instance (s : DataStore) (action : Action) : Decidable (Fits s action) := by
  cases action <;> unfold Fits <;> infer_instance

/-- Every tracked page can be released. -/
structure Inv (s : DataStore) : Prop where
  filesOk : s.FilesOk
  word : s.writeOffset < 2 ^ 64
  tracked : ∀ t, (s.refcounter t).isSome → DataStore.Releasable s t

theorem inv_fresh (conf : DataStoreConfig) : Inv (.fresh conf) := by
  refine ⟨fresh_filesOk conf, Nat.two_pow_pos 64, ?_⟩
  intro t ht
  cases ht

variable {a : Allocation} {s : DataStore}

/-- An allocation that fits does not lower the write offset. -/
theorem allocateAt_of_fits {conf : DataStoreConfig} {writeOffset size alignment : Nat}
    (h : allocateAt conf.maxDataStoreSize writeOffset size alignment = .ok a)
    (hfits : alignUp writeOffset alignment + size < 2 ^ 64 ∨ (alignUp writeOffset alignment ≤ conf.maxDataStoreSize ∧ conf.maxDataStoreSize < alignUp writeOffset alignment + size))
    : writeOffset ≤ a.offset ∧ a.finish < 2 ^ 64 := by
  have hmax := conf.maxDataStoreSize_lt
  have hle := le_alignUp writeOffset alignment
  rcases hfits with hword | ⟨hbelow, hshort⟩
  · obtain ⟨_, _, rfl, _⟩ := allocateAt_eq_ok h
    rw [wrap_of_lt (by omega)]
    exact ⟨hle, hword⟩
  · have hroom := (allocateAt_within h hbelow hmax).2
    omega

theorem Inv.allocate (h : Inv s) {size alignment : Nat} (hfits : Fits s (.allocate size alignment))
    : Inv (s.allocate size alignment).2 := by
  unfold DataStore.allocate
  cases halloc : allocateAt s.conf.maxDataStoreSize s.writeOffset size alignment with
  | error e => exact h
  | ok a =>
    obtain ⟨hoff, hword⟩ := allocateAt_of_fits halloc hfits
    have hend : wrap 64 (a.offset + a.size) = a.finish := wrap_of_lt hword
    dsimp only
    refine ⟨h.filesOk, wrap_lt 64 _, ?_⟩
    intro t ht
    obtain ⟨hpage, hext, hbelow⟩ := h.tracked t ht
    refine ⟨hpage, hext, ?_⟩
    rw [hend]
    exact lt_of_lt_of_le hbelow (hoff.trans (Nat.le_add_right _ _))

/-- A page that starts below an end that lies in the files lies in them. -/
theorem page_le_extent (hreaches : a.finish ≤ s.extent) {t : Nat}
    (ht : t * s.conf.pageSize < a.finish) : (t + 1) * s.conf.pageSize ≤ s.extent := by
  refine (succ_mul_le_alignUp s.conf.pageSize_pos ht).trans ?_
  apply alignUp_le_of_mod_eq_zero s.conf.pageSize_pos hreaches
  obtain ⟨k, hk⟩ := Nat.dvd_of_mod_eq_zero s.conf.maxFileSize_mod
  rw [extent, hk, mul_assoc]
  exact Nat.mul_mod_right _ _

theorem Inv.write (h : Inv s) {buffers : List (List UInt8)} {refcounts : List Refcount}
    (hsum : (buffers.map List.length).sum < 2 ^ 64)
    (hcounts : CountsWithin s.conf.pageSize a refcounts)
    (hfits : alignUp a.finish s.conf.pageSize < 2 ^ 64) : Inv (s.write a buffers refcounts).2 := by
  by_cases hsize : (buffers.map List.length).sum = a.size
  · have hword : a.finish < 2 ^ 64 := lt_of_le_of_lt (le_alignUp _ _) hfits
    obtain ⟨s', hrun, heff⟩ := write_ok h.filesOk refcounts hsize hword
    rw [hrun]
    refine ⟨heff.filesOk, ?_, ?_⟩
    · rw [heff.writeOffset]
      exact max_lt h.word hword
    · intro t ht
      rw [heff.refcounter, increment_isSome] at ht
      rcases Bool.or_eq_true_iff.mp ht with hold | hnew
      · obtain ⟨hpage, hext, hbelow⟩ := h.tracked t hold
        refine ⟨?_, ?_, ?_⟩
        · rw [heff.conf]
          exact hpage
        · rw [heff.conf]
          exact hext.trans heff.extent
        · rw [heff.conf, heff.writeOffset]
          exact lt_of_lt_of_le hbelow (le_max_left _ _)
      · obtain ⟨rc, hrc, rfl⟩ := List.mem_map.mp (by simpa using hnew)
        have hpage : rc.stripeId * s'.conf.pageSize < a.finish := by
          rw [heff.conf]
          exact hcounts rc hrc
        refine ⟨?_, page_le_extent heff.reaches hpage, ?_⟩
        · rw [heff.conf]
          exact lt_of_le_of_lt (succ_mul_le_alignUp s.conf.pageSize_pos (hcounts rc hrc)) hfits
        · rw [heff.writeOffset]
          exact lt_of_lt_of_le hpage (le_max_right _ _)
  · have hrun : (s.write a buffers refcounts).2 = s.allocateFiles a.offset a.size := by
      unfold DataStore.write
      rw [wrap_of_lt hsum]
      simp only [ne_eq, hsize, not_false_eq_true, if_true]
    rw [hrun]
    refine ⟨h.filesOk.grow _, h.word, ?_⟩
    intro t ht
    obtain ⟨hpage, hext, hbelow⟩ := h.tracked t ht
    exact ⟨hpage, hext.trans (extent_le_allocateFiles s a.offset a.size), hbelow⟩

theorem Inv.link (h : Inv s) (refcounts : List Refcount) : Inv (s.link refcounts).2 := by
  refine ⟨h.filesOk, h.word, ?_⟩
  intro t ht
  have hold : (s.refcounter t).isSome := by
    have hsome : ((increment refcounts true s.refcounter).2 t).isSome := ht
    simpa [increment_isSome] using hsome
  obtain ⟨hpage, hext, hbelow⟩ := h.tracked t hold
  exact ⟨hpage, hext, hbelow⟩

/-- The stripes whose entry goes. -/
def Removed (s : DataStore) (refcounts : List Refcount) (t : Nat) : Prop :=
  (s.refcounter t).isSome = true ∧ remaining s.refcounter refcounts t = none

/-- An unlink throws and changes nothing when the turn of an untracked stripe
comes. Otherwise it returns, every count drops by the sum of its entries, and
the removed stripes and no others are freed. -/
def AllOrNothing (s : DataStore) (refcounts : List Refcount) : Prop :=
  (MeetsUntracked s.refcounter refcounts ∧ ∃ e, s.unlink refcounts = (.error e, s)) ∨
    ¬ MeetsUntracked s.refcounter refcounts ∧
      ∃ freed s', s.unlink refcounts = (.ok freed, s') ∧
        s'.refcounter = remaining s.refcounter refcounts ∧
        s'.conf = s.conf ∧ s'.writeOffset = s.writeOffset ∧
        ∀ p, (Removed s refcounts (p / s.conf.pageSize) → p < s.writeOffset → s'.memory p = 0) ∧
          (¬ (Removed s refcounts (p / s.conf.pageSize) ∧ p < s.writeOffset) →
            s'.memory p = s.memory p)

theorem Inv.unlink (h : Inv s) (refcounts : List Refcount) :
    AllOrNothing s refcounts ∧ Inv (s.unlink refcounts).2 := by
  rcases decrementTxn_spec refcounts s.refcounter with
    ⟨huntracked, e, herror⟩ | ⟨htrack, stripes, dbi', hok, hdbi'⟩
  · have hrun : s.unlink refcounts = (.error e, s) := by
      unfold DataStore.unlink
      rw [herror]
    rw [hrun]
    exact ⟨.inl ⟨huntracked, e, hrun⟩, h⟩
  · have hfreed := decrementTxn_tracked hok
    obtain ⟨s', hrun, hsame, hmemo, _⟩ := unlink_ok h.filesOk h.word hok h.tracked
    have hremoved : ∀ t, t ∈ stripes ↔ Removed s refcounts t := by
      intro t
      rw [(hfreed t).2, Removed, ← hdbi']
    have hbytes : ∀ p, s'.memory p =
        if p / s.conf.pageSize ∈ stripes ∧ p < s.writeOffset then 0 else s.memory p := hmemo
    constructor
    · refine .inr ⟨htrack, _, s', hrun, hsame.refcounter.trans hdbi', hsame.conf,
        hsame.writeOffset, fun p => ⟨fun hp hlt => ?_, fun hp => ?_⟩⟩
      · rw [hbytes p, if_pos ⟨(hremoved _).mpr hp, hlt⟩]
      · rw [hbytes p, if_neg fun hin => hp ⟨(hremoved _).mp hin.1, hin.2⟩]
    · rw [hrun]
      refine ⟨hsame.filesOk, ?_, ?_⟩
      · rw [hsame.writeOffset]
        exact h.word
      · intro t ht
        rw [hsame.refcounter] at ht
        have hold := (hfreed t).1 ht
        obtain ⟨hpage, hext, hbelow⟩ := h.tracked t hold
        have hrelease : DataStore.Releasable { s with refcounter := dbi' } t :=
          ⟨hpage, hext, hbelow⟩
        exact hrelease.congr hsame

theorem Inv.step {s s' : DataStore} {action : Action} (h : Inv s) (hfits : Fits s action)
    (hnext : next s action = some s') : Inv s' := by
  cases action with
  | allocate size alignment =>
    cases hnext
    exact h.allocate hfits
  | write a buffers refcounts =>
    simp only [next] at hnext
    split at hnext
    case isTrue hguard =>
      cases hnext
      exact h.write hguard.1 hguard.2 hfits
    case isFalse => cases hnext
  | link refcounts =>
    cases hnext
    exact h.link refcounts
  | unlink refcounts =>
    cases hnext
    exact (h.unlink refcounts).2

/-- In every run whose allocations stay in the address space, an unlink is all
or nothing. -/
theorem unlink_all_or_nothing (conf : DataStoreConfig) {s : DataStore}
    (h : Reachable next Fits (.fresh conf) s) (refcounts : List Refcount) :
    AllOrNothing s refcounts := by
  have hinv : Inv s := by
    apply Reachable.invariant (inv_fresh conf) _ h
    intro s a s' hs hok hnext
    exact hs.step hok hnext
  exact (hinv.unlink refcounts).1

/-- A run with a page that has two counts, taken off by two entries of one
request. -/
theorem unlink_all_or_nothing_small : ∃ s, Reachable next Fits (.fresh smallConfig) s ∧
      (s.refcounter 0 = some 2 ∧ s.refcounter 1 = some 1) ∧
      AllOrNothing s [⟨0, 1⟩, ⟨1, 1⟩, ⟨0, 1⟩] :=
  exists_sample
    [.allocate 7 4, .write ⟨0, 7⟩ [[1, 2, 3, 4], [5, 6, 7]] [⟨0, 2⟩, ⟨1, 1⟩]]
    (by decide +kernel) fun _ hreach _ => unlink_all_or_nothing smallConfig hreach _

/-- No request is for more than a tebibyte. -/
def Moderate (_ : DataStore) : Action → Prop
  | .allocate size _ => size ≤ 2 ^ 40
  | _ => True

instance (s : DataStore) (action : Action) : Decidable (Moderate s action) := by
  cases action <;> unfold Moderate <;> infer_instance

/-- Behind the capacity an allocation is let through. -/
theorem allocate_behind_capacity {start : Nat} (size : Nat) (hmax : s.conf.maxDataStoreSize = 10)
    (hstart : alignUp s.writeOffset 4 = start) (hbehind : 10 < start) (hsize : 0 < size)
    (hfits : start + size ≤ 2 ^ 64) :
    s.allocate size 4 = (.ok ⟨start, size⟩, { s with writeOffset := wrap 64 (start + size) }) := by
  have hword : wrap 64 (alignUp s.writeOffset 4) = start := by
    rw [hstart]
    exact wrap_of_lt (by omega)
  have halloc := allocateAt_eq_ite s.writeOffset s.conf.maxDataStoreSize_lt hsize
    (show 0 < 4 by decide)
  rw [hword, hmax, if_neg (not_le.mpr hbehind), if_neg (by omega)] at halloc
  unfold allocate
  rw [hmax, halloc]

theorem exists_behind_capacity (k : Nat) (hk : k < 2 ^ 24) :
    ∃ s, Reachable next Moderate (.fresh smallConfig) s ∧
      (s.conf.maxDataStoreSize = 10 ∧ s.conf.pageSize = 4 ∧ s.refcounter 0 = some 1) ∧
      alignUp s.writeOffset 4 = 12 + k * 2 ^ 40 := by
  induction k with
  | zero =>
    obtain ⟨s, hreach, hs, hoff⟩ := exists_reachable_of_runWhile
      (fun s : DataStore => (s.conf.maxDataStoreSize = 10 ∧ s.conf.pageSize = 4 ∧
        s.refcounter 0 = some 1) ∧ alignUp s.writeOffset 4 = 12)
      [.allocate 9 4, .write ⟨0, 9⟩ [[1, 2, 3, 4, 5, 6, 7, 8, 9]] [⟨0, 1⟩, ⟨1, 1⟩, ⟨2, 1⟩]]
      (show (runWhile next Moderate (.fresh smallConfig) _).any _ = true by
        decide +kernel)
    exact ⟨s, hreach, hs, hoff⟩
  | succ k ih =>
    obtain ⟨s, hreach, hs, hoff⟩ := ih (by omega)
    have halloc := allocate_behind_capacity (2 ^ 40) hs.1 hoff (by omega) (by omega) (by omega)
    have hnext : next s (.allocate (2 ^ 40) 4) =
        some { s with writeOffset := wrap 64 (12 + k * 2 ^ 40 + 2 ^ 40) } := by
      rw [next, halloc]
    refine ⟨_, hreach.step (le_refl _) hnext, hs, ?_⟩
    have hword : wrap 64 (12 + k * 2 ^ 40 + 2 ^ 40) = 12 + k * 2 ^ 40 + 2 ^ 40 :=
      wrap_of_lt (by omega)
    simp only [hword, alignUp]
    rw [if_neg (by omega)]
    omega

/-- The allocations behind the capacity go around the address space. The write
offset is then zero, and an unlink of the page that was written throws behind
the commit: the page has no entry any more and is not freed. -/
theorem unlink_throws_after_commit : ∃ s, Reachable next Moderate (.fresh smallConfig) s ∧
      ¬ MeetsUntracked s.refcounter [⟨0, 1⟩] ∧
      ∃ s', s.unlink [⟨0, 1⟩] =
          (.error (.outOfRange "pointer for delete operation is out of range"), s') ∧
        s.refcounter 0 = some 1 ∧ s'.refcounter 0 = none := by
  obtain ⟨s, hreach, ⟨hmax, hpage, hcount⟩, hoffset⟩ := exists_behind_capacity (2 ^ 24 - 1) (by omega)
  have hallocate := allocate_behind_capacity (2 ^ 40 - 12) hmax hoffset (by omega) (by omega)
    (by omega)
  have hzero : wrap 64 (12 + (2 ^ 24 - 1) * 2 ^ 40 + (2 ^ 40 - 12)) = 0 := by decide
  rw [hzero] at hallocate
  have hnext : next s (.allocate (2 ^ 40 - 12) 4) = some { s with writeOffset := 0 } := by
    rw [next, hallocate]
  have hreach' := hreach.step (Nat.sub_le (2 ^ 40) 12) hnext
  have htracked : ¬ MeetsUntracked s.refcounter [⟨0, 1⟩] := by
    rintro ⟨front, rc, back, heq, huntracked⟩
    cases front with
    | nil =>
      obtain ⟨rfl, rfl⟩ := cons.inj heq
      rw [Untracked, hcount] at huntracked
      exact absurd huntracked.1 (by simp)
    | cons first front =>
      have hnil := (cons.inj heq).2
      exact absurd hnil.symm (append_ne_nil_of_right_ne_nil _ (cons_ne_nil _ _))
  refine ⟨_, hreach', htracked, { s with
    writeOffset := 0, refcounter := update s.refcounter 0 none }, ?_, hcount, ?_⟩
  · have htxn : decrementTxn [⟨0, 1⟩] s.refcounter =
        .ok ([0], update s.refcounter 0 none) := by
      simp [decrementTxn, decrementStripe, hcount, Bind.bind, Except.bind, pure, Except.pure]
    simp only [unlink, htxn, DataStore.freeStripes, freeRanges, freeRangeList,
      zero_mul, internalDelete]
    rfl
  · simp

end Unlinks

end UhCore.Storage
