import UhCore.Types
import Mathlib.Data.List.SplitBy

/-!
The reference counter of a storage: an LMDB table from stripe ids to counts.
`increment` and `decrement` each run in one transaction; a decrement of an
untracked stripe aborts it. Stripes whose count is used up leave the table and
are handed on in coalesced ranges.
-/

namespace UhCore.Storage

open Words List Function Except

/-- The count kept for each tracked stripe. -/
abbrev RefTable := Nat → Option Nat

def incrementStripe (stripeId count : Nat) (upstream : Bool) (dbi : RefTable) : Bool × RefTable :=
  let current := (dbi stripeId).getD 0
  let encounteredUntracked := (dbi stripeId).isNone
  if upstream && encounteredUntracked then (true, dbi)
  else (false, update dbi stripeId (some (wrap 64 (current + count))))

/-- Increment all counts; returns the entries whose stripe was untracked. -/
def increment : List Refcount → Bool → RefTable → List Refcount × RefTable
  | [], _, dbi => ([], dbi)
  | rc :: rest, upstream, dbi =>
    let (rejected, dbi') := incrementStripe rc.stripeId rc.count upstream dbi
    let (rv, dbi'') := increment rest upstream dbi'
    (if rejected then rc :: rv else rv, dbi'')

def decrementStripe (stripeId count : Nat) (dbi : RefTable) : Except Exn (Bool × RefTable) :=
  match dbi stripeId with
  | none => .error (.runtimeError
      ("decreasing refcount of un-tracked page " ++ toString stripeId))
  | some current =>
    if current ≤ count then .ok (true, update dbi stripeId none)
    else .ok (false, update dbi stripeId (some (current - count)))

/-- The transaction of `decrement`: the stripes to free and the new table. -/
def decrementTxn : List Refcount → RefTable → Except Exn (List Nat × RefTable)
  | [], dbi => .ok ([], dbi)
  | rc :: rest, dbi => do
    let (free, dbi') ← decrementStripe rc.stripeId rc.count dbi
    let (stripes, dbi'') ← decrementTxn rest dbi'
    pure (if free then rc.stripeId :: stripes else stripes, dbi'')

def getRefcounts (stripeIds : List Nat) (dbi : RefTable) : List Refcount :=
  stripeIds.map (fun id => ⟨id, (dbi id).getD 0⟩)

/-- The ranges `free_stripes` frees one by one: neighbouring entries of the
list are joined while each is the successor of the one before. -/
def freeRanges (rangeStart rangeEnd : Nat) : List Nat → List (Nat × Nat)
  | [] => [(rangeStart, rangeEnd)]
  | stripe :: rest =>
    if stripe = wrap 64 (rangeEnd + 1) then freeRanges rangeStart stripe rest
    else (rangeStart, rangeEnd) :: freeRanges stripe stripe rest

/-- What the counts drop to: a stripe of the request whose count does not exceed
the sum of its entries is removed. -/
def remaining (dbi : RefTable) (rcs : List Refcount) (t : Nat) : Option Nat :=
  match dbi t with
  | none => none
  | some current =>
    if t ∈ rcs.map Refcount.stripeId ∧ current ≤ countOf rcs t then none
    else some (current - countOf rcs t)

theorem countOf_eq_zero {rcs : List Refcount} {t : Nat} (h : t ∉ rcs.map Refcount.stripeId) :
    countOf rcs t = 0 := by
  induction rcs with
  | nil => rfl
  | cons rc rest ih =>
    obtain ⟨hne, hrest⟩ := not_or.mp (mt mem_cons.mpr h)
    rw [countOf_cons, if_neg (Ne.symm hne), ih hrest]

variable {rcs : List Refcount} {dbi dbi' : RefTable} {stripes : List Nat}
  {t count rangeStart rangeEnd : Nat}

theorem increment_eq (rcs : List Refcount) (upstream : Bool) (dbi : RefTable) (t : Nat) :
    (increment rcs upstream dbi).2 t =
      if t ∈ rcs.map Refcount.stripeId ∧ (upstream → (dbi t).isSome) then
        some (wrap 64 ((dbi t).getD 0 + countOf rcs t))
      else dbi t := by
  induction rcs generalizing dbi with
  | nil => simp [increment]
  | cons rc rest ih =>
    simp only [increment, ih, countOf_cons, map_cons, mem_cons]
    by_cases ht : t = rc.stripeId
    · subst ht
      by_cases hin : upstream = true ∧ dbi rc.stripeId = none
      · simp [incrementStripe, hin]
      · have hone : (incrementStripe rc.stripeId rc.count upstream dbi).2 rc.stripeId =
            some (wrap 64 ((dbi rc.stripeId).getD 0 + rc.count)) := by
          simp [incrementStripe, hin]
        have hok : upstream = true → (dbi rc.stripeId).isSome = true := by
          simpa [Option.isSome_iff_ne_none] using hin
        simp only [hone, true_or, true_and, if_true]
        rw [if_pos hok]
        by_cases hrest : rc.stripeId ∈ rest.map Refcount.stripeId
        · rw [if_pos ⟨hrest, fun _ => rfl⟩, Option.getD_some, wrap_wrap_add, add_assoc]
        · rw [if_neg fun h => hrest h.1, countOf_eq_zero hrest, add_zero]
    · have hone : (incrementStripe rc.stripeId rc.count upstream dbi).2 t = dbi t := by
        simp only [incrementStripe]
        split
        · rfl
        · exact update_of_ne ht _ _
      simp only [hone, ht, Ne.symm ht, false_or, if_false, zero_add]

/-- Which stripes are tracked after an increment: with `upstream` the same as
before, without it also every stripe of the request. -/
theorem increment_isSome (rcs : List Refcount) (upstream : Bool)
    (dbi : RefTable) (t : Nat) :
    ((increment rcs upstream dbi).2 t).isSome =
      ((dbi t).isSome || (!upstream && decide (t ∈ rcs.map Refcount.stripeId))) := by
  rw [increment_eq]
  split <;> cases upstream <;> cases hd : dbi t <;> simp_all

/-- An increment rejects the untracked stripes where it goes upstream. -/
theorem increment_rejected (rcs : List Refcount) (upstream : Bool) (dbi : RefTable) :
    (increment rcs upstream dbi).1 =
      rcs.filter fun rc => upstream && (dbi rc.stripeId).isNone := by
  induction rcs generalizing dbi with
  | nil => rfl
  | cons rc rest ih =>
    have hsame : ∀ t, (upstream && ((incrementStripe rc.stripeId rc.count upstream dbi).2 t).isNone) =
        (upstream && (dbi t).isNone) := by
      intro t
      by_cases ht : t = rc.stripeId
      · cases upstream <;> cases hd : dbi rc.stripeId <;> simp [incrementStripe, ht, hd]
      · cases upstream <;> cases hd : dbi rc.stripeId <;> simp [incrementStripe, update_of_ne ht, hd]
    have hhead : (incrementStripe rc.stripeId rc.count upstream dbi).1 =
        (upstream && (dbi rc.stripeId).isNone) := by
      unfold incrementStripe
      cases upstream <;> cases dbi rc.stripeId <;> rfl
    simp only [increment, ih, hsame, hhead, filter_cons]

theorem increment_lt {upstream : Bool} {dbi : RefTable}
    (h : ∀ t count, dbi t = some count → count < 2 ^ 64)
    (hcount : (increment rcs upstream dbi).2 t = some count) : count < 2 ^ 64 := by
  rw [increment_eq] at hcount
  split at hcount
  · exact Option.some.inj hcount ▸ wrap_lt 64 _
  · exact h t count hcount

/-- An aborted decrement is the only way `decrementStripe` fails, and a
successful one drops the stripe exactly when its count is used up. -/
theorem decrementStripe_ok {stripeId : Nat} {free : Bool}
    (h : decrementStripe stripeId count dbi = .ok (free, dbi')) :
    ∃ current, dbi stripeId = some current ∧
      free = decide (current ≤ count) ∧
      dbi' = update dbi stripeId
        (if current ≤ count then none else some (current - count)) := by
  unfold decrementStripe at h
  cases hcur : dbi stripeId with
  | none => simp [hcur] at h
  | some current =>
    refine ⟨current, rfl, ?_⟩
    simp only [hcur] at h
    by_cases hle : current ≤ count
    · simp only [hle, if_true, ok.injEq, Prod.mk.injEq] at h
      simp [hle, ← h.1, ← h.2]
    · simp only [hle, if_false, ok.injEq, Prod.mk.injEq] at h
      simp [hle, ← h.1, ← h.2]

theorem decrementTxn_cons_ok {rc : Refcount} {rest : List Refcount}
    (h : decrementTxn (rc :: rest) dbi = .ok (stripes, dbi')) :
    ∃ free mid tail, decrementStripe rc.stripeId rc.count dbi = .ok (free, mid) ∧
      decrementTxn rest mid = .ok (tail, dbi') ∧
      stripes = if free then rc.stripeId :: tail else tail := by
  simp only [decrementTxn] at h
  cases hone : decrementStripe rc.stripeId rc.count dbi with
  | error e => simp [hone, Bind.bind, Except.bind] at h
  | ok one =>
    obtain ⟨free, mid⟩ := one
    cases htail : decrementTxn rest mid with
    | error e => simp [hone, htail, Bind.bind, Except.bind] at h
    | ok two =>
      obtain ⟨tail, last⟩ := two
      simp only [hone, htail, Bind.bind, Except.bind, pure, Except.pure,
        Except.ok.injEq, Prod.mk.injEq] at h
      exact ⟨free, mid, tail, rfl, h.2 ▸ htail, h.1.symm⟩

theorem remaining_cons {mid : RefTable} {rc : Refcount} {current : Nat}
    (hcur : dbi rc.stripeId = some current)
    (hmid : mid = update dbi rc.stripeId
      (if current ≤ rc.count then none else some (current - rc.count)))
    (rest : List Refcount) : remaining mid rest = remaining dbi (rc :: rest) := by
  funext t
  unfold remaining
  simp only [countOf_cons, map_cons, mem_cons, hmid]
  by_cases ht : t = rc.stripeId
  · subst ht
    rw [update_self, hcur]
    by_cases hle : current ≤ rc.count
    · have hsum : current ≤ rc.count + countOf rest rc.stripeId := by omega
      simp only [hle, if_true, true_or, true_and, hsum]
    · rw [if_neg hle]
      simp only [if_true, Nat.sub_sub]
      by_cases hmem : rc.stripeId ∈ rest.map Refcount.stripeId
      · have hiff : current - rc.count ≤ countOf rest rc.stripeId ↔
            current ≤ rc.count + countOf rest rc.stripeId := by omega
        simp only [hmem, true_and, or_true, hiff]
      · rw [countOf_eq_zero hmem]
        simp only [hmem, false_and, if_false, true_or, true_and, add_zero, hle]
  · rw [update_of_ne ht]
    simp only [ht, false_or, Ne.symm ht, if_false, zero_add]

/-- What a committed decrement leaves, and the stripes that it frees. -/
theorem decrementTxn_ok (h : decrementTxn rcs dbi = .ok (stripes, dbi')) :
    dbi' = remaining dbi rcs ∧ stripes.Nodup ∧
      ∀ t, t ∈ stripes ↔ (dbi t).isSome ∧ remaining dbi rcs t = none := by
  induction rcs generalizing dbi stripes with
  | nil =>
    simp only [decrementTxn, ok.injEq, Prod.mk.injEq] at h
    obtain ⟨rfl, rfl⟩ := h
    have hsame : remaining dbi [] = dbi := by
      funext t
      unfold remaining
      cases dbi t <;> simp [countOf]
    rw [hsame]
    refine ⟨rfl, nodup_nil, fun t => ?_⟩
    cases dbi t <;> simp
  | cons rc rest ih =>
    obtain ⟨free, mid, tail, hone, htail, hstrs⟩ := decrementTxn_cons_ok h
    obtain ⟨current, hcur, hfree, hmid⟩ := decrementStripe_ok hone
    obtain ⟨hdbi', hnodup, hmem⟩ := ih htail
    rw [remaining_cons hcur hmid] at hdbi' hmem
    refine ⟨hdbi', ?_⟩
    rw [hstrs, hfree]
    by_cases hle : current ≤ rc.count
    · have hgone : mid rc.stripeId = none := by simp [hmid, hle]
      have hnone : remaining dbi (rc :: rest) rc.stripeId = none := by
        rw [← remaining_cons hcur hmid, remaining, hgone]
      simp only [hle, decide_true, if_true, nodup_cons, mem_cons, hmem]
      refine ⟨⟨by simp [hgone], hnodup⟩, fun t => ?_⟩
      by_cases ht : t = rc.stripeId
      · simp [ht, hcur, hnone]
      · simp [ht, hmid]
    · simp only [hle, decide_false, Bool.false_eq_true, if_false]
      refine ⟨hnodup, fun t => (hmem t).trans ?_⟩
      by_cases ht : t = rc.stripeId
      · simp [ht, hcur, hmid, hle]
      · simp [ht, hmid]

/-- A committed decrement never starts to track a stripe, and frees exactly
the stripes it stops to track. -/
theorem decrementTxn_tracked (h : decrementTxn rcs dbi = .ok (stripes, dbi')) (t : Nat) :
    ((dbi' t).isSome → (dbi t).isSome) ∧ (t ∈ stripes ↔ (dbi t).isSome ∧ dbi' t = none) := by
  obtain ⟨rfl, _, hmem⟩ := decrementTxn_ok h
  refine ⟨?_, hmem t⟩
  unfold remaining
  cases dbi t <;> simp

theorem decrementTxn_le (h : decrementTxn rcs dbi = .ok (stripes, dbi'))
    (hcount : dbi' t = some count) : ∃ before, dbi t = some before ∧ count ≤ before := by
  obtain ⟨rfl, _, _⟩ := decrementTxn_ok h
  unfold remaining at hcount
  split at hcount
  · cases hcount
  · split at hcount
    · cases hcount
    · exact ⟨_, by assumption, Option.some.inj hcount ▸ Nat.sub_le _ _⟩

/-- An unlink frees each stripe once, and only stripes whose count is used up
by the whole request. -/
theorem decrementTxn_freed (h : decrementTxn rcs dbi = .ok (stripes, dbi')) :
    stripes.Nodup ∧ ∀ t ∈ stripes, t ∈ rcs.map Refcount.stripeId ∧
      ∃ current, dbi t = some current ∧ current ≤ countOf rcs t := by
  obtain ⟨_, hnodup, hmem⟩ := decrementTxn_ok h
  refine ⟨hnodup, fun t ht => ?_⟩
  obtain ⟨hsome, hnone⟩ := (hmem t).mp ht
  obtain ⟨current, hcur⟩ := Option.isSome_iff_exists.mp hsome
  rw [remaining, hcur] at hnone
  dsimp only at hnone
  split at hnone
  · rename_i hused
    exact ⟨hused.1, current, hcur, hused.2⟩
  · cases hnone

/-- Whether the loop of `free_stripes` joins a stripe to the one before it. -/
def follows (rangeEnd stripe : Nat) : Bool := stripe == wrap 64 (rangeEnd + 1)

def runEnds (run : List Nat) : Nat × Nat := (run.headD 0, run.getLastD 0)

/-- Successive stripes, up to the word size. -/
def wrapped (first n : Nat) : List Nat := (range' first n).map (wrap 64)

@[simp] theorem length_wrapped (first n : Nat) : (wrapped first n).length = n := by simp [wrapped]

theorem runEnds_wrapped (first n : Nat) :
    runEnds (wrapped first (n + 1)) = (wrap 64 first, wrap 64 (first + n)) := by
  have hlast : (wrapped first (n + 1)).getLastD 0 = wrap 64 (first + n) := by
    simp [wrapped, range'_concat]
  rw [runEnds, hlast]
  rfl

theorem wrapped_eq {first n : Nat} (h : first + n ≤ 2 ^ 64) : wrapped first n = range' first n := by
  conv_rhs => rw [← map_id (range' first n)]
  apply map_congr_left
  intro t ht
  rw [mem_range'_1] at ht
  exact wrap_of_lt (by omega)

theorem mem_wrapped {first n t : Nat} (hlow : first ≤ t) (hhigh : t < first + n) (ht : t < 2 ^ 64) :
    t ∈ wrapped first n :=
  mem_map.mpr ⟨t, mem_range'_1.mpr ⟨hlow, hhigh⟩, wrap_of_lt ht⟩

theorem freeRanges_loop (run : List Nat) (runs : List (List Nat)) :
    (splitBy.loop follows stripes rangeEnd run runs).map runEnds =
      runs.reverse.map runEnds ++ freeRanges (run.getLastD rangeEnd) rangeEnd stripes := by
  induction stripes generalizing rangeEnd run runs with
  | nil => cases run <;> simp [splitBy.loop, freeRanges, runEnds, getLast?_cons]
  | cons stripe rest ih =>
    unfold splitBy.loop freeRanges
    by_cases hnext : stripe = wrap 64 (rangeEnd + 1)
    · simp only [follows, hnext, beq_self_eq_true, if_true, ih]
      cases run <;> simp [getLast?_cons]
    · have hend : follows rangeEnd stripe = false := by simpa [follows] using hnext
      simp only [hend, hnext, if_false, ih]
      cases run <;> simp [runEnds, getLast?_cons]

/-- The ranges of the loop are the runs of successive stripes in the list. -/
theorem freeRanges_eq (stripe : Nat) (rest : List Nat) :
    freeRanges stripe stripe rest = ((stripe :: rest).splitBy follows).map runEnds :=
  (freeRanges_loop [] []).symm

theorem run_eq_wrapped {run : List Nat} (hchain : run.IsChain fun a b => follows a b) (first : Nat)
    (hfirst : run.head? = some (wrap 64 first)) : run = wrapped first run.length := by
  induction run generalizing first with
  | nil => rfl
  | cons t rest ih =>
    obtain rfl := Option.some.inj hfirst
    cases rest with
    | nil => rfl
    | cons u rest =>
      obtain ⟨hu, hrest⟩ := isChain_cons_cons.mp hchain
      rw [follows, wrap_wrap_add, beq_iff_eq] at hu
      exact congrArg (wrap 64 first :: ·) (ih hrest (first + 1) (congrArg some hu))

/-- A run of the list that starts with `first` and has `n` more stripes. -/
structure RunAt (stripes : List Nat) (first n : Nat) : Prop where
  lt : first < 2 ^ 64
  run : wrapped first (n + 1) ∈ stripes.splitBy follows

theorem RunAt.mem {first n : Nat} (h : RunAt stripes first n) (ht : t ∈ wrapped first (n + 1)) :
    t ∈ stripes := by
  rw [← flatten_splitBy follows stripes]
  exact mem_flatten_of_mem h.run ht

theorem exists_runAt (hlt : ∀ t ∈ stripes, t < 2 ^ 64) {run : List Nat}
    (hrun : run ∈ stripes.splitBy follows) :
    ∃ first n, RunAt stripes first n ∧ run = wrapped first (n + 1) := by
  obtain ⟨first, tail, rfl⟩ := exists_cons_of_ne_nil (ne_nil_of_mem_splitBy hrun)
  have hfirst : first < 2 ^ 64 := by
    apply hlt
    rw [← flatten_splitBy follows stripes]
    exact mem_flatten_of_mem hrun mem_cons_self
  have hwrapped := run_eq_wrapped (isChain_of_mem_splitBy hrun) first
    (by rw [wrap_of_lt hfirst, head?_cons])
  exact ⟨first, tail.length, ⟨hfirst, hwrapped ▸ hrun⟩, hwrapped⟩

end UhCore.Storage
