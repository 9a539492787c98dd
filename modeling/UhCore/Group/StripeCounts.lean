import UhCore.Group.Link

/-!
The counts of a request, read back stripe by stripe: each stripe is named once,
with the number of its occurrences, and writes add these numbers where unlinks
take them away.
-/

namespace UhCore.Group

open Words Storage List Function Refcount

variable {rcs : List Refcount} {t : Nat} {dbi : RefTable}

theorem pairwise_bump (x : Nat) (h : (rcs.map stripeId).Pairwise (· < ·)) :
    ((bump x rcs).map stripeId).Pairwise (· < ·) := by
  induction rcs with
  | nil => simp [bump]
  | cons rc rest ih =>
    obtain ⟨hhead, htail⟩ := pairwise_cons.mp h
    simp only [bump]
    split
    · rename_i hlt
      refine pairwise_cons.mpr ⟨?_, h⟩
      intro t ht
      rcases mem_cons.mp ht with rfl | ht
      · exact hlt
      · exact lt_trans hlt (hhead t ht)
    · split
      · rename_i heq
        rw [map_cons, heq]
        exact h
      · rename_i hge hne
        refine pairwise_cons.mpr ⟨?_, ih htail⟩
        intro t ht
        rcases mem_bump.mp ht with rfl | ht
        · exact lt_of_le_of_ne (Nat.le_of_not_lt hge) (Ne.symm hne)
        · exact hhead t ht

theorem nodup_countStripes (stripes : List Nat) :
    ((countStripes stripes).map stripeId).Nodup := by
  have hfold : ∀ (l : List Nat) (rcs : List Refcount),
      (rcs.map stripeId).Pairwise (· < ·) →
      ((l.foldl (fun rcs x => bump x rcs) rcs).map stripeId).Pairwise (· < ·) := by
    intro l
    induction l with
    | nil => exact fun _ h => h
    | cons x rest ih => exact fun rcs h => ih _ (pairwise_bump x h)
  exact (hfold stripes [] List.Pairwise.nil).imp ne_of_lt

theorem countOf_bump {x : Nat} (h : countOf rcs t + (if x = t then 1 else 0) < 2 ^ 64) :
    countOf (bump x rcs) t = countOf rcs t + if x = t then 1 else 0 := by
  induction rcs with
  | nil => rw [bump, countOf_cons, add_comm]
  | cons rc rest ih =>
    rw [countOf_cons] at h
    simp only [bump]
    split
    · rw [countOf_cons, add_comm]
    · split
      · rename_i heq
        subst heq
        by_cases ht : rc.stripeId = t
        · simp only [countOf_cons, ht, if_true] at h ⊢
          rw [wrap_of_lt (by omega)]
          omega
        · simp [countOf_cons, ht]
      · rw [countOf_cons, countOf_cons, ih (by omega), add_assoc]

theorem countOf_countStripes {stripes : List Nat} (h : stripes.count t < 2 ^ 64) :
    countOf (countStripes stripes) t = stripes.count t := by
  have hfold : ∀ (l : List Nat) (rcs : List Refcount), countOf rcs t + l.count t < 2 ^ 64 →
      countOf (l.foldl (fun rcs x => bump x rcs) rcs) t = countOf rcs t + l.count t := by
    intro l
    induction l with
    | nil => simp
    | cons x rest ih =>
      intro rcs hlt
      have hone : (x :: rest).count t = (if x = t then 1 else 0) + rest.count t := by
        rw [count_cons, add_comm]
        simp
      rw [hone] at hlt ⊢
      have hbump : countOf (bump x rcs) t = countOf rcs t + if x = t then 1 else 0 :=
        countOf_bump (by omega)
      rw [foldl_cons, ih _ (by omega), hbump, add_assoc]
  rw [countStripes, hfold stripes [] (by simpa [countOf] using h)]
  simp [countOf]

theorem increment_other (rcs : List Refcount) (upstream : Bool) (h : t ∉ rcs.map stripeId) :
    (increment rcs upstream dbi).2 t = dbi t := by
  rw [increment_eq, if_neg fun hin => h hin.1]

/-- A write adds its counts, and starts to track what was untracked. -/
theorem increment_write (rcs : List Refcount) (dbi : RefTable) (t : Nat)
    (hlt : (dbi t).getD 0 + countOf rcs t < 2 ^ 64) (hmem : t ∈ rcs.map stripeId) :
    (increment rcs false dbi).2 t = some ((dbi t).getD 0 + countOf rcs t) := by
  rw [increment_eq, if_pos ⟨hmem, nofun⟩, wrap_of_lt hlt]

theorem increment_write_rejected (rcs : List Refcount) (dbi : RefTable) :
    (increment rcs false dbi).1 = [] := by
  simp [increment_rejected]

theorem decrementTxn_returns (hnodup : (rcs.map stripeId).Nodup)
    (htrack : ∀ t ∈ rcs.map stripeId, (dbi t).isSome) :
    ∃ freed dbi', decrementTxn rcs dbi = .ok (freed, dbi') := by
  induction rcs generalizing dbi with
  | nil => exact ⟨[], dbi, rfl⟩
  | cons rc rest ih =>
    obtain ⟨hnot, hrest⟩ := nodup_cons.mp hnodup
    obtain ⟨current, hcur⟩ := Option.isSome_iff_exists.mp (htrack rc.stripeId (by simp))
    obtain ⟨free, value, hone⟩ : ∃ free value, decrementStripe rc.stripeId rc.count dbi =
        .ok (free, update dbi rc.stripeId value) := by
      unfold decrementStripe
      rw [hcur]
      dsimp only
      split <;> exact ⟨_, _, rfl⟩
    have hstill : ∀ t ∈ rest.map stripeId, (update dbi rc.stripeId value t).isSome := by
      intro t ht
      have hne : t ≠ rc.stripeId := fun h => hnot (h ▸ ht)
      rw [update_of_ne hne]
      exact htrack t (mem_cons_of_mem _ ht)
    obtain ⟨freed, dbi', hrun⟩ := ih hrest hstill
    simp only [decrementTxn, hone, hrun, Bind.bind, Except.bind, pure, Except.pure]
    exact ⟨_, _, rfl⟩

/-- An unlink of tracked stripes takes its counts away; a stripe that keeps
none is no longer tracked. -/
theorem decrementTxn_eq (hnodup : (rcs.map stripeId).Nodup)
    (htrack : ∀ t ∈ rcs.map stripeId, (dbi t).isSome) :
    ∃ freed dbi', decrementTxn rcs dbi = .ok (freed, dbi') ∧ ∀ t,
      dbi' t = if t ∈ rcs.map stripeId then
        (if (dbi t).getD 0 ≤ countOf rcs t then none else some ((dbi t).getD 0 - countOf rcs t))
        else dbi t := by
  obtain ⟨freed, dbi', hrun⟩ := decrementTxn_returns hnodup htrack
  refine ⟨freed, dbi', hrun, fun t => ?_⟩
  rw [(decrementTxn_ok hrun).1, remaining]
  by_cases ht : t ∈ rcs.map stripeId
  · obtain ⟨current, hcur⟩ := Option.isSome_iff_exists.mp (htrack t ht)
    simp [ht, hcur]
  · cases hcur : dbi t <;> simp [ht, countOf_eq_zero ht]

end UhCore.Group
