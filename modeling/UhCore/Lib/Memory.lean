import UhCore.Lib.Bytes

/-!
Memories that are written once: a cell holds a value or was never written. A
load of a range succeeds when all its cells were written, and stays what it is
in every memory that extends the first.
-/

namespace Memory

open Bytes List

variable {β : Type*}

/-- The values of the `n` cells from `p` on, if all were written. -/
def load (m : Nat → Option β) : Nat → Nat → Option (List β)
  | _, 0 => some []
  | p, n + 1 =>
    match m p, load m (p + 1) n with
    | some b, some rest => some (b :: rest)
    | _, _ => none

/-- Write `data` from `p` on. -/
def store (m : Nat → Option β) (p : Nat) (data : List β) : Nat → Option β :=
  splice m p (data.map some)

/-- Everything written in `m` is unchanged in `m'`. -/
def Extends (m m' : Nat → Option β) : Prop := ∀ p b, m p = some b → m' p = some b

variable {m : Nat → Option β} {p n : Nat} {data : List β}

/-- The cells from `p` on hold `data`. -/
theorem load_eq_some_iff : load m p n = some data ↔
      data.length = n ∧ ∀ i b, data[i]? = some b → m (p + i) = some b := by
  induction n generalizing p data with
  | zero =>
    simp only [load, Option.some.injEq]
    constructor
    · rintro rfl
      simp
    · rintro ⟨hlen, -⟩
      exact (length_eq_zero_iff.mp hlen).symm
  | succ n ih =>
    constructor
    · intro h
      unfold load at h
      split at h
      · rename_i b rest hb hrest
        obtain ⟨hlen, hcells⟩ := ih.mp hrest
        cases h
        refine ⟨by simp [hlen], ?_⟩
        intro i c hc
        cases i with
        | zero =>
          simp only [getElem?_cons_zero, Option.some.injEq] at hc
          rw [add_zero, hb, hc]
        | succ i =>
          rw [getElem?_cons_succ] at hc
          have hcell := hcells i c hc
          rwa [add_right_comm] at hcell
      · cases h
    · rintro ⟨hlen, hcells⟩
      cases data with
      | nil => cases hlen
      | cons b rest =>
        have hb := hcells 0 b rfl
        have hrest : load m (p + 1) n = some rest := by
          apply ih.mpr
          refine ⟨by simpa using hlen, ?_⟩
          intro i c hc
          have hcell := hcells (i + 1) c (by simpa using hc)
          rwa [add_right_comm]
        rw [add_zero] at hb
        simp only [load, hb, hrest]

theorem length_of_load (h : load m p n = some data) : data.length = n := (load_eq_some_iff.mp h).1

theorem load_mono {m m' : Nat → Option β} (hext : Extends m m') (h : load m p n = some data) :
    load m' p n = some data := by
  obtain ⟨hlen, hcells⟩ := load_eq_some_iff.mp h
  apply load_eq_some_iff.mpr
  refine ⟨hlen, ?_⟩
  intro i b hb
  exact hext _ _ (hcells i b hb)

/-- A part of a loaded range loads as the part of its values. -/
theorem load_sub (off k : Nat) (h : load m p n = some data) (hle : off + k ≤ n) :
    load m (p + off) k = some ((data.drop off).take k) := by
  obtain ⟨hlen, hcells⟩ := load_eq_some_iff.mp h
  apply load_eq_some_iff.mpr
  constructor
  · rw [length_take, length_drop]
    omega
  · intro i b hb
    have hi : i < k := by
      have hlt := (List.getElem?_eq_some_iff.mp hb).1
      rw [length_take] at hlt
      omega
    rw [getElem?_take_of_lt hi, getElem?_drop] at hb
    rw [add_assoc]
    exact hcells _ b hb

theorem load_store (m : Nat → Option β) (p : Nat) (data : List β) :
    load (store m p data) p data.length = some data := by
  apply load_eq_some_iff.mpr
  refine ⟨rfl, ?_⟩
  intro i b hb
  exact splice_at (by simp [hb])

/-- Writing to cells that were never written extends the memory. -/
theorem extends_store {p : Nat} (hfresh : ∀ i, i < data.length → m (p + i) = none) :
    Extends m (store m p data) := by
  intro q b hq
  by_cases hlow : q < p
  · rw [store, splice_of_lt hlow, hq]
  · by_cases hhigh : q < p + data.length
    · have hnone := hfresh (q - p) (by omega)
      rw [show p + (q - p) = q by omega, hq] at hnone
      cases hnone
    · rw [store, splice_of_ge (by simpa using hhigh), hq]

end Memory
