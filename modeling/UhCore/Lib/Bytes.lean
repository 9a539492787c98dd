import Mathlib.Tactic

/-!
Memories as functions from addresses to cells. `window` reads a range,
`splice` overwrites one with a list and `fill` with a single value. Each
operation comes with the value it leaves at an address, so that a loop of
them is reasoned about one address at a time.
-/

namespace Bytes

open List List

variable {β : Type*}

/-- The `n` cells from `off` on. -/
def window (f : Nat → β) (off n : Nat) : List β := (range n).map (fun i => f (off + i))

/-- Overwrite the cells from `off` on with `data`. -/
def splice (f : Nat → β) (off : Nat) (data : List β) : Nat → β :=
  fun i => if off ≤ i then (data[i - off]?).getD (f i) else f i

/-- Overwrite `n` cells from `off` on with `b`. -/
def fill (f : Nat → β) (off n : Nat) (b : β) : Nat → β :=
  fun i => if off ≤ i ∧ i < off + n then b else f i

variable (f : Nat → β) {off n i : Nat} {data : List β}

@[simp] theorem length_window (off n : Nat) : (window f off n).length = n := by
  simp [window]

@[simp] theorem window_zero (f : Nat → β) (off : Nat) : window f off 0 = [] := rfl

theorem getElem?_window {f : Nat → β} (hi : i < n) : (window f off n)[i]? = some (f (off + i)) := by
  simp [window, hi]

theorem window_append (off m n : Nat) :
    window f off (m + n) = window f off m ++ window f (off + m) n := by
  simp [window, range_add, add_assoc]

theorem window_congr {f g : Nat → β} {off n : Nat}
    (h : ∀ i, off ≤ i → i < off + n → f i = g i) :
    window f off n = window g off n := by
  apply map_congr_left
  intro i hi
  exact h (off + i) (by omega) (by have := mem_range.mp hi; omega)

/-- A window over cells that hold `data` is the matching part of `data`. -/
theorem window_eq_of_getElem? {f : Nat → β} {off n : Nat} (hlen : data.length = n)
    (h : ∀ i, i < n → data[i]? = some (f (off + i))) : window f off n = data := by
  apply ext_getElem?
  intro i
  by_cases hi : i < n
  · rw [getElem?_window hi, h i hi]
  · have hleft : (window f off n).length ≤ i := by simp; omega
    rw [getElem?_eq_none hleft, getElem?_eq_none (by omega)]

theorem splice_of_lt {f : Nat → β} {off i : Nat} (h : i < off) : splice f off data i = f i := by
  simp [splice, not_le.mpr h]

theorem splice_of_ge {f : Nat → β} {off i : Nat} (h : off + data.length ≤ i) :
    splice f off data i = f i := by
  have hnone : data[i - off]? = none := getElem?_eq_none (by omega)
  simp [splice, hnone]

theorem splice_at {f : Nat → β} {off i : Nat} {b : β} (h : data[i]? = some b) :
    splice f off data (off + i) = b := by
  simp [splice, h]

@[simp] theorem splice_nil (off : Nat) : splice f off [] = f := by
  funext i
  simp [splice]

theorem take_window (off : Nat) {n k : Nat} (hk : k ≤ n) :
    (window f off n).take k = window f off k := by
  have happ := window_append f off k (n - k)
  rw [Nat.add_sub_cancel' hk] at happ
  rw [happ, take_left' (length_window _ _ _)]

/-- A window that goes on over what was written behind it. -/
theorem window_splice_end (off n : Nat) (data : List β) :
    window (splice f (off + n) data) off (n + data.length) = window f off n ++ data := by
  rw [window_append]
  congr 1
  · apply window_congr
    intro i _ hi
    exact splice_of_lt hi
  · apply window_eq_of_getElem? rfl
    intro i hi
    rw [getElem?_eq_getElem hi]
    exact congrArg some (splice_at (getElem?_eq_getElem hi)).symm

/-- Writing two lists one behind the other is writing their concatenation. -/
theorem splice_append (off : Nat) (xs ys : List β) :
    splice (splice f off xs) (off + xs.length) ys = splice f off (xs ++ ys) := by
  funext i
  by_cases hlow : i < off
  · rw [splice_of_lt (by omega), splice_of_lt hlow, splice_of_lt hlow]
  · by_cases hmid : i < off + xs.length
    · rw [splice_of_lt hmid]
      simp [splice, getElem?_append_left (by omega : i - off < xs.length)]
    · have hle : off ≤ i := by omega
      have hle' : off + xs.length ≤ i := by omega
      have hnone : xs[i - off]? = none := getElem?_eq_none (by omega)
      have hright : (xs ++ ys)[i - off]? = ys[i - off - xs.length]? :=
        getElem?_append_right (by omega)
      have hindex : i - (off + xs.length) = i - off - xs.length := by omega
      simp [splice, hle, hle', hnone, hright, hindex]

theorem fill_in {f : Nat → β} {b : β} (hlo : off ≤ i) (hhi : i < off + n) :
    fill f off n b i = b := by
  simp [fill, hlo, hhi]

theorem fill_out {f : Nat → β} {b : β} (h : i < off ∨ off + n ≤ i) : fill f off n b i = f i := by
  have hnot : ¬ (off ≤ i ∧ i < off + n) := by omega
  simp [fill, hnot]

theorem fill_eq_splice (off n : Nat) (b : β) :
    fill f off n b = splice f off (replicate n b) := by
  funext i
  by_cases hlow : off ≤ i
  · by_cases hhigh : i < off + n
    · have hlt : i - off < n := by omega
      rw [fill_in hlow hhigh]
      simp [splice, hlow, hlt]
    · rw [fill_out (by omega), splice_of_ge (by simp; omega)]
  · rw [fill_out (by omega), splice_of_lt (by omega)]

/-- Filling two neighbouring ranges is filling their union. -/
theorem fill_append (off m n : Nat) (b : β) :
    fill (fill f off m b) (off + m) n b = fill f off (m + n) b := by
  have h := splice_append f off (replicate m b) (replicate n b)
  rw [length_replicate, replicate_append_replicate] at h
  simpa only [fill_eq_splice] using h

theorem length_flatMap_blocks {f : Nat → List β} {n c : Nat}
    (hlen : ∀ i, i < n → (f i).length = c) : ((range n).flatMap f).length = n * c := by
  induction n with
  | zero => simp
  | succ n ih =>
    rw [range_succ, flatMap_append, length_append,
      ih (fun i hi => hlen i (by omega)), add_mul, one_mul]
    simp [hlen n (by omega)]

/-- An element of blocks of one size, one behind the other. -/
theorem getElem?_flatMap_blocks {f : Nat → List β} {n c x : Nat}
    (hlen : ∀ i, i < n → (f i).length = c) (hx : x < n * c) :
    ((range n).flatMap f)[x]? = (f (x / c))[x % c]? := by
  induction n with
  | zero => omega
  | succ n ih =>
    have hrest : ∀ i, i < n → (f i).length = c := by
      intro i hi
      exact hlen i (by omega)
    have hfront := length_flatMap_blocks hrest
    rw [range_succ, flatMap_append]
    by_cases hlt : x < n * c
    · rw [getElem?_append_left (by omega), ih hrest hlt]
    · have hc : 0 < c := by
        rcases Nat.eq_zero_or_pos c with rfl | hpos
        · omega
        · exact hpos
      rw [add_mul, one_mul] at hx
      have hsum : x = (x - n * c) + c * n := by
        rw [mul_comm c n]
        omega
      have hdiv : x / c = n := by
        rw [hsum, Nat.add_mul_div_left _ _ hc, Nat.div_eq_of_lt (by omega), zero_add]
      have hmod : x % c = x - n * c := by
        rw [hsum, Nat.add_mul_mod_self_left, Nat.mod_eq_of_lt (by omega)]
        omega
      rw [getElem?_append_right (by omega), hfront, hdiv, hmod]
      simp

theorem window_splice_blocks {f : Nat → β} {b : Nat → List β} {off n c j : Nat}
    (hlen : ∀ i, i < n → (b i).length = c) (hj : j < n) :
    window (splice f off ((range n).flatMap b)) (off + j * c) c = b j := by
  apply window_eq_of_getElem? (hlen j hj)
  intro i hi
  have hx : j * c + i < n * c := by
    have hmul : (j + 1) * c ≤ n * c := Nat.mul_le_mul_right c hj
    rw [add_mul, one_mul] at hmul
    omega
  have hc : 0 < c := by omega
  have hdiv : (j * c + i) / c = j := by
    rw [add_comm, Nat.add_mul_div_right _ _ hc, Nat.div_eq_of_lt hi, zero_add]
  have hmod : (j * c + i) % c = i := by
    rw [add_comm, Nat.add_mul_mod_self_right, Nat.mod_eq_of_lt hi]
  have hget := getElem?_flatMap_blocks hlen hx
  have hlt : i < (b j).length := by rw [hlen j hj]; exact hi
  rw [hdiv, hmod, getElem?_eq_getElem hlt] at hget
  rw [add_assoc, splice_at hget, getElem?_eq_getElem hlt]

end Bytes
