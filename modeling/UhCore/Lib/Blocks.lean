import Mathlib.Tactic

/-!
Address arithmetic for memory that is cut into blocks of one size: rounding an
address up to a block border, and the longest step from an address that stays
inside its block. A loop over a range that advances by such steps visits every
block of the range once.
-/

namespace Blocks

/-- Round `n` up to a multiple of `m`. -/
def alignUp (n m : Nat) : Nat :=
  if n % m ≠ 0 then n + (m - n % m) else n

theorem le_alignUp (n m : Nat) : n ≤ alignUp n m := by
  unfold alignUp
  split <;> omega

variable {m n c r p i : Nat}

theorem alignUp_lt (n : Nat) (hm : 0 < m) : alignUp n m < n + m := by
  unfold alignUp
  have hmod := Nat.mod_lt n hm
  split <;> omega

theorem alignUp_mod (n : Nat) (hm : 0 < m) : alignUp n m % m = 0 := by
  unfold alignUp
  split
  · have hlt := Nat.mod_lt n hm
    have hdecomp := Nat.mod_add_div n m
    have hsum : n + (m - n % m) = m * (n / m + 1) := by
      rw [mul_add, mul_one]
      omega
    rw [hsum, Nat.mul_mod_right]
  · omega

/-- `alignUp n m` is the least multiple of `m` that is not below `n`. -/
theorem alignUp_le_of_mod_eq_zero {q : Nat} (hm : 0 < m) (hle : n ≤ q) (hq : q % m = 0) :
    alignUp n m ≤ q := by
  have hlt := alignUp_lt n hm
  have hmod := alignUp_mod n hm
  obtain ⟨a, ha⟩ := Nat.dvd_of_mod_eq_zero hmod
  obtain ⟨b, hb⟩ := Nat.dvd_of_mod_eq_zero hq
  rw [ha] at hlt ⊢
  rw [hb] at hle ⊢
  apply Nat.mul_le_mul_left
  have hmul : m * a < m * (b + 1) := by
    rw [mul_add, mul_one]
    omega
  have := Nat.lt_of_mul_lt_mul_left hmul
  omega

theorem alignUp_mono {k : Nat} (m : Nat) (hm : 0 < m) (hle : n ≤ k) : alignUp n m ≤ alignUp k m :=
  alignUp_le_of_mod_eq_zero hm (hle.trans (le_alignUp k m)) (alignUp_mod k hm)

/-- A block that starts below `n` ends at `alignUp n m` or before. -/
theorem succ_mul_le_alignUp {t : Nat} (hm : 0 < m) (hlt : t * m < n) :
    (t + 1) * m ≤ alignUp n m := by
  obtain ⟨a, ha⟩ := Nat.dvd_of_mod_eq_zero (alignUp_mod n hm)
  have hle := le_alignUp n m
  rw [ha] at hle ⊢
  rw [mul_comm m a] at hle ⊢
  apply Nat.mul_le_mul_right
  exact Nat.lt_of_mul_lt_mul_right (lt_of_lt_of_le hlt hle)

theorem mul_add_div_of_lt (t : Nat) (hr : r < c) : (t * c + r) / c = t := by
  rw [add_comm, Nat.add_mul_div_right _ _ (by omega), Nat.div_eq_of_lt hr, zero_add]

theorem mul_add_mod_of_lt (t : Nat) (hr : r < c) : (t * c + r) % c = r := by
  rw [add_comm, Nat.add_mul_mod_self_right, Nat.mod_eq_of_lt hr]

/-- The number of bytes from `p` that a block of size `c` still holds, bounded
by the number `n` that is wanted. -/
def blockStep (c p n : Nat) : Nat := min (c - p % c) n

theorem blockStep_le (c p n : Nat) : blockStep c p n ≤ n := min_le_right _ _

theorem blockStep_pos (p : Nat) (hc : 0 < c) (hn : 0 < n) : 0 < blockStep c p n := by
  have hmod := Nat.mod_lt p hc
  unfold blockStep
  omega

theorem mod_add_blockStep_le (p n : Nat) (hc : 0 < c) : p % c + blockStep c p n ≤ c := by
  have hmod := Nat.mod_lt p hc
  unfold blockStep
  omega

theorem div_eq_of_lt_blockStep (hc : 0 < c) (hi : i < blockStep c p n) : (p + i) / c = p / c := by
  have hroom := mod_add_blockStep_le p n hc
  have hdecomp := Nat.mod_add_div p c
  have hsum : p + i = (p % c + i) + c * (p / c) := by omega
  rw [hsum, Nat.add_mul_div_left _ _ hc, Nat.div_eq_of_lt (by omega), zero_add]

theorem mod_eq_of_lt_blockStep (hc : 0 < c) (hi : i < blockStep c p n) :
    (p + i) % c = p % c + i := by
  have hroom := mod_add_blockStep_le p n hc
  have hdecomp := Nat.mod_add_div p c
  have hsum : p + i = (p % c + i) + c * (p / c) := by omega
  rw [hsum, Nat.add_mul_mod_self_left, Nat.mod_eq_of_lt (by omega)]

/-- A step that is shorter than the wanted range ends on a block border. -/
theorem blockStep_ends_block (hc : 0 < c) (hlt : blockStep c p n < n) :
    (p + blockStep c p n) % c = 0 := by
  have hmod := Nat.mod_lt p hc
  have hdecomp := Nat.mod_add_div p c
  have hstep : blockStep c p n = c - p % c := by
    unfold blockStep at hlt ⊢
    omega
  have hsum : p + blockStep c p n = c * (p / c + 1) := by
    rw [hstep, mul_add, mul_one]
    omega
  rw [hsum, Nat.mul_mod_right]

end Blocks
