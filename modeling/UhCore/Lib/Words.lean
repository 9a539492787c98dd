import Mathlib.Tactic

/-!
Unsigned machine words as natural numbers. A `w`-bit variable keeps its value
modulo `2 ^ w`; below zero a subtraction counts down from `2 ^ w`. The rules
say when a computation stays inside the word and so agrees with the one on
natural numbers.
-/

namespace Words

/-- The value an unsigned `w`-bit variable keeps of `n`. -/
def wrap (w n : Nat) : Nat := n % 2 ^ w

/-- Unsigned subtraction of `w`-bit values. -/
def wsub (w a b : Nat) : Nat := wrap w (a + (2 ^ w - b))

theorem wrap_lt (w n : Nat) : wrap w n < 2 ^ w := Nat.mod_lt n (Nat.two_pow_pos w)

variable {w n a b : Nat}

theorem wrap_of_lt (h : n < 2 ^ w) : wrap w n = n := Nat.mod_eq_of_lt h

theorem wrap_le (w n : Nat) : wrap w n ≤ n := Nat.mod_le n (2 ^ w)

theorem wrap_wrap_add (w a b : Nat) : wrap w (wrap w a + b) = wrap w (a + b) := by
  simp [wrap]

theorem wrap_mul_wrap (w a b : Nat) : wrap w (a * wrap w b) = wrap w (a * b) := by
  simp [wrap, Nat.mul_mod]

theorem wrap_add_mul (w a q : Nat) : wrap w (a + 2 ^ w * q) = wrap w a := by
  simp [wrap]

/-- A value that leaves the word loses at least one full period. -/
theorem wrap_add_period_le (h : 2 ^ w ≤ n) : wrap w n + 2 ^ w ≤ n := by
  have hdecomp := Nat.mod_add_div n (2 ^ w)
  have hquot : 1 ≤ n / 2 ^ w := (Nat.one_le_div_iff (Nat.two_pow_pos w)).mpr h
  have hmul : 2 ^ w * 1 ≤ 2 ^ w * (n / 2 ^ w) := Nat.mul_le_mul_left _ hquot
  unfold wrap
  omega

theorem wsub_of_le (hle : b ≤ a) (hb : b ≤ 2 ^ w) (hlt : a - b < 2 ^ w) : wsub w a b = a - b := by
  have hsplit : a + (2 ^ w - b) = (a - b) + 2 ^ w := by omega
  unfold wsub wrap
  rw [hsplit, Nat.add_mod_right, Nat.mod_eq_of_lt hlt]

theorem wsub_wrap_add (w a n : Nat) : wsub w (wrap w (a + n)) (wrap w a) = wrap w n := by
  have hlt := wrap_lt w a
  have hdecomp : wrap w a + 2 ^ w * (a / 2 ^ w) = a := Nat.mod_add_div a (2 ^ w)
  have hsplit : a + n + (2 ^ w - wrap w a) = n + 2 ^ w * (a / 2 ^ w + 1) := by
    rw [mul_add]
    omega
  rw [wsub, wrap_wrap_add, hsplit, wrap_add_mul]

theorem wsub_le (hle : b ≤ a) (hb : b ≤ 2 ^ w) : wsub w a b ≤ a - b := by
  have hsplit : a + (2 ^ w - b) = (a - b) + 2 ^ w := by omega
  rw [wsub, wrap, hsplit, Nat.add_mod_right]
  exact Nat.mod_le _ _

end Words
