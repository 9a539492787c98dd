import Mathlib.Tactic
import Mathlib.Data.List.Lex

/-!
Decimal numbers written with leading zeroes. Up to the field width the
lexicographic order of the texts is the order of the numbers.
-/

namespace Decimals

open List

/-- A number as an output stream with field width `k` and fill character zero
writes it. -/
def zeroPadded (k n : Nat) : List Char := (Nat.toDigits 10 n).leftpad k '0'

/-- The last `k` digits of a number. -/
def lastDigits : Nat → Nat → List Char
  | 0, _ => []
  | k + 1, n => lastDigits k (n / 10) ++ [(n % 10).digitChar]

theorem length_lastDigits (k n : Nat) : (lastDigits k n).length = k := by
  induction k generalizing n with
  | zero => rfl
  | succ k ih => simp [lastDigits, ih]

theorem lastDigits_zero (k : Nat) : lastDigits k 0 = replicate k '0' := by
  induction k with
  | zero => rfl
  | succ k ih =>
    rw [lastDigits, Nat.zero_div, ih, replicate_succ']
    rfl

/-- A number that fits in the field is written with all its digits. -/
theorem zeroPadded_eq {k n : Nat} (hk : 0 < k) (h : n < 10 ^ k) :
    zeroPadded k n = lastDigits k n := by
  induction k generalizing n with
  | zero => omega
  | succ k ih =>
    by_cases hsmall : n < 10
    · rw [zeroPadded, Nat.toDigits_of_lt_base hsmall, lastDigits, Nat.div_eq_of_lt hsmall,
        lastDigits_zero, Nat.mod_eq_of_lt hsmall]
      simp [leftpad]
    · have hdiv : n / 10 < 10 ^ k := by
        rw [Nat.div_lt_iff_lt_mul (by decide), ← Nat.pow_succ]
        exact h
      have hpos : 0 < k := by
        rcases Nat.eq_zero_or_pos k with rfl | hpos
        · simp at hdiv
          omega
        · exact hpos
      rw [lastDigits, ← ih hpos hdiv, zeroPadded, zeroPadded,
        Nat.toDigits_of_base_le (by decide) (by omega)]
      simp [leftpad]

theorem digitChar_lt {a b : Nat} (hb : b < 10) (h : a < b) : a.digitChar < b.digitChar := by
  interval_cases b <;> interval_cases a <;> decide

theorem append_lt_append {l l' : List Char} (h : l < l') (hlen : l.length = l'.length)
    (m m' : List Char) : l ++ m < l' ++ m' := by
  induction l generalizing l' with
  | nil =>
    cases l' with
    | nil => exact absurd h (List.lt_irrefl _)
    | cons c l' => simp at hlen
  | cons c l ih =>
    cases l' with
    | nil => simp at hlen
    | cons c' l' =>
      rw [cons_append, cons_append, cons_lt_cons_iff]
      rcases cons_lt_cons_iff.mp h with hlt | ⟨heq, hlt⟩
      · exact Or.inl hlt
      · exact Or.inr ⟨heq, ih hlt (Nat.succ.inj hlen)⟩

theorem lastDigits_lt {k a b : Nat} (hb : b < 10 ^ k) (h : a < b) :
    lastDigits k a < lastDigits k b := by
  induction k generalizing a b with
  | zero => simp at hb; omega
  | succ k ih =>
    have hdiv : b / 10 < 10 ^ k := by
      rw [Nat.div_lt_iff_lt_mul (by decide), ← Nat.pow_succ]
      exact hb
    simp only [lastDigits]
    rcases Nat.lt_or_eq_of_le (Nat.div_le_div_right (c := 10) (le_of_lt h)) with hlt | heq
    · exact append_lt_append (ih hdiv hlt) (by simp [length_lastDigits]) _ _
    · rw [heq]
      apply append_left_lt
      rw [cons_lt_cons_iff]
      exact Or.inl (digitChar_lt (Nat.mod_lt _ (by decide)) (by omega))

/-- Numbers that fit in the field are ordered as their texts. -/
theorem zeroPadded_lt {k a b : Nat} (hb : b < 10 ^ k) (h : a < b) :
    zeroPadded k a < zeroPadded k b := by
  have hk : 0 < k := by
    rcases Nat.eq_zero_or_pos k with rfl | hk
    · simp at hb
      omega
    · exact hk
  rw [zeroPadded_eq hk (h.trans hb), zeroPadded_eq hk hb]
  exact lastDigits_lt hb h

end Decimals
