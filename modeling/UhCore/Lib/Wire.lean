import Mathlib.Tactic

/-!
Bytes on a wire: numbers in little-endian order, and the part of a stream that
a read of a given size takes.
-/

namespace Wire

open List

/-- The lowest `w` bytes of a number, the lowest one first. -/
def le : Nat → Nat → List UInt8
  | 0, _ => []
  | w + 1, n => UInt8.ofNat (n % 256) :: le w (n / 256)

def ofLe : List UInt8 → Nat
  | [] => 0
  | b :: rest => b.toNat + 256 * ofLe rest

@[simp] theorem length_le (w n : Nat) : (le w n).length = w := by
  induction w generalizing n with
  | zero => rfl
  | succ w ih => rw [le, length_cons, ih]

theorem ofLe_le {w n : Nat} (h : n < 256 ^ w) : ofLe (le w n) = n := by
  induction w generalizing n with
  | zero => exact (Nat.lt_one_iff.mp h).symm
  | succ w ih =>
    have hdiv : n / 256 < 256 ^ w := Nat.div_lt_of_lt_mul (by rwa [pow_succ, mul_comm] at h)
    have hlow : (UInt8.ofNat (n % 256)).toNat = n % 256 := by
      simp
    rw [le, ofLe, ih hdiv, hlow, Nat.mod_add_div]

theorem ofLe_lt (bytes : List UInt8) : ofLe bytes < 256 ^ bytes.length := by
  induction bytes with
  | nil => simp [ofLe]
  | cons b rest ih =>
    have hb : b.toNat < 256 := b.toNat_lt
    rw [ofLe, length_cons, pow_succ]
    omega

theorem le_ofLe (bytes : List UInt8) : le bytes.length (ofLe bytes) = bytes := by
  induction bytes with
  | nil => rfl
  | cons b rest ih =>
    have hb : b.toNat < 256 := b.toNat_lt
    have hmod : (b.toNat + 256 * ofLe rest) % 256 = b.toNat := by omega
    have hdiv : (b.toNat + 256 * ofLe rest) / 256 = ofLe rest := by omega
    rw [ofLe, length_cons, le, hmod, hdiv, ih, UInt8.ofNat_toNat]

variable {α : Type*}

/-- The first `n` elements of a stream and the rest, once they are there. -/
def splitFirst (n : Nat) (input : List α) : Option (List α × List α) :=
  if n ≤ input.length then some (input.take n, input.drop n) else none

theorem splitFirst_append (front rest : List α) :
    splitFirst front.length (front ++ rest) = some (front, rest) := by
  simp [splitFirst]

/-- A table of `n` entries of the same width. -/
def table (width : Nat) (read : List UInt8 → α) : Nat → List UInt8 → List α
  | 0, _ => []
  | n + 1, bytes => read (bytes.take width) :: table width read n (bytes.drop width)

theorem table_append {width : Nat} {read : List UInt8 → α} {write : α → List UInt8} {entries : List α}
    (hwidth : ∀ a, (write a).length = width) (hread : ∀ a ∈ entries, read (write a) = a)
    (rest : List UInt8) :
    table width read entries.length (entries.flatMap write ++ rest) = entries := by
  induction entries with
  | nil => rfl
  | cons a entries ih =>
    obtain ⟨ha, hents⟩ := forall_mem_cons.mp hread
    rw [length_cons, flatMap_cons, append_assoc, table, ← hwidth a,
      take_left, drop_left, hwidth a, ha, ih hents]

end Wire
