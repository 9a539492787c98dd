import Mathlib.Data.List.Lex
import Mathlib.Tactic

/-!
Lists that differ within their common length. Of two such lists one is smaller
at the first place where they differ; the others are those of which one is an
initial part of the other.
-/

namespace Diverging

open List

variable {α : Type*} [LinearOrder α]

/-- The lists differ, and the left one is smaller where they first do. -/
def Diverges : List α → List α → Prop
  | a :: as, b :: bs => a < b ∨ a = b ∧ Diverges as bs
  | _, _ => False

theorem diverges_cons {a b : α} {as bs : List α} :
    Diverges (a :: as) (b :: bs) ↔ a < b ∨ a = b ∧ Diverges as bs := Iff.rfl

theorem not_diverges_nil_left (v : List α) : ¬ Diverges [] v := by
  intro h
  cases v <;> exact h

theorem not_diverges_nil_right (u : List α) : ¬ Diverges u [] := by
  intro h
  cases u <;> exact h

theorem not_diverges_self (u : List α) : ¬ Diverges u u := by
  induction u with
  | nil => exact not_diverges_nil_left []
  | cons a as ih =>
    rintro (hlt | ⟨_, h⟩)
    · exact lt_irrefl a hlt
    · exact ih h

theorem Diverges.trans {u v w : List α} (huv : Diverges u v) (hvw : Diverges v w) :
    Diverges u w := by
  induction u generalizing v w with
  | nil => exact absurd huv (not_diverges_nil_left v)
  | cons a as ih =>
    cases v with
    | nil => exact absurd huv (not_diverges_nil_right _)
    | cons b bs =>
      cases w with
      | nil => exact absurd hvw (not_diverges_nil_right _)
      | cons c cs =>
        rcases huv with hab | ⟨rfl, has⟩
        · rcases hvw with hbc | ⟨rfl, _⟩
          · exact .inl (hab.trans hbc)
          · exact .inl hab
        · rcases hvw with hbc | ⟨rfl, hbs⟩
          · exact .inl hbc
          · exact .inr ⟨rfl, ih has hbs⟩

/-- Lists neither of which is smaller agree on their common length. -/
theorem not_diverges_iff {u v : List α} : ¬ Diverges u v ∧ ¬ Diverges v u ↔ u <+: v ∨ v <+: u := by
  induction u generalizing v with
  | nil =>
    exact iff_of_true ⟨not_diverges_nil_left v, not_diverges_nil_right v⟩ (.inl nil_prefix)
  | cons a as ih =>
    cases v with
    | nil =>
      exact iff_of_true ⟨not_diverges_nil_right _, not_diverges_nil_left _⟩ (.inr nil_prefix)
    | cons b bs =>
      rw [diverges_cons, diverges_cons, cons_prefix_cons, cons_prefix_cons]
      rcases lt_trichotomy a b with hlt | rfl | hlt
      · simp [hlt, hlt.ne, hlt.ne']
      · simpa using ih
      · simp [hlt, hlt.ne, hlt.ne']

/-- The order of lists that are cut to their common length. -/
theorem take_min_lt_iff {u v : List α} :
    u.take (min u.length v.length) < v.take (min u.length v.length) ↔ Diverges u v := by
  induction u generalizing v with
  | nil => simp [not_diverges_nil_left]
  | cons a as ih =>
    cases v with
    | nil => simp [not_diverges_nil_right]
    | cons b bs =>
      rw [length_cons, length_cons, Nat.succ_min_succ, take_succ_cons,
        take_succ_cons, cons_lt_cons_iff, ih, diverges_cons]

end Diverging
