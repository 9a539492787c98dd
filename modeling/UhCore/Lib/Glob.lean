import Mathlib.Tactic

/-!
Glob patterns over an alphabet: tokens that take any text, any one character or a
given one. The language of a pattern determines its tokens that take one character.
-/

namespace Glob

open List

variable {α : Type*}

inductive Token (α : Type*) where
  | any
  | one
  | lit (c : α)
  deriving DecidableEq

/-- A text can be split among the tokens. -/
inductive Matches : List (Token α) → List α → Prop
  | nil : Matches [] []
  | any (taken : List α) {rest : List (Token α)} {text : List α} :
      Matches rest text → Matches (.any :: rest) (taken ++ text)
  | one (c : α) {rest : List (Token α)} {text : List α} :
      Matches rest text → Matches (.one :: rest) (c :: text)
  | lit (c : α) {rest : List (Token α)} {text : List α} :
      Matches rest text → Matches (.lit c :: rest) (c :: text)

variable {ts us : List (Token α)} {text : List α}

theorem matches_nil_iff : Matches [] text ↔ text = [] := by
  constructor
  · intro h
    cases h
    rfl
  · rintro rfl
    exact .nil

/-- A token for any text takes nothing or the first character and more. -/
theorem matches_any_iff : Matches (.any :: ts) text ↔
    Matches ts text ∨ text ≠ [] ∧ Matches (.any :: ts) text.tail := by
  constructor
  · intro h
    cases h with
    | any taken h =>
      cases taken with
      | nil => exact .inl h
      | cons c taken => exact .inr ⟨by simp, .any taken h⟩
  · rintro (h | ⟨hne, h⟩)
    · exact .any [] h
    · obtain ⟨c, rest, rfl⟩ := exists_cons_of_ne_nil hne
      rw [tail_cons] at h
      generalize hall : Token.any :: ts = all at h
      cases h with
      | any taken h =>
        cases hall
        exact .any (c :: taken) h
      | _ => cases hall

theorem matches_one_iff : Matches (.one :: ts) text ↔ text ≠ [] ∧ Matches ts text.tail := by
  constructor
  · intro h
    cases h with
    | one c h => exact ⟨by simp, h⟩
  · rintro ⟨hne, h⟩
    rw [← cons_head_tail hne]
    exact .one _ h

theorem matches_lit_iff {c : α} :
    Matches (.lit c :: ts) text ↔ text.head? = some c ∧ Matches ts text.tail := by
  constructor
  · intro h
    cases h with
    | lit _ h => exact ⟨rfl, h⟩
  · rintro ⟨hhead, h⟩
    rw [← cons_head?_tail hhead]
    exact .lit c h

/-- What a token takes that takes one character: the character, if it is given. -/
def Token.single : Token α → Option (Option α)
  | .any => none
  | .one => some none
  | .lit c => some (some c)

def singles (ts : List (Token α)) : List (Option α) := ts.filterMap Token.single

theorem singles_any (ts : List (Token α)) : singles (.any :: ts) = singles ts := rfl

/-- A character that a token takes. -/
def Takes (o : Option α) (c : α) : Prop := o = none ∨ o = some c

/-- The shortest texts of a language. -/
theorem matches_fill (d : α) (ts : List (Token α)) : Matches ts ((singles ts).map (·.getD d)) := by
  induction ts with
  | nil => exact .nil
  | cons t ts ih =>
    cases t with
    | any => exact .any [] ih
    | one => exact .one d ih
    | lit c => exact .lit c ih

theorem Matches.length_le (h : Matches ts text) : (singles ts).length ≤ text.length := by
  induction h with
  | nil => exact le_refl 0
  | any taken _ ih =>
    rw [length_append]
    exact Nat.le_add_left_of_le ih
  | one _ _ ih | lit _ _ ih => exact Nat.succ_le_succ ih

theorem Matches.takes (h : Matches ts text) (hlen : text.length ≤ (singles ts).length) :
    List.Forall₂ Takes (singles ts) text := by
  induction h with
  | nil => exact .nil
  | any taken h ih =>
    have hle := h.length_le
    rw [length_append, singles_any] at hlen
    have htaken : taken = [] := eq_nil_of_length_eq_zero (by omega)
    rw [htaken, singles_any]
    exact ih (by omega)
  | one c _ ih => exact .cons (.inl rfl) (ih (Nat.le_of_succ_le_succ hlen))
  | lit c _ ih => exact .cons (.inr rfl) (ih (Nat.le_of_succ_le_succ hlen))

theorem eq_of_takes_fill [Nontrivial α] {xs ys : List (Option α)}
    (hx : ∀ d, List.Forall₂ Takes xs (ys.map (·.getD d)))
    (hy : ∀ d, List.Forall₂ Takes ys (xs.map (·.getD d))) : xs = ys := by
  induction xs generalizing ys with
  | nil =>
    obtain ⟨d⟩ := (inferInstance : Nonempty α)
    have hnil := hx d
    generalize hm : ys.map (·.getD d) = zs at hnil
    cases hnil
    exact (map_eq_nil_iff.mp hm).symm
  | cons x xs ih =>
    cases ys with
    | nil =>
      obtain ⟨d⟩ := (inferInstance : Nonempty α)
      exact absurd (hx d) (by simp)
    | cons y ys =>
      simp only [map_cons, forall₂_cons] at hx hy
      have htail := ih (fun d => (hx d).2) (fun d => (hy d).2)
      have hhead : x = y := by
        cases x with
        | none =>
          cases y with
          | none => rfl
          | some c =>
            obtain ⟨d, hd⟩ := exists_ne c
            exact absurd (hy d).1 (by simp [Takes, hd.symm])
        | some b =>
          cases y with
          | none =>
            obtain ⟨d, hd⟩ := exists_ne b
            exact absurd (hx d).1 (by simp [Takes, hd.symm])
          | some c => simpa [Takes] using (hx b).1
      rw [hhead, htail]

/-- Patterns of one language have the same tokens for one character. -/
theorem singles_eq [Nontrivial α] (h : ∀ text, Matches ts text ↔ Matches us text) :
    singles ts = singles us := by
  have hts : ∀ d, Matches us ((singles ts).map (·.getD d)) := fun d =>
    (h _).mp (matches_fill d ts)
  have hus : ∀ d, Matches ts ((singles us).map (·.getD d)) := fun d =>
    (h _).mpr (matches_fill d us)
  have hle : ∀ {xs ys : List (Token α)}, (∀ d, Matches ys ((singles xs).map (·.getD d))) →
      (singles ys).length ≤ (singles xs).length := by
    intro xs ys hm
    obtain ⟨d⟩ := (inferInstance : Nonempty α)
    simpa using (hm d).length_le
  apply eq_of_takes_fill
  · intro d
    exact (hus d).takes (by simpa using hle hts)
  · intro d
    exact (hts d).takes (by simpa using hle hus)

end Glob
