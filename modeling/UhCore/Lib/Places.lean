import Mathlib.Tactic

/-!
Tokens that are at one place each. A protocol that hands tokens over keeps a
map from tokens to places; a list of tokens is held at a place when they are
pairwise different and all there, and moving a list of tokens leaves alone
what is held elsewhere.
-/

namespace Places

variable {τ π : Type*} [DecidableEq τ] {place place' : τ → π} {here target : π}
  {tokens : List τ} {t : τ}

def Held (place : τ → π) (here : π) (tokens : List τ) : Prop :=
  tokens.Nodup ∧ ∀ t ∈ tokens, place t = here

omit [DecidableEq τ] in
theorem Held.nil : Held place here [] := ⟨List.nodup_nil, by simp⟩

omit [DecidableEq τ] in
theorem Held.mono (h : Held place here tokens) (hkeep : ∀ t, place t = here → place' t = here) :
    Held place' here tokens :=
  ⟨h.1, fun t ht => hkeep t (h.2 t ht)⟩

def moved (place : τ → π) (tokens : List τ) (target : π) (t : τ) : π :=
  if t ∈ tokens then target else place t

theorem moved_of_mem (ht : t ∈ tokens) : moved place tokens target t = target := if_pos ht

theorem moved_of_not_mem (ht : t ∉ tokens) : moved place tokens target t = place t := if_neg ht

theorem held_moved (h : tokens.Nodup) : Held (moved place tokens target) target tokens :=
  ⟨h, fun _ ht => moved_of_mem ht⟩

theorem moved_elsewhere (htokens : ∀ t ∈ tokens, place t ≠ here) :
    ∀ t, place t = here → moved place tokens target t = here := by
  intro t ht
  rw [moved_of_not_mem fun hmem => htokens t hmem ht, ht]

theorem moved_kept {source : π} (htokens : ∀ t ∈ tokens, place t = source) (hhere : here ≠ source) :
    ∀ t, place t = here → moved place tokens target t = here :=
  moved_elsewhere fun t ht hplace => hhere (hplace.symm.trans (htokens t ht))

end Places
