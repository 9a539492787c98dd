import Mathlib.Tactic

/-!
Labelled transition systems given by a partial step function: `next s a` is
the state after action `a`, or `none` where the action is not enabled. A run
may be restricted by a condition `ok` on each state and the action taken in
it; `fun _ _ => True` leaves every run.
-/

namespace Transition

variable {σ α : Type*}

/-- The states of the runs from `init` whose steps all meet `ok`. -/
inductive Reachable (next : σ → α → Option σ) (ok : σ → α → Prop) (init : σ) :
    σ → Prop where
  | start : Reachable next ok init init
  | step {s s' : σ} {a : α} : Reachable next ok init s → ok s a →
      next s a = some s' → Reachable next ok init s'

variable {next : σ → α → Option σ} {ok : σ → α → Prop}

/-- The invariant rule: what holds initially and is kept by every step that
meets the condition holds in every reachable state. -/
theorem Reachable.invariant {init : σ} {Inv : σ → Prop} (hinit : Inv init)
    (hstep : ∀ s a s', Inv s → ok s a → next s a = some s' → Inv s') {s : σ}
    (h : Reachable next ok init s) : Inv s := by
  induction h with
  | start => exact hinit
  | step _ hok hnext ih => exact hstep _ _ _ ih hok hnext

/-- Run a list of actions, as far as each meets the condition in the state it
is taken in. -/
def runWhile (next : σ → α → Option σ) (ok : σ → α → Prop)
    [∀ s a, Decidable (ok s a)] : σ → List α → Option σ
  | s, [] => some s
  | s, a :: rest =>
    if ok s a then (next s a).bind (fun s' => runWhile next ok s' rest) else none

theorem Reachable.of_runWhile [∀ s a, Decidable (ok s a)] {init s s' : σ} {actions : List α}
    (hs : Reachable next ok init s) (hrun : runWhile next ok s actions = some s') :
    Reachable next ok init s' := by
  induction actions generalizing s with
  | nil =>
    simp only [runWhile, Option.some.injEq] at hrun
    exact hrun ▸ hs
  | cons a rest ih =>
    by_cases hok : ok s a
    · simp only [runWhile, hok, if_true] at hrun
      obtain ⟨mid, hmid, hrest⟩ := Option.bind_eq_some_iff.mp hrun
      exact ih (hs.step hok hmid) hrest
    · simp [runWhile, hok] at hrun

/-- A list of actions whose last state has the property `P` reaches such a
state. -/
theorem exists_reachable_of_runWhile [∀ s a, Decidable (ok s a)] {init : σ} (P : σ → Prop)
    [DecidablePred P] (actions : List α)
    (h : (runWhile next ok init actions).any (fun s => decide (P s)) = true) :
    ∃ s, Reachable next ok init s ∧ P s := by
  cases hrun : runWhile next ok init actions with
  | none => simp [hrun] at h
  | some s =>
    rw [hrun] at h
    exact ⟨s, Reachable.start.of_runWhile hrun, of_decide_eq_true h⟩

/-- What holds in all reachable states holds in one with the property `P`. -/
theorem exists_of_forall [∀ s a, Decidable (ok s a)] {init : σ} {R : σ → Prop}
    (hall : ∀ s, Reachable next ok init s → R s) (P : σ → Prop) [DecidablePred P]
    (actions : List α)
    (h : (runWhile next ok init actions).any (fun s => decide (P s)) = true) :
    ∃ s, R s ∧ P s := by
  obtain ⟨s, hs, hP⟩ := exists_reachable_of_runWhile P actions h
  exact ⟨s, hall s hs, hP⟩

section Sample

variable [∀ s a, Decidable (ok s a)] {init : σ} {P Q : σ → Prop} [DecidablePred P]
  (actions : List α) (h : (runWhile next ok init actions).any (fun s => decide (P s)) = true)
  (hQ : ∀ s, Reachable next ok init s → P s → Q s)

include h hQ

/-- A run that meets the hypotheses `P` of a theorem about reachable states,
with the conclusion `Q`. -/
theorem exists_sample : ∃ s, Reachable next ok init s ∧ P s ∧ Q s := by
  obtain ⟨s, hs, hP⟩ := exists_reachable_of_runWhile P actions h
  exact ⟨s, hs, hP, hQ s hs hP⟩

theorem exists_and_sample : ∃ s, (Reachable next ok init s ∧ P s) ∧ Q s := by
  obtain ⟨s, hs, hP, hQ⟩ := exists_sample actions h hQ
  exact ⟨s, ⟨hs, hP⟩, hQ⟩

end Sample

end Transition
