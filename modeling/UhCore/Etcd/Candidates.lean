import UhCore.Lib.Transition

/-!
Candidates for the leadership of a group. A candidate campaigns by creating the key
of the leader, when it is constructed and when it hears that the key was deleted;
the winner raises its flag, which is never lowered, and stores its id in the key.
-/

namespace UhCore.Etcd.Candidates

open Transition

variable {n : Nat}

inductive Key (n : Nat) where
  | absent
  | staging
  | stored (id : Fin n)
  deriving DecidableEq

inductive Event (n : Nat) where
  | created
  | put (id : Fin n)
  | deleted
  deriving DecidableEq

/-- Where the winner of a campaign is in `proclaim`. -/
inductive Progress where
  | idle
  | won
  | raised
  deriving DecidableEq

structure Candidate (n : Nat) where
  alive : Bool
  isLeader : Bool
  progress : Progress
  events : List (Event n)

def gone : Candidate n := ⟨false, false, .idle, []⟩

structure World (n : Nat) where
  key : Key n
  candidates : Fin n → Candidate n

def init : World n := ⟨.absent, fun _ => gone⟩

inductive Action (n : Nat) where
  | construct (id : Fin n)
  | deliver (id : Fin n)
  | raise (id : Fin n)
  | store (id : Fin n)
  | destroy (id : Fin n)
  | expire

namespace World

variable (w : World n)

def set (id : Fin n) (c : Candidate n) : World n :=
  { w with candidates := Function.update w.candidates id c }

theorem candidates_set_self (id : Fin n) (c : Candidate n) : (w.set id c).candidates id = c :=
  Function.update_self ..

theorem candidates_set_ne {i id : Fin n} (h : i ≠ id) (c : Candidate n) :
    (w.set id c).candidates i = w.candidates i :=
  Function.update_of_ne h ..

/-- The key has another value, and every living candidate will hear of it. -/
def change (key : Key n) (event : Event n) : World n :=
  ⟨key, fun id => let c := w.candidates id
    if c.alive then { c with events := c.events ++ [event] } else c⟩

/-- `create_if_empty`, and the callback for the winner. -/
def campaign (id : Fin n) : World n :=
  if w.key = .absent then
    (w.set id { w.candidates id with progress := .won }).change .staging .created
  else w

/-- The key is deleted, if there is one. -/
def rm : World n := if w.key = .absent then w else w.change .absent .deleted

end World

def next (w : World n) : Action n → Option (World n)
  | .construct id =>
    if (w.candidates id).alive then none
    else some ((w.set id { gone with alive := true }).campaign id)
  | .deliver id =>
    let c := w.candidates id
    match c.events with
    | [] => none
    | event :: rest =>
      let w := w.set id { c with events := rest }
      some (if event = .deleted then w.campaign id else w)
  | .raise id =>
    let c := w.candidates id
    if c.progress = .won then some (w.set id { c with isLeader := true, progress := .raised })
    else none
  | .store id =>
    let c := w.candidates id
    if c.progress = .raised then
      some ((w.set id { c with progress := .idle }).change (.stored id) (.put id))
    else none
  | .destroy id =>
    let c := w.candidates id
    if c.alive then some (if c.isLeader then (w.set id gone).rm else w.set id gone) else none
  | .expire => if w.key = .absent then none else some w.rm

/-- All events were delivered, and every winner has proclaimed. -/
def Quiet (w : World n) : Prop :=
  ∀ id, (w.candidates id).events = [] ∧ (w.candidates id).progress = .idle

/-- At most one candidate takes itself for the leader, and the key has its id. -/
def OneLeader (w : World n) : Prop :=
  (∀ i j, (w.candidates i).isLeader → (w.candidates j).isLeader → i = j) ∧
    ∀ i, (w.candidates i).isLeader → w.key = .stored i

/-- The candidate is the leader or about to become it. -/
def Active (c : Candidate n) : Prop := c.isLeader ∨ c.progress ≠ .idle

/-- The key does not expire while its owner lives. -/
def OwnerGone (w : World n) : Action n → Prop
  | .expire => ∀ id, ¬ Active (w.candidates id)
  | _ => True

instance (c : Candidate n) : Decidable (Active c) := inferInstanceAs (Decidable (_ ∨ _))

instance (w : World n) (a : Action n) : Decidable (OwnerGone w a) := by
  cases a <;> unfold OwnerGone <;> infer_instance

instance (w : World n) : Decidable (Quiet w) := inferInstanceAs (Decidable (∀ _, _))

instance (w : World n) : Decidable (OneLeader w) := inferInstanceAs (Decidable (_ ∧ _))

structure Inv (w : World n) : Prop where
  single : ∀ i j, Active (w.candidates i) → Active (w.candidates j) → i = j
  absent : w.key = .absent → ∀ i, ¬ Active (w.candidates i)
  stored : ∀ i, (w.candidates i).isLeader → (w.candidates i).progress = .idle → w.key = .stored i

section Steps

variable {w w' : World n} {id : Fin n}

/-- A change of the key that its only active candidate stands. -/
theorem Inv.change {key : Key n} {event : Event n}
    (hsingle : ∀ i j, Active (w.candidates i) → Active (w.candidates j) → i = j)
    (habsent : key = .absent → ∀ i, ¬ Active (w.candidates i))
    (hstore : ∀ i, (w.candidates i).isLeader → (w.candidates i).progress = .idle →
      key = .stored i) : Inv (w.change key event) := by
  have hlead : ∀ i, ((w.change key event).candidates i).isLeader = (w.candidates i).isLeader := by
    intro i
    simp only [World.change]
    split <;> rfl
  have hprog : ∀ i, ((w.change key event).candidates i).progress = (w.candidates i).progress := by
    intro i
    simp only [World.change]
    split <;> rfl
  constructor <;> simp only [Active, hlead, hprog] <;> assumption

theorem Inv.rm (hinv : Inv w) (hnone : ∀ i, ¬ Active (w.candidates i)) : Inv w.rm := by
  unfold World.rm
  split
  · exact hinv
  · exact .change hinv.single (fun _ => hnone) (fun i hi => absurd (.inl hi) (hnone i))

theorem Inv.set (hinv : Inv w) {c : Candidate n}
    (h : c.isLeader = (w.candidates id).isLeader ∧ c.progress = (w.candidates id).progress ∨
      ¬ Active c) : Inv (w.set id c) := by
  have hactive : ∀ i, Active ((w.set id c).candidates i) → Active (w.candidates i) ∧
      (((w.set id c).candidates i).isLeader = (w.candidates i).isLeader ∧
        ((w.set id c).candidates i).progress = (w.candidates i).progress) := by
    intro i hi
    by_cases heq : i = id
    · subst heq
      rw [w.candidates_set_self] at hi ⊢
      rcases h with h | h
      · exact ⟨by rwa [Active, ← h.1, ← h.2], h⟩
      · exact absurd hi h
    · rw [w.candidates_set_ne heq] at hi ⊢
      exact ⟨hi, rfl, rfl⟩
  refine ⟨?_, ?_, ?_⟩
  · intro i j hi hj
    exact hinv.single i j (hactive i hi).1 (hactive j hj).1
  · intro hkey i hi
    exact hinv.absent hkey i (hactive i hi).1
  · intro i hi hidle
    obtain ⟨-, hlead, hprog⟩ := hactive i (.inl hi)
    exact hinv.stored i (hlead ▸ hi) (hprog ▸ hidle)

theorem Inv.campaign (hinv : Inv w) : Inv (w.campaign id) := by
  unfold World.campaign
  split
  case isFalse => exact hinv
  case isTrue habsent =>
    have hother : ∀ i, i ≠ id →
        ¬ Active ((w.set id { w.candidates id with progress := .won }).candidates i) := by
      intro i hi
      rw [w.candidates_set_ne hi]
      exact hinv.absent habsent i
    apply Inv.change
    · intro i j hi hj
      rw [not_imp_not.mp (hother i) hi, not_imp_not.mp (hother j) hj]
    · intro h
      cases h
    · intro i hi hidle
      have heq := not_imp_not.mp (hother i) (.inl hi)
      subst heq
      rw [w.candidates_set_self] at hidle
      cases hidle

theorem Inv.active_set (hinv : Inv w) (hid : Active (w.candidates id)) (c : Candidate n) {i : Fin n}
    (hi : Active ((w.set id c).candidates i)) : i = id := by
  by_contra hne
  rw [w.candidates_set_ne hne] at hi
  exact hne (hinv.single i id hi hid)

theorem Inv.next {a : Action n} (hinv : Inv w) (hok : OwnerGone w a)
    (hnext : next w a = some w') : Inv w' := by
  revert hnext
  fun_cases Candidates.next w a <;> intro hnext <;> cases hnext
  case case2 => exact (hinv.set (.inr (by simp [Active, gone]))).campaign
  case case4 id _ event rest hevents _ =>
    have hset : Inv (w.set id { w.candidates id with events := rest }) :=
      hinv.set (.inl ⟨rfl, rfl⟩)
    split
    · exact hset.campaign
    · exact hset
  case case5 id _ hwon =>
    have hid : Active (w.candidates id) := .inr (hwon ▸ nofun)
    refine ⟨?_, ?_, ?_⟩
    · intro i j hi hj
      rw [hinv.active_set hid _ hi, hinv.active_set hid _ hj]
    · intro hkey
      exact absurd hid (hinv.absent hkey id)
    · intro i hi hidle
      obtain rfl := hinv.active_set hid _ (.inl hi)
      rw [w.candidates_set_self] at hidle
      cases hidle
  case case7 id _ hraised =>
    have hid : Active (w.candidates id) := .inr (hraised ▸ nofun)
    apply Inv.change
    · intro i j hi hj
      rw [hinv.active_set hid _ hi, hinv.active_set hid _ hj]
    · intro hkey
      cases hkey
    · intro i hi _
      rw [hinv.active_set hid _ (.inl hi)]
  case case9 id _ _ =>
    have hgone : ¬ Active (gone : Candidate n) := by simp [Active, gone]
    have hset : Inv (w.set id gone) := hinv.set (.inr hgone)
    split
    · rename_i hlead
      apply hset.rm
      intro i hi
      obtain rfl := hinv.active_set (.inl hlead) _ hi
      rw [w.candidates_set_self] at hi
      exact hgone hi
    · exact hset
  case case12 => exact hinv.rm hok

end Steps

/-- There is at most one leader, in every run in which the key does not expire while a
leader or winner lives. -/
theorem one_leader {w : World n} (h : Reachable Candidates.next OwnerGone init w)
    (hquiet : Quiet w) : OneLeader w := by
  have hinit : Inv (init : World n) := by
    refine ⟨?_, ?_, ?_⟩ <;> simp [init, gone, Active]
  have hinv : Inv w := h.invariant hinit fun _ _ _ hinv hok hnext => hinv.next hok hnext
  refine ⟨?_, ?_⟩
  · intro i j hi hj
    exact hinv.single i j (.inl hi) (.inl hj)
  · intro i hi
    exact hinv.stored i hi (hquiet i).2

theorem one_leader_pair :
    ∃ w : World 2, (Reachable Candidates.next OwnerGone init w ∧ Quiet w) ∧ OneLeader w :=
  exists_and_sample
    [.construct 0, .construct 1, .deliver 0, .raise 0, .store 0, .deliver 0, .deliver 1,
      .destroy 0, .deliver 1, .deliver 1, .raise 1, .store 1, .deliver 1] (by decide +kernel)
    fun _ => one_leader

/-- The first leader loses its lease while it lives and keeps its flag. -/
theorem two_leaders :
    ∃ w : World 2, Reachable Candidates.next (fun _ _ => True) init w ∧ Quiet w ∧ ¬ OneLeader w :=
  exists_reachable_of_runWhile _
    [.construct 0, .construct 1, .deliver 0, .raise 0, .store 0, .deliver 0, .deliver 1,
      .expire, .deliver 1, .deliver 0, .deliver 1, .deliver 0, .raise 1, .store 1, .deliver 0,
      .deliver 1] (by decide +kernel)

end UhCore.Etcd.Candidates
