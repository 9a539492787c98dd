import UhCore.Lib.Transition

/-!
The pool that hands out the connections of a client. A resource is in the list
of free ones, with the promise of one waiter or in one handle, and it only goes
from one of these places to another.
-/

namespace UhCore.Network

open Transition Multiset

/-- A promise leaves the queue when its value is set, so it is set once. A handle
is empty when it was moved from or released. Apart from the pool with its futures
and handles: the resources that were made and not replaced, the number of waiters
that queued, and those of them whose promise got a value. -/
structure Pool (ρ : Type) where
  resources : List ρ
  promises : List Nat
  registered : Finset Nat
  values : Multiset (Nat × ρ)
  handles : Multiset (Option ρ)
  made : Finset ρ
  queued : Nat
  served : List Nat

namespace Pool

variable {ρ : Type} [DecidableEq ρ]

def start (resources : List ρ) : Pool ρ := ⟨resources, [], ∅, 0, 0, resources.toFinset, 0, []⟩

def get (w : Pool ρ) : Pool ρ :=
  match w.resources with
  | r :: rest => { w with resources := rest, handles := some r ::ₘ w.handles }
  | [] => { w with promises := w.promises ++ [w.queued], queued := w.queued + 1 }

def putBack (w : Pool ρ) : Option ρ → Pool ρ
  | none => w
  | some r =>
    match w.promises with
    | p :: rest =>
      { w with promises := rest, values := (p, r) ::ₘ w.values, served := w.served ++ [p] }
    | [] => { w with resources := w.resources ++ [r] }

inductive Action (ρ : Type) where
  | get
  | registerHandler (p : Nat)
  | deliver (p : Nat) (r : ρ)
  | move (r : Option ρ)
  | replaceResource (old r : ρ)
  | release (r : Option ρ)

/-- The handler of a future is called when it is registered and the value is set.
The destructor of a handle releases it. -/
def next (w : Pool ρ) : Action ρ → Option (Pool ρ)
  | .get => some w.get
  | .registerHandler p => some { w with registered := insert p w.registered }
  | .deliver p r =>
    if (p, r) ∈ w.values ∧ p ∈ w.registered then
      some { w with values := w.values.erase (p, r), handles := some r ::ₘ w.handles }
    else none
  | .move r => if r ∈ w.handles then some { w with handles := none ::ₘ w.handles } else none
  | .replaceResource old r =>
    if some old ∈ w.handles ∧ r ∉ w.made then
      some { w with
        handles := some r ::ₘ w.handles.erase (some old)
        made := insert r (w.made.erase old) }
    else none
  | .release r =>
    if r ∈ w.handles then some ({ w with handles := none ::ₘ w.handles.erase r }.putBack r)
    else none

/-- The resources at all their places. -/
def held (w : Pool ρ) : Multiset ρ :=
  ↑w.resources + w.values.map Prod.snd + w.handles.filterMap id

structure Inv (n : Nat) (w : Pool ρ) : Prop where
  held : w.held = w.made.val
  card : w.made.card = n
  idle : w.promises ≠ [] → w.resources = []
  order : w.served ++ w.promises = List.range w.queued

variable {w w' : Pool ρ} {n : Nat}

omit [DecidableEq ρ] in
theorem Inv.get (h : Inv n w) : Inv n w.get := by
  unfold Pool.get
  split
  case h_1 r rest hres =>
    refine ⟨?_, h.card, fun hne => absurd (h.idle hne) (by simp [hres]), h.order⟩
    rw [← h.held]
    simp [Pool.held, hres, ← cons_coe]
  case h_2 hres =>
    refine ⟨h.held, h.card, fun _ => hres, ?_⟩
    rw [List.range_succ, ← h.order, List.append_assoc]

omit [DecidableEq ρ] in
/-- What is put back was in `handles`, which have it no more. -/
theorem Inv.putBack (h : Inv n w) {r : Option ρ} {handles : Multiset (Option ρ)}
    (hhandles : w.handles = r ::ₘ handles) :
    Inv n ({ w with handles := none ::ₘ handles }.putBack r) := by
  have hheld := h.held
  unfold Pool.held at hheld
  rw [hhandles] at hheld
  cases r with
  | none => exact ⟨hheld, h.card, h.idle, h.order⟩
  | some r =>
    dsimp only [Pool.putBack]
    split
    case h_1 p rest hcons =>
      refine ⟨?_, h.card, fun _ => h.idle (by simp [hcons]), ?_⟩
      · rw [← hheld]
        simp [Pool.held]
      · rw [← h.order, hcons, List.append_assoc]
        rfl
    case h_2 hnil =>
      refine ⟨?_, h.card, fun hne => absurd hnil hne, h.order⟩
      have hback : (↑(w.resources ++ [r]) : Multiset ρ) = r ::ₘ ↑w.resources :=
        coe_eq_coe.mpr (List.perm_append_singleton r _)
      rw [← hheld]
      simp [Pool.held, hback, -cons_coe]

theorem Inv.next {action : Action ρ} (h : Inv n w) (hnext : w.next action = some w') :
    Inv n w' := by
  have hheld := h.held
  unfold Pool.held at hheld
  cases action with
  | get =>
    cases hnext
    exact h.get
  | registerHandler p =>
    cases hnext
    exact ⟨h.held, h.card, h.idle, h.order⟩
  | deliver p r =>
    obtain ⟨⟨hmem, _⟩, hnext⟩ := Option.ite_none_right_eq_some.mp hnext
    cases hnext
    refine ⟨?_, h.card, h.idle, h.order⟩
    rw [← cons_erase hmem] at hheld
    rw [← hheld]
    simp [Pool.held]
  | move r =>
    obtain ⟨_, hnext⟩ := Option.ite_none_right_eq_some.mp hnext
    cases hnext
    refine ⟨?_, h.card, h.idle, h.order⟩
    rw [← hheld]
    simp [Pool.held]
  | replaceResource old r =>
    obtain ⟨⟨hmem, hr⟩, hnext⟩ := Option.ite_none_right_eq_some.mp hnext
    cases hnext
    rw [← cons_erase hmem, filterMap_cons_some id (some old) _ rfl, add_cons] at hheld
    have hold : old ∈ w.made := Finset.mem_val.mp (hheld ▸ mem_cons_self _ _)
    have hnew : r ∉ w.made.erase old := fun hmem => hr (Finset.mem_of_mem_erase hmem)
    refine ⟨?_, ?_, h.idle, h.order⟩
    · rw [Finset.insert_val_of_notMem hnew, Finset.erase_val, ← hheld, erase_cons_head]
      simp [Pool.held]
    · rw [Finset.card_insert_of_notMem hnew, Finset.card_erase_add_one hold, h.card]
  | release r =>
    obtain ⟨hmem, hnext⟩ := Option.ite_none_right_eq_some.mp hnext
    cases hnext
    exact h.putBack (cons_erase hmem).symm

/-- In every run each resource is at one place, there are as many as at the start,
nobody waits while one is free, and the waiters get theirs in the order in which
they queued. -/
theorem resources_conserved {resources : List ρ} (hnodup : resources.Nodup) {w : Pool ρ}
    (h : Reachable next (fun _ _ => True) (start resources) w) :
    w.held = w.made.val ∧ w.made.card = resources.length ∧
      (w.promises ≠ [] → w.resources = []) ∧ w.served ++ w.promises = List.range w.queued := by
  have hstart : Inv resources.length (start resources) := by
    refine ⟨?_, List.toFinset_card_of_nodup hnodup, nofun, rfl⟩
    simp [start, held, hnodup.dedup]
  have hinv := h.invariant hstart fun _ _ _ hinv _ hnext => hinv.next hnext
  exact ⟨hinv.held, hinv.card, hinv.idle, hinv.order⟩

/-- Two wait for the resource, which is replaced before it goes to the first one. -/
theorem resources_conserved_queue :
    ∃ w, Reachable next (fun _ _ => True) (start [0]) w ∧
      (w.promises = [1] ∧ w.handles = {none, some 5}) ∧ w.held = w.made.val :=
  exists_sample
    [.get, .get, .get, .registerHandler 0, .replaceResource 0 5, .release (some 5), .deliver 0 5]
    (by decide) fun _ hw _ => (resources_conserved (List.nodup_singleton 0) hw).1

end Pool

end UhCore.Network
