import Mathlib.Tactic
import Mathlib.Data.List.Basic

/-!
A store of keys of which each may be bound to a lease. When a lease ends, all
keys bound to it disappear. Every key has one entry, which a field states.
-/

structure LeasedEntry (ν : Type) where
  value : ν
  lease : Option Nat
  deriving DecidableEq, Repr

structure LeasedStore (κ ν : Type) where
  entries : List (κ × LeasedEntry ν)
  nodup : (entries.map Prod.fst).Nodup

namespace LeasedStore

open List

variable {κ ν : Type}

protected def empty : LeasedStore κ ν := ⟨[], nodup_nil⟩

/-- The entries that meet a condition. -/
def keep (s : LeasedStore κ ν) (p : κ × LeasedEntry ν → Bool) : LeasedStore κ ν where
  entries := s.entries.filter p
  nodup := s.nodup.sublist (filter_sublist.map Prod.fst)

def endLease (s : LeasedStore κ ν) (lease : Nat) : LeasedStore κ ν :=
  s.keep fun e => decide (e.2.lease ≠ some lease)

/-- No key is bound to the lease. -/
def Unbound (s : LeasedStore κ ν) (lease : Nat) : Prop := ∀ e ∈ s.entries, e.2.lease ≠ some lease

instance (s : LeasedStore κ ν) (lease : Nat) : Decidable (s.Unbound lease) :=
  inferInstanceAs (Decidable (∀ e ∈ s.entries, _))

variable {s : LeasedStore κ ν} {entry : LeasedEntry ν} {lease : Nat}

theorem endLease_of_unbound (h : s.Unbound lease) : s.endLease lease = s := by
  obtain ⟨entries, nodup⟩ := s
  unfold endLease keep
  congr 1
  apply filter_eq_self.mpr
  intro e he
  exact decide_eq_true (h e he)

variable [DecidableEq κ] {key : κ}

def lookup (s : LeasedStore κ ν) (key : κ) : Option (LeasedEntry ν) :=
  (s.entries.find? fun e => decide (e.1 = key)).map Prod.snd

def value (s : LeasedStore κ ν) (key : κ) : Option ν := (s.lookup key).map LeasedEntry.value

def delete (s : LeasedStore κ ν) (key : κ) : LeasedStore κ ν := s.keep fun e => decide (e.1 ≠ key)

def put (s : LeasedStore κ ν) (key : κ) (value : ν) (lease : Option Nat) :
    LeasedStore κ ν where
  entries := (s.delete key).entries ++ [(key, ⟨value, lease⟩)]
  nodup := by
    rw [map_append]
    refine List.nodup_append.mpr ⟨(s.delete key).nodup, nodup_singleton _, ?_⟩
    intro a ha b hb heq
    obtain ⟨e, he, rfl⟩ := List.mem_map.mp ha
    have hkey : e.1 = key := heq.trans (mem_singleton.mp hb)
    exact of_decide_eq_true (mem_filter.mp he).2 hkey

theorem lookup_eq_some_iff : s.lookup key = some entry ↔ (key, entry) ∈ s.entries := by
  constructor
  · intro h
    obtain ⟨e, hfind, rfl⟩ := Option.map_eq_some_iff.mp h
    have hkey : e.1 = key := by simpa using find?_some hfind
    rw [← hkey]
    exact mem_of_find?_eq_some hfind
  · intro h
    cases hfind : s.entries.find? fun e => decide (e.1 = key) with
    | none => exact absurd (find?_eq_none.mp hfind _ h) (by simp)
    | some e =>
      have hkey : e.1 = key := by simpa using find?_some hfind
      have heq : e = (key, entry) := inj_on_of_nodup_map s.nodup (mem_of_find?_eq_some hfind) h hkey
      rw [lookup, hfind, heq, Option.map_some]

theorem lookup_keep {p : κ × LeasedEntry ν → Bool} :
    (s.keep p).lookup key = some entry ↔ s.lookup key = some entry ∧ p (key, entry) = true := by
  rw [lookup_eq_some_iff, lookup_eq_some_iff, keep, mem_filter]

theorem lookup_endLease : (s.endLease lease).lookup key = some entry ↔
      s.lookup key = some entry ∧ entry.lease ≠ some lease := by
  rw [endLease, lookup_keep, decide_eq_true_iff]

theorem lookup_put (s : LeasedStore κ ν) (key k : κ) (value : ν) (lease : Option Nat) :
    (s.put key value lease).lookup k = if k = key then some ⟨value, lease⟩ else s.lookup k := by
  ext entry
  rw [lookup_eq_some_iff, put, mem_append, mem_singleton, Prod.mk.injEq,
    ← lookup_eq_some_iff, delete, lookup_keep, decide_eq_true_iff]
  split
  case isTrue heq => simp [heq, eq_comm]
  case isFalse hne => simp [hne]

theorem lookup_delete (s : LeasedStore κ ν) (key k : κ) :
    (s.delete key).lookup k = if k = key then none else s.lookup k := by
  ext entry
  rw [delete, lookup_keep, decide_eq_true_iff]
  split
  case isTrue heq => simp [heq]
  case isFalse hne => simp [hne]

theorem value_put (s : LeasedStore κ ν) (key k : κ) (value : ν) (lease : Option Nat) :
    (s.put key value lease).value k = if k = key then some value else s.value k := by
  rw [LeasedStore.value, lookup_put]
  split <;> rfl

end LeasedStore
