import UhCore.Lib.Words

/-!
Types shared by the storage, group and deduplicator models: what a C++
exception carries, allocations, reference counts, fragments and addresses.
Pointers are natural numbers; the width a computation is done in is written at
the computation.
-/

namespace UhCore

/-- The exceptions thrown by the modelled functions, with their texts. Where
the source would leave defined behaviour (an index or a sub-range that is not
there), the model stops with `undefinedBehaviour`. -/
inductive Exn where
  | outOfRange (what : String)
  | invalidArgument (what : String)
  | runtimeError (what : String)
  | undefinedBehaviour (what : String)
  deriving DecidableEq, Repr

structure Allocation where
  offset : Nat
  size : Nat
  deriving DecidableEq, Repr

/-- The first address behind an allocation. -/
def Allocation.finish (a : Allocation) : Nat := a.offset + a.size

/-- Two allocations share an address. -/
def Allocation.Overlaps (a b : Allocation) : Prop := a.offset < b.finish ∧ b.offset < a.finish

instance (a b : Allocation) : Decidable (a.Overlaps b) := inferInstanceAs (Decidable (_ ∧ _))

structure Refcount where
  stripeId : Nat
  count : Nat
  deriving DecidableEq, Repr

def countOf (rcs : List Refcount) (stripeId : Nat) : Nat :=
  ((rcs.filter (fun rc => rc.stripeId = stripeId)).map Refcount.count).sum

theorem countOf_cons (rc : Refcount) (rcs : List Refcount) (t : Nat) :
    countOf (rc :: rcs) t = (if rc.stripeId = t then rc.count else 0) + countOf rcs t := by
  by_cases h : rc.stripeId = t <;> simp [countOf, h]

structure Fragment where
  pointer : Nat
  size : Nat
  deriving DecidableEq, Repr

/-- An address is the list of its fragments. -/
abbrev Address := List Fragment

def Address.dataSize (addr : Address) : Nat := (addr.map Fragment.size).sum

theorem Address.dataSize_cons (f : Fragment) (rest : Address) :
    Address.dataSize (f :: rest) = f.size + Address.dataSize rest := rfl

/-- The fragments of a buffer that was written in one piece: one for each
offset, up to the next offset or the end. `place` is the pointer of an offset. -/
def computeAddress (place : Nat → Nat) (dataSize : Nat) : List Nat → Address
  | [] => []
  | [offset] => [⟨place offset, dataSize - offset⟩]
  | offset :: next :: rest =>
    ⟨place offset, next - offset⟩ :: computeAddress place dataSize (next :: rest)

end UhCore
