import UhCore.Entrypoint.Command
import UhCore.Entrypoint.Http

/-!
The `Range` header and sub-ranges of addresses. Positions are 64-bit words.
-/

namespace UhCore.Entrypoint

open Words Http List Address

/-- Pointers have 128 bits. -/
def subfrag (f : Fragment) (start finish : Nat) : Fragment :=
  if finish ≤ start then ⟨0, 0⟩
  else ⟨wrap 128 (f.pointer + start), wsub 64 (min f.size finish) start⟩

/-- The first loop of `address_t::range`: the fragment with the first byte, the
position behind it and the fragments that follow. -/
def rangeFirst (start finish : Nat) : Address → Nat → Option (Fragment × Nat × Address)
  | [], _ => none
  | f :: rest, ptr =>
    if start < wrap 64 (ptr + f.size) then
      let g := subfrag f (wsub 64 start ptr) (wsub 64 finish ptr)
      some (g, wrap 64 (start + g.size), rest)
    else rangeFirst start finish rest (wrap 64 (ptr + f.size))

def rangeRest (finish : Nat) : Address → Nat → Address
  | [], _ => []
  | f :: rest, ptr =>
    if ptr < finish then
      let g := subfrag f 0 (wsub 64 finish ptr)
      g :: rangeRest finish rest (wrap 64 (ptr + g.size))
    else []

def addressRange (addr : Address) (start finish : Nat) : Address :=
  match rangeFirst start finish addr 0 with
  | none => []
  | some (f, ptr, rest) => f :: rangeRest finish rest ptr

/-- The bytes from `start` to the one in front of `finish`. -/
structure Range where
  start : Nat
  finish : Nat
  deriving DecidableEq, Repr

def decimal (n : Nat) : Text := (toString n).toList

def Range.toString (r : Range) : Text := decimal r.start ++ ['-'] ++ decimal (wsub 64 r.finish 1)

def cannotParseRange : Failure :=
  .command ⟨.badRequest, "BadRequest", "Cannot parse range specifier."⟩

section Parse

variable (stoull : Text → Except Exn Nat)

def rangeNumber (s : Text) : Except Failure Nat := (stoull s).mapError fun _ => cannotParseRange

def parseRangeSpec (spec : Text) (size : Nat) : Except Failure Range :=
  match spec.idxOf? '-' with
  | none => .error cannotParseRange
  | some dash =>
    if dash = 0 then do
      let bytes ← rangeNumber stoull (spec.drop 1)
      return ⟨wsub 64 size bytes, size⟩
    else if dash = spec.length - 1 then do
      let bytes ← rangeNumber stoull (spec.take (spec.length - 1))
      return ⟨bytes, size⟩
    else do
      let first ← rangeNumber stoull (spec.take dash)
      let last ← rangeNumber stoull (spec.drop (dash + 1))
      return ⟨first, wrap 64 (last + 1)⟩

def parseRangeHeader (header : Text) (max : Nat) : Except Failure (List Range) :=
  match header.idxOf? '=' with
  | none => .error cannotParseRange
  | some equals =>
    if lowercase (header.take equals) ≠ "bytes".toList then
      .error (.command ⟨.badRequest, "BadRequest", "Unsupported range unit."⟩)
    else (split (header.drop (equals + 1)) ',').mapM fun spec => parseRangeSpec stoull spec max

end Parse

def applyRange (addr : Address) (ranges : List Range) : Address :=
  if addr.isEmpty then addr
  else ranges.flatMap fun r => addressRange addr r.start r.finish

section Exact

/-- The addresses of the bytes of a fragment. -/
def cells (f : Fragment) : List Nat := (List.range f.size).map fun i => wrap 128 (f.pointer + i)

/-- The bytes of `f` from `a` to the one in front of `b`. -/
def IsPart (g f : Fragment) : Prop :=
  ∃ a b, a ≤ b ∧ b ≤ f.size ∧ g = ⟨wrap 128 (f.pointer + a), b - a⟩

theorem length_cells (addr : Address) : (addr.flatMap cells).length = addr.dataSize := by
  simp [length_flatMap, cells, dataSize]

theorem cells_part (f : Fragment) (a b : Nat) :
    cells ⟨wrap 128 (f.pointer + a), min f.size b - a⟩ = ((cells f).take b).drop a := by
  apply ext_getElem
  · simp [cells, min_comm]
  · intro i _ _
    simp only [cells, getElem_map, getElem_range, getElem_drop, getElem_take,
      wrap_wrap_add, add_assoc]

theorem take_drop_append {x y z : List Nat} {a b : Nat} (hx : x.length ≤ a)
    (hy : a ≤ x.length + y.length) (hab : a ≤ b) :
    ((x ++ (y ++ z)).take b).drop a =
      (y.take (b - x.length)).drop (a - x.length) ++ z.take (b - (x.length + y.length)) := by
  have hin : a - x.length - (y.take (b - x.length)).length = 0 := by
    rw [length_take]
    omega
  rw [take_append, take_of_length_le (hx.trans hab), drop_append,
    drop_of_length_le hx, nil_append, take_append, drop_append, hin,
    drop_zero, Nat.sub_sub]

theorem subfrag_eq {f : Fragment} {a b : Nat} (hab : a < b) (hsize : a ≤ f.size)
    (hword : f.size < 2 ^ 64) :
    subfrag f a b = ⟨wrap 128 (f.pointer + a), min f.size b - a⟩ := by
  rw [subfrag, if_neg (not_le.mpr hab), wsub_of_le (by omega) (by omega) (by omega)]

variable {start finish : Nat} (hfinish : finish < 2 ^ 64)

include hfinish

theorem rangeRest_spec (addr : Address) (ptr : Nat) (hsizes : addr.dataSize < 2 ^ 64) :
    (rangeRest finish addr ptr).flatMap cells = (addr.flatMap cells).take (finish - ptr) ∧
      ∃ inner after, addr = inner ++ after ∧ List.Forall₂ IsPart (rangeRest finish addr ptr) inner := by
  induction addr generalizing ptr with
  | nil => exact ⟨by simp [rangeRest], [], [], rfl, .nil⟩
  | cons f rest ih =>
    rw [dataSize, map_cons, sum_cons] at hsizes
    rw [rangeRest]
    split
    case isFalse hptr =>
      rw [Nat.sub_eq_zero_of_le (not_lt.mp hptr)]
      exact ⟨by simp, [], f :: rest, rfl, .nil⟩
    case isTrue hptr =>
      have hnext : wrap 64 (ptr + (min f.size (finish - ptr) - 0)) =
          ptr + (min f.size (finish - ptr) - 0) := wrap_of_lt (by omega)
      have hleft : wsub 64 finish ptr = finish - ptr := wsub_of_le hptr.le (by omega) (by omega)
      have hpart := subfrag_eq (Nat.sub_pos_of_lt hptr) (Nat.zero_le f.size) (by omega)
      simp only [hleft, hpart, hnext]
      obtain ⟨hcells, inner, after, hsplit, hparts⟩ :=
        ih (ptr + (min f.size (finish - ptr) - 0)) (by rw [dataSize]; omega)
      refine ⟨?_, f :: inner, after, by rw [hsplit]; rfl, .cons ?_ hparts⟩
      · have hlen : (cells f).length = f.size := by simp [cells]
        rw [flatMap_cons, flatMap_cons, cells_part, drop_zero, hcells, take_append, hlen]
        congr 2
        omega
      · exact ⟨0, min f.size (finish - ptr), Nat.zero_le _, min_le_left _ _, rfl⟩

theorem rangeFirst_spec (hlt : start < finish) (addr : Address) (ptr : Nat) (hptr : ptr ≤ start)
    (hsizes : ptr + addr.dataSize < 2 ^ 64) :
    (start < ptr + addr.dataSize → ∃ before f rest, addr = before ++ f :: rest ∧
      ptr + dataSize before ≤ start ∧ start < ptr + dataSize before + f.size ∧
      let a := start - (ptr + dataSize before)
      let size := min f.size (finish - (ptr + dataSize before)) - a
      rangeFirst start finish addr ptr =
        some (⟨wrap 128 (f.pointer + a), size⟩, start + size, rest)) ∧
    (ptr + addr.dataSize ≤ start → rangeFirst start finish addr ptr = none) := by
  induction addr generalizing ptr with
  | nil =>
    refine ⟨fun h => ?_, fun _ => rfl⟩
    simp only [dataSize, map_nil, sum_nil] at h
    omega
  | cons f rest ih =>
    simp only [dataSize, map_cons, sum_cons] at hsizes ih ⊢
    rw [rangeFirst, wrap_of_lt (by omega)]
    split
    case isTrue hfirst =>
      refine ⟨fun _ => ⟨[], f, rest, rfl, hptr, hfirst, ?_⟩, fun h => by omega⟩
      have hnext : wrap 64 (start + (min f.size (finish - ptr) - (start - ptr))) =
          start + (min f.size (finish - ptr) - (start - ptr)) := wrap_of_lt (by omega)
      rw [wsub_of_le hptr (by omega) (by omega), wsub_of_le (by omega) (by omega) (by omega),
        subfrag_eq (by omega) (by omega) (by omega)]
      simp only [hnext]
      rfl
    case isFalse hlater =>
      obtain ⟨hfound, hnone⟩ := ih (ptr + f.size) (not_lt.mp hlater) (by omega)
      refine ⟨fun h => ?_, fun h => hnone (by omega)⟩
      obtain ⟨before, f', rest', hsplit, hle, hstart, heq⟩ := hfound (by omega)
      refine ⟨f :: before, f', rest', by rw [hsplit]; rfl, ?_⟩
      simp only [map_cons, sum_cons, ← add_assoc]
      exact ⟨hle, hstart, heq⟩

/-- A sub-range of an address has exactly the bytes of the address in the range. -/
theorem addressRange_exact (addr : Address) (hlt : start < finish)
    (hsizes : addr.dataSize < 2 ^ 64) :
    (addressRange addr start finish).flatMap cells =
        ((addr.flatMap cells).take finish).drop start ∧
      (∃ before inner after, addr = before ++ inner ++ after ∧
        List.Forall₂ IsPart (addressRange addr start finish) inner) ∧
      (addressRange addr start finish).dataSize = min finish addr.dataSize - start ∧
      (addr.dataSize ≤ start → addressRange addr start finish = []) := by
  obtain ⟨hfound, hnone⟩ := rangeFirst_spec hfinish hlt addr 0 (Nat.zero_le _) (by omega)
  simp only [zero_add] at hfound hnone
  have hcells : (addressRange addr start finish).flatMap cells =
      ((addr.flatMap cells).take finish).drop start ∧
      (∃ before inner after, addr = before ++ inner ++ after ∧
        List.Forall₂ IsPart (addressRange addr start finish) inner) := by
    rw [addressRange]
    by_cases hend : addr.dataSize ≤ start
    · rw [hnone hend]
      have hlength := length_cells addr
      exact ⟨by simp [drop_eq_nil_iff, hlength, hend], addr, [], [], by simp, .nil⟩
    · obtain ⟨before, f, rest, rfl, hle, hstart, heq⟩ := hfound (not_le.mp hend)
      rw [heq]
      have hrest : dataSize rest < 2 ^ 64 := by
        simp only [dataSize, map_append, map_cons, List.sum_append, sum_cons] at hsizes ⊢
        omega
      obtain ⟨hcells, inner, after, hsplit, hparts⟩ := rangeRest_spec hfinish rest
        (start + (min f.size (finish - before.dataSize) - (start - before.dataSize))) hrest
      refine ⟨?_, before, f :: inner, after, by rw [hsplit]; simp, .cons ?_ hparts⟩
      · have hbefore := length_cells before
        have hf : (cells f).length = f.size := by simp [cells]
        rw [flatMap_cons, cells_part, hcells, flatMap_append, flatMap_cons,
          take_drop_append (by omega) (by omega) hlt.le, hbefore, hf]
        congr 2
        omega
      · exact ⟨start - before.dataSize, min f.size (finish - before.dataSize), by omega,
          min_le_left _ _, rfl⟩
  refine ⟨hcells.1, hcells.2, ?_, fun hend => by rw [addressRange, hnone hend]⟩
  rw [← length_cells, hcells.1, length_drop, length_take, length_cells]

end Exact

theorem addressRange_exact_pair :
    (addressRange [⟨0, 100⟩, ⟨30, 200⟩] 80 150).flatMap cells =
      (([⟨0, 100⟩, ⟨30, 200⟩].flatMap cells).take 150).drop 80 :=
  (addressRange_exact (by decide) [⟨0, 100⟩, ⟨30, 200⟩] (by decide) (by decide)).1

end UhCore.Entrypoint
