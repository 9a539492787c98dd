import UhCore.Entrypoint.Http

/-!
The storage as the proxy uses it. A write returns an address at which the data
is read until the address, or one that shares a place with it, is unlinked;
places that were unlinked may be used again.
-/

namespace UhCore.Proxy

open Entrypoint (Text)
open List

def fragmentPlaces (f : Fragment) : List Nat := List.range' f.pointer f.size

def places (addr : Address) : List Nat := addr.flatMap fragmentPlaces

@[simp] theorem places_nil : places [] = [] := rfl

@[simp] theorem places_cons (f : Fragment) (addr : Address) :
    places (f :: addr) = fragmentPlaces f ++ places addr := rfl

@[simp] theorem places_append (a b : Address) : places (a ++ b) = places a ++ places b :=
  flatMap_append

@[simp] theorem length_fragmentPlaces (f : Fragment) : (fragmentPlaces f).length = f.size :=
  length_range'

theorem length_places (addr : Address) : (places addr).length = addr.dataSize := by
  induction addr with
  | nil => rfl
  | cons f addr ih =>
    rw [places_cons, length_append, length_fragmentPlaces, ih]
    simp [Address.dataSize]

theorem fragmentPlaces_take (f : Fragment) {n : Nat} (h : n ≤ f.size) :
    fragmentPlaces ⟨f.pointer, n⟩ = (fragmentPlaces f).take n := by
  unfold fragmentPlaces
  rw [take_range'_of_length_ge h]

theorem fragmentPlaces_drop (f : Fragment) (n : Nat) :
    fragmentPlaces ⟨f.pointer + n, f.size - n⟩ = (fragmentPlaces f).drop n := by
  unfold fragmentPlaces
  rw [drop_range', mul_one]

/-- What `data_view` promises: a write uses places that are not in use and
keeps the bytes of those that are, an unlink keeps the bytes of all places that
are not in its address. -/
structure DataView (σ : Type) where
  byteAt : σ → Nat → Char
  InUse : σ → Nat → Prop
  write : σ → Text → Address × σ
  unlink : σ → Address → σ
  write_data : ∀ s data, (places (write s data).1).map (byteAt (write s data).2) = data
  write_fresh : ∀ s data, ∀ p ∈ places (write s data).1, ¬ InUse s p
  write_inUse : ∀ s data, ∀ p ∈ places (write s data).1, InUse (write s data).2 p
  write_keeps : ∀ s data p, InUse s p →
    InUse (write s data).2 p ∧ byteAt (write s data).2 p = byteAt s p
  unlink_keeps : ∀ s addr p, InUse s p → p ∉ places addr →
    InUse (unlink s addr) p ∧ byteAt (unlink s addr) p = byteAt s p

def DataView.readAddress {σ : Type} (dv : DataView σ) (s : σ) (addr : Address) : Text :=
  (places addr).map (dv.byteAt s)

/-- A storage that appends what is written and clears what is unlinked. -/
def appending : DataView Text where
  byteAt s p := s.getD p '\x00'
  InUse s p := p < s.length
  write s data := ([⟨s.length, data.length⟩], s ++ data)
  unlink s addr := s.mapIdx fun p c => if p ∈ places addr then '\x00' else c
  write_data s data := by
    apply ext_getElem
    · simp [fragmentPlaces]
    · intro i h₁ h₂
      simp [fragmentPlaces, getElem_append_right, h₂]
  write_fresh s data p hp := by
    simp [fragmentPlaces] at hp
    omega
  write_inUse s data p hp := by
    simp [fragmentPlaces] at hp
    rw [length_append]
    exact hp.2
  write_keeps s data p hp := by
    refine ⟨by rw [length_append]; omega, ?_⟩
    rw [getD_eq_getElem?_getD, getElem?_append_left hp, getD_eq_getElem?_getD]
  unlink_keeps s addr p hp hmem := by
    refine ⟨by rwa [length_mapIdx], ?_⟩
    simp [hp, hmem]

end UhCore.Proxy
