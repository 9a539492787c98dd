import UhCore.Proxy.DataView

/-!
The reader of a stored object. It walks over the fragments of the address of
the object; a call hands out the next bytes, as many as fit in the buffer.
-/

namespace UhCore.Proxy

open Entrypoint (Text)
open List

/-- The loop of `disk_source::get` over the fragments from the current one on,
with the offset in that one and the space left in the buffer. -/
def getLoop : Address → Nat → Nat → Address × Nat × Nat
  | [], offset, _ => ([], 0, offset)
  | f :: rest, offset, room =>
    if room = 0 then ([], 0, offset)
    else if f.size - offset > room then ([⟨f.pointer + offset, room⟩], 0, offset + room)
    else
      let (addr, index, next) := getLoop rest 0 (room - (f.size - offset))
      (⟨f.pointer + offset, f.size - offset⟩ :: addr, index + 1, next)

/-- The offset is in the first fragment, or at its end. -/
def OffsetOk (addr : Address) (offset : Nat) : Prop := offset ≤ (addr.head?.map Fragment.size).getD 0

/-- What is read are the next places, and the others are left. -/
structure Split (addr : Address) (offset room : Nat) (result : Address × Nat × Nat) : Prop where
  read : places result.1 = ((places addr).drop offset).take room
  left : (places (addr.drop result.2.1)).drop result.2.2 = ((places addr).drop offset).drop room
  offset : OffsetOk (addr.drop result.2.1) result.2.2

theorem drop_places_cons (f : Fragment) (rest : Address) {offset : Nat} (h : offset ≤ f.size) :
    (places (f :: rest)).drop offset =
      fragmentPlaces ⟨f.pointer + offset, f.size - offset⟩ ++ places rest := by
  rw [places_cons, drop_append_of_le_length (by simpa using h), fragmentPlaces_drop]

theorem getLoop_split (addr : Address) (offset room : Nat) (h : OffsetOk addr offset) :
    Split addr offset room (getLoop addr offset room) := by
  fun_induction getLoop addr offset room with
  | case1 offset room => exact ⟨by simp, by simp, h⟩
  | case2 offset f rest => exact ⟨by simp, by simp, h⟩
  | case3 f rest offset room hroom hpart =>
    have hoff : offset ≤ f.size := h
    have hpiece := fragmentPlaces_take ⟨f.pointer + offset, f.size - offset⟩ hpart.le
    refine ⟨?_, ?_, ?_⟩
    · rw [drop_places_cons f rest hoff, take_append_of_le_length (by simpa using hpart.le),
        ← hpiece]
      exact append_nil _
    · rw [drop_drop]
      rfl
    · change offset + room ≤ f.size
      omega
  | case4 f rest offset room hroom hwhole partAddr index next heq ih =>
    have hoff : offset ≤ f.size := h
    have hstep := ih (Nat.zero_le _)
    rw [heq] at hstep
    have hle : f.size - offset ≤ room := Nat.le_of_not_lt hwhole
    have hread := hstep.read
    have hleft := hstep.left
    rw [drop_zero] at hread hleft
    have hlen : (fragmentPlaces ⟨f.pointer + offset, f.size - offset⟩).length ≤ room :=
      (length_fragmentPlaces _).trans_le hle
    refine ⟨?_, ?_, hstep.offset⟩
    · rw [drop_places_cons f rest hoff, take_append, take_of_length_le hlen,
        length_fragmentPlaces, places_cons, hread]
    · rw [drop_places_cons f rest hoff, drop_append, drop_of_length_le hlen,
        length_fragmentPlaces, nil_append]
      exact hleft

end UhCore.Proxy
