import UhCore.Lib.Transition

/-!
The load balancer over the services of a role. Its cursor is an iterator of the
map of services and passes a service only by returning it, so a service that
stays is returned between any two calls that return the same other one.
-/

namespace UhCore.Etcd

open Transition Finset

/-- The ids in the map, the services, and the id that the iterator is at, `⊤` at
the end of the map. -/
structure LoadBalancer (ι : Type) where
  ids : Finset Nat
  services : Nat → ι
  robinIndex : WithTop Nat
  valid : ∀ id : Nat, robinIndex = id → id ∈ ids

namespace LoadBalancer

variable {ι : Type}

def successor (ids : Finset Nat) (id : Nat) : WithTop Nat := (ids.filter (id < ·)).min

theorem mem_of_successor {ids : Finset Nat} {id x : Nat} (h : successor ids id = x) :
    x ∈ ids ∧ id < x := mem_filter.mp (mem_of_min h)

/-- `emplace` leaves a service that is there. -/
def addClient (b : LoadBalancer ι) (id : Nat) (service : ι) : LoadBalancer ι :=
  if id ∈ b.ids then b
  else
    { b with
      ids := insert id b.ids
      services := Function.update b.services id service
      valid := fun x hx => mem_insert_of_mem (b.valid x hx) }

def removeClient (b : LoadBalancer ι) (id : Nat) : LoadBalancer ι where
  ids := b.ids.erase id
  services := b.services
  robinIndex := if b.robinIndex = id then successor b.ids id else b.robinIndex
  valid x hx := by
    split at hx
    case isTrue => exact mem_erase.mpr ⟨(mem_of_successor hx).2.ne', (mem_of_successor hx).1⟩
    case isFalse hne =>
      refine mem_erase.mpr ⟨?_, b.valid x hx⟩
      rintro rfl
      exact hne hx

/-- Where the iterator is when it went from the end to the begin. -/
def current (b : LoadBalancer ι) : WithTop Nat :=
  if b.robinIndex = ⊤ then b.ids.min else b.robinIndex

/-- `none` while there is no service to return. -/
def get (b : LoadBalancer ι) : Option ((Nat × ι) × LoadBalancer ι) :=
  Option.map (fun id =>
    ((id, b.services id),
      { b with
        robinIndex := successor b.ids id
        valid := fun _ hx => (mem_of_successor hx).1 })) b.current

inductive Action (ι : Type) where
  | addClient (id : Nat) (service : ι)
  | removeClient (id : Nat)
  | get

/-- A step of the load balancer, with the ids that were returned. -/
def next (s : LoadBalancer ι × List Nat) : Action ι → Option (LoadBalancer ι × List Nat)
  | .addClient id service => some (s.1.addClient id service, s.2)
  | .removeClient id => some (s.1.removeClient id, s.2)
  | .get => s.1.get.map fun (e, b) => (b, s.2 ++ [e.1])

/-- Going on from the cursor, `other` comes before `id`. -/
def Ahead (id other : Nat) (index : WithTop Nat) : Prop :=
  (id < index ∧ index ≤ other) ∨ (other < id ∧ (id < index ∨ index ≤ other))

variable {b b' : LoadBalancer ι} {id other x : Nat} {e : Nat × ι}

theorem ahead_successor {ids : Finset Nat} (h : other ∈ ids)
    (hx : (id ≤ x ∧ x < other) ∨ (other < id ∧ (id ≤ x ∨ x < other))) :
    Ahead id other (successor ids x) := by
  have hle : x < other → successor ids x ≤ other := fun hlt => min_le (mem_filter.mpr ⟨h, hlt⟩)
  have hlt : (x : WithTop Nat) < successor ids x :=
    (Finset.lt_inf_iff (WithTop.coe_lt_top x)).mpr fun y hy => by simpa using (mem_filter.mp hy).2
  have hid : id ≤ x → (id : WithTop Nat) < successor ids x :=
    fun hle => (WithTop.coe_le_coe.mpr hle).trans_lt hlt
  rcases hx with ⟨hx, hlt⟩ | ⟨hback, hx | hx⟩
  · exact .inl ⟨hid hx, hle hlt⟩
  · exact .inr ⟨hback, .inl (hid hx)⟩
  · exact .inr ⟨hback, .inr (hle hx)⟩

theorem current_mem (h : b.current = x) : x ∈ b.ids := by
  unfold current at h
  split at h
  · exact mem_of_min h
  · exact b.valid x h

theorem get_eq_some (h : b.get = some (e, b')) : b.current = e.1 ∧ e.2 = b.services e.1 ∧
    b'.ids = b.ids ∧ b'.robinIndex = successor b.ids e.1 := by
  obtain ⟨id, hid, h⟩ := Option.map_eq_some_iff.mp h
  cases h
  exact ⟨hid, rfl, rfl, rfl⟩

/-- A call on the way to `other` returns it, or one on the way that is not `id`. -/
theorem Ahead.get (h : Ahead id other b.robinIndex) (hother : other ∈ b.ids)
    (hget : b.get = some (e, b')) : e.1 ≠ id ∧ (e.1 = other ∨ Ahead id other b'.robinIndex) := by
  obtain ⟨hcurrent, _, _, hnext⟩ := get_eq_some hget
  have hway : Ahead id other e.1 := by
    rw [← hcurrent]
    unfold current
    split
    case isFalse => exact h
    case isTrue htop =>
      rw [htop] at h
      have hback : other < id := h.elim (fun h => absurd h.2 (by simp)) And.left
      exact .inr ⟨hback, .inr (min_le hother)⟩
  simp only [Ahead, Nat.cast_lt, Nat.cast_le] at hway
  refine ⟨by omega, or_iff_not_imp_left.mpr fun hne => ?_⟩
  rw [hnext]
  exact ahead_successor hother (by omega)

theorem Ahead.next {s s' : LoadBalancer ι × List Nat} {action : Action ι}
    (h : other ∈ s.2 ∨ Ahead id other s.1.robinIndex) (hother : other ∈ s.1.ids)
    (hstays : other ∈ s'.1.ids) (hnext : next s action = some s') :
    other ∈ s'.2 ∨ Ahead id other s'.1.robinIndex := by
  cases action with
  | addClient x service =>
    cases hnext
    have hsame : (s.1.addClient x service).robinIndex = s.1.robinIndex := by
      unfold addClient
      split <;> rfl
    rwa [hsame]
  | get =>
    obtain ⟨⟨e, b'⟩, hget, rfl⟩ := Option.map_eq_some_iff.mp hnext
    rcases h with hmem | hway
    · exact .inl (List.mem_append_left _ hmem)
    · exact (hway.get hother hget).2.imp_left fun heq => by simp [heq]
  | removeClient x =>
    cases hnext
    refine h.imp_right fun hway => ?_
    change Ahead id other (if s.1.robinIndex = x then _ else _)
    split
    case isFalse => exact hway
    case isTrue hx =>
      have hne := (mem_erase.mp hstays).1
      rw [hx] at hway
      simp only [Ahead, Nat.cast_lt, Nat.cast_le] at hway
      exact ahead_successor hother (by omega)

def pair : LoadBalancer Unit := ⟨{1, 2}, fun _ => (), ⊤, by simp⟩

end LoadBalancer

end UhCore.Etcd
