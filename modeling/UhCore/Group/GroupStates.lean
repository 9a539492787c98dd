import UhCore.Group.Repair

/-!
The state that the leader of an initialized group publishes, over any sequence of
states of the storages.
-/

namespace UhCore.Group.Repair

/-- `storage_states_handler`, for the numbers of the configuration that it reads. -/
def groupStateStep (dataShards storages : Nat) (state : GroupState) (states : Nat → StorageState)
    (self : Nat) (services : Bool) : GroupState × Bool :=
  let down := hasDown storages states
  let assigned := assignedCount storages states
  let new := if state ≠ .healthy ∧ assigned = storages then .healthy else state
  let new := if state ≠ .degraded ∧ down ∧ dataShards ≤ assigned then .degraded else new
  let new := if state ≠ .failed ∧ assigned < dataShards then .failed else new
  if state ≠ .repairing ∧ ¬ down ∧ dataShards ≤ assigned ∧ assigned < storages then
    (.repairing, services && decide (states self ≠ .new))
  else (new, false)

def classify (dataShards storages : Nat) (states : Nat → StorageState) : GroupState :=
  if ∀ id < storages, states id = .assigned then .healthy
  else if assignedCount storages states < dataShards then .failed
  else if ∃ id < storages, states id = .down then .degraded
  else .repairing

def stateAfter (dataShards storages self : Nat) (state : GroupState)
    (history : List (Nat → StorageState)) : GroupState :=
  history.foldl (fun state states => (groupStateStep dataShards storages state states self true).1)
    state

section Classification

variable {dataShards storages : Nat} (states : Nat → StorageState)

theorem hasDown_iff : hasDown storages states = true ↔ ∃ id < storages, states id = .down := by
  simp [hasDown]

theorem assignedCount_eq_iff :
    assignedCount storages states = storages ↔ ∀ id < storages, states id = .assigned := by
  have hlen := List.countP_eq_length (p := fun id => decide (states id = .assigned))
    (l := List.range storages)
  rw [List.length_range] at hlen
  rw [assignedCount, hlen]
  simp

theorem assignedCount_le : assignedCount storages states ≤ storages := by
  have hle := List.countP_le_length (p := fun id => decide (states id = .assigned))
    (l := List.range storages)
  rwa [List.length_range] at hle

theorem groupStateStep_eq (hshards : dataShards ≤ storages) (state : GroupState) (self : Nat)
    (services : Bool) :
    groupStateStep dataShards storages state states self services =
      (classify dataShards storages states,
        decide (state ≠ .repairing ∧ classify dataShards storages states = .repairing) &&
          (services && decide (states self ≠ .new))) := by
  have hle : assignedCount storages states ≤ storages := assignedCount_le states
  have hdown : assignedCount storages states = storages → hasDown storages states = false := by
    intro hall
    rw [Bool.eq_false_iff, ne_eq, hasDown_iff]
    rintro ⟨id, hid, hstate⟩
    rw [(assignedCount_eq_iff states).mp hall id hid] at hstate
    cases hstate
  unfold groupStateStep classify
  simp only [← hasDown_iff, ← assignedCount_eq_iff]
  generalize hasDown storages states = down at hdown
  generalize assignedCount storages states = assigned at hle hdown
  by_cases hall : assigned = storages
  · cases state <;> simp [hall, hdown hall, not_lt.mpr hshards]
  · by_cases hfew : assigned < dataShards
    · cases down <;> cases state <;> simp [hall, hfew, not_le.mpr hfew]
    · have hlt : assigned < storages := by omega
      cases down <;> cases state <;> simp [hall, hfew, hlt, not_lt.mp hfew]

end Classification

/-- The group state is the classification of the states of the storages, and in any
history a repairer is started exactly when the state enters repairing. -/
theorem group_state_classified (dataShards storages : Nat) (hshards : dataShards ≤ storages)
    (self : Nat) (state : GroupState) :
    (∀ states services, (groupStateStep dataShards storages state states self services).1 =
      classify dataShards storages states) ∧
    (∀ history states, states self ≠ .new →
      let before := stateAfter dataShards storages self state history
      ((groupStateStep dataShards storages before states self true).2 = true ↔
        before ≠ .repairing ∧
          stateAfter dataShards storages self state (history ++ [states]) = .repairing)) ∧
    ∀ (g : EcGeometry) states services, storageStatesHandler g state states self services =
      groupStateStep g.dataShards g.storages state states self services := by
  refine ⟨?_, ?_, fun _ _ _ => rfl⟩
  · intro states services
    rw [groupStateStep_eq states hshards]
  · intro history states hself
    have hlast : stateAfter dataShards storages self state (history ++ [states]) =
        classify dataShards storages states := by
      rw [stateAfter, List.foldl_concat, groupStateStep_eq states hshards]
    simp only [hlast, groupStateStep_eq states hshards]
    simp [hself]

theorem group_state_classified_pair :
    (2 ≤ 3) ∧ ∀ states services,
      (groupStateStep 2 3 .undetermined states 0 services).1 = classify 2 3 states :=
  ⟨by decide, (group_state_classified 2 3 (by decide) 0 .undetermined).1⟩

end UhCore.Group.Repair
