import UhCore.Coordinator.PublishConfigs

/-!
The configurations that `group_config::create` accepts. The sum of the shards and
the size of a stripe are computed in 64-bit words and compared as such.
-/

namespace UhCore.Group

open Words

/-- The members of a JSON object that a configuration has; `none` where it is
missing or of another kind. -/
structure JsonMembers where
  id : Option UInt64
  type : Option String
  storages : Option UInt64
  dataShards : Option UInt64
  parityShards : Option UInt64
  stripeSizeKib : Option UInt64

/-- The JSON library, for texts whose numbers are 64-bit integers. -/
structure JsonLibrary (τ : Type) where
  parse : τ → Option JsonMembers
  dump : JsonMembers → τ
  parse_dump : ∀ j, parse (dump j) = some j

namespace GroupConfig

/-- What `from_json` reads of an object before its checks. -/
def getMembers (j : JsonMembers) : Option GroupJson := do
  let id ← j.id
  let type ← j.type
  match GroupType.enumCast type with
  | none => return ⟨id.toNat, type, 0, 0, 0, 0⟩
  | some .erasureCoding =>
    return ⟨id.toNat, type, (← j.storages).toNat, (← j.dataShards).toNat,
      (← j.parityShards).toNat, (← j.stripeSizeKib).toNat⟩
  | some _ => return ⟨id.toNat, type, (← j.storages).toNat, 0, 0, 0⟩

variable {τ : Type} (lib : JsonLibrary τ)

def create (text : τ) : Except Exn GroupConfig :=
  match (lib.parse text).bind getMembers with
  | none => .error (.outOfRange "no such member of the object")
  | some j => fromJson j

def toMembers (c : GroupConfig) : JsonMembers :=
  let stripes (n : Nat) := if c.type = .erasureCoding then some (UInt64.ofNat n) else none
  ⟨some (.ofNat c.id), some (.ofList c.type.enumName), some (.ofNat c.storages),
    stripes c.dataShards, stripes c.parityShards, stripes c.stripeSizeKib⟩

/-- The sizes of an erasure coded group, without a wrap-around. -/
structure HasGeometry (c : GroupConfig) : Prop where
  dataShards : 1 ≤ c.dataShards
  stripeSize : c.getStripeSize = c.stripeSizeKib * 1024 ∧ 0 < c.getStripeSize
  chunkSize : c.getStripeUnitSize * c.dataShards = c.stripeSizeKib * 1024
  storages : c.dataShards + c.parityShards = c.storages

structure CreatesSound (text : τ) : Prop where
  defined : ∀ what, create lib text ≠ .error (.undefinedBehaviour what)
  geometry : ∀ c, create lib text = .ok c → c.type = .erasureCoding → c.HasGeometry
  again : ∀ c, create lib text = .ok c → create lib (lib.dump c.toMembers) = .ok c

/-- The numbers that pass the checks are a geometry. -/
def Fits (j : GroupJson) : Prop :=
  GroupType.enumCast j.type = some .erasureCoding →
  j.storages = wrap 64 (j.dataShards + j.parityShards) →
    j.dataShards ≠ 0 ∧ (j.stripeSizeKib % j.dataShards = 0 →
      j.dataShards + j.parityShards < 2 ^ 64 ∧ 0 < j.stripeSizeKib ∧
        j.stripeSizeKib * 1024 < 2 ^ 64)

variable {lib} {text : τ} {m : JsonMembers} {j : GroupJson} {c : GroupConfig}

theorem getMembers_words (h : getMembers m = some j) :
    ∃ (id : UInt64) (type : String) (storages data parity kib : UInt64),
      j = ⟨id.toNat, type, storages.toNat, data.toNat, parity.toNat, kib.toNat⟩ := by
  simp only [getMembers, Option.bind_eq_bind, Option.bind_eq_some_iff] at h
  obtain ⟨id, _, type, _, h⟩ := h
  split at h
  · exact ⟨id, type, 0, 0, 0, 0, (Option.some.inj h).symm⟩
  · simp only [Option.bind_eq_some_iff] at h
    obtain ⟨n, _, d, _, p, _, k, _, h⟩ := h
    exact ⟨id, type, n, d, p, k, (Option.some.inj h).symm⟩
  · obtain ⟨n, _, h⟩ := Option.bind_eq_some_iff.mp h
    exact ⟨id, type, n, 0, 0, 0, (Option.some.inj h).symm⟩

theorem enumCast_enumName (type : GroupType) :
    GroupType.enumCast (.ofList type.enumName) = some type := by
  cases type <;> decide

/-- What is written of an accepted configuration is read as this configuration. -/
theorem create_dump (hread : getMembers m = some j) (h : fromJson j = .ok c) :
    create lib (lib.dump c.toMembers) = .ok c := by
  obtain ⟨id, type, storages, data, parity, kib, rfl⟩ := getMembers_words hread
  rw [create, lib.parse_dump, Option.bind_some]
  rcases fromJson_ok h with ⟨_, hstors, hzero, hmod, rfl⟩ | ⟨type, _, hother, rfl⟩
  · have hagain : getMembers (toMembers ⟨id.toNat, .erasureCoding, storages.toNat, data.toNat,
        parity.toNat, kib.toNat⟩) = some ⟨id.toNat, .ofList GroupType.erasureCoding.enumName,
          storages.toNat, data.toNat, parity.toNat, kib.toNat⟩ := by
      simp only [toMembers, getMembers, if_true, UInt64.ofNat_toNat]
      rfl
    rw [hagain]
    simp only [fromJson, enumCast_enumName]
    rw [if_neg (not_not.mpr hstors), if_neg hzero, if_neg (not_not.mpr hmod)]
  · cases type with
    | erasureCoding => exact absurd rfl hother
    | _ =>
      simp only [toMembers, UInt64.ofNat_toNat]
      rfl

theorem Fits.geometry (h : Fits j) (hjson : fromJson j = .ok c) (htype : c.type = .erasureCoding) :
    c.HasGeometry := by
  rcases fromJson_ok hjson with ⟨hcast, hstors, hzero, hmod, rfl⟩ | ⟨type, _, hother, rfl⟩
  · obtain ⟨hsum, hpos, hlt⟩ := (h hcast hstors).2 hmod
    have hstripe : wrap 64 (j.stripeSizeKib * 1024) = j.stripeSizeKib * 1024 := wrap_of_lt hlt
    refine ⟨pos_of_ne_zero hzero, ⟨hstripe, ?_⟩, ?_, (hstors.trans (wrap_of_lt hsum)).symm⟩
    · rw [getStripeSize, hstripe]
      exact Nat.mul_pos hpos (by decide)
    · rw [getStripeUnitSize, getStripeSize, hstripe]
      exact Nat.div_mul_cancel ((Nat.dvd_of_mod_eq_zero hmod).mul_right 1024)
  · exact absurd htype hother

theorem Fits.defined (h : Fits j) (what : String) : fromJson j ≠ .error (.undefinedBehaviour what) := by
  intro herror
  unfold fromJson at herror
  split at herror
  case h_1 => cases herror
  case h_2 htype =>
    split at herror
    · cases herror
    · rename_i hstors
      rw [if_neg (h htype (not_not.mp hstors)).1] at herror
      split at herror <;> cases herror
  case h_3 => cases herror

/-- The configuration that is made of a text has a geometry and is read back,
and nothing is divided by zero, exactly where the numbers of the text fit. -/
theorem create_sound_iff (lib : JsonLibrary τ) (text : τ) :
    CreatesSound lib text ↔ ∀ j, (lib.parse text).bind getMembers = some j → Fits j := by
  constructor
  · intro h j hj htype hsum
    have hcreate : create lib text = fromJson j := by rw [create, hj]
    unfold fromJson at hcreate
    rw [htype] at hcreate
    dsimp only at hcreate
    rw [if_neg (not_not.mpr hsum)] at hcreate
    have hzero : j.dataShards ≠ 0 := by
      intro hzero
      rw [if_pos hzero] at hcreate
      exact h.defined _ hcreate
    refine ⟨hzero, fun hmod => ?_⟩
    rw [if_neg hzero, if_neg (not_not.mpr hmod)] at hcreate
    obtain ⟨_, ⟨hexact, hpos⟩, _, hstors⟩ := h.geometry _ hcreate rfl
    dsimp only at hexact hpos hstors
    have hsumlt := wrap_lt 64 (j.dataShards + j.parityShards)
    have hsizelt := wrap_lt 64 (j.stripeSizeKib * 1024)
    change wrap 64 (j.stripeSizeKib * 1024) = _ at hexact
    change 0 < wrap 64 (j.stripeSizeKib * 1024) at hpos
    omega
  · intro h
    cases hj : (lib.parse text).bind getMembers with
    | none =>
      constructor <;> simp [create, hj]
    | some j =>
      have hcreate : create lib text = fromJson j := by rw [create, hj]
      obtain ⟨m, _, hread⟩ := Option.bind_eq_some_iff.mp hj
      exact ⟨fun what => hcreate ▸ (h j hj).defined what,
        fun c hc => (h j hj).geometry (hcreate ▸ hc), fun c hc => create_dump hread (hcreate ▸ hc)⟩

def plainLibrary : JsonLibrary JsonMembers := ⟨some, fun m => m, fun _ => rfl⟩

/-- Without data shards the check of the stripe size divides by zero; and no
stripe size is accepted. -/
theorem checks_divide_by_zero :
    create plainLibrary ⟨some 0, some "ERASURE_CODING", some 3, some 0, some 3, some 8⟩ =
        .error (.undefinedBehaviour "stripe_size_kib % data_shards") ∧
      create plainLibrary ⟨some 0, some "ERASURE_CODING", some 3, some 2, some 1, some 0⟩ =
        .ok ⟨0, .erasureCoding, 3, 2, 1, 0⟩ := by
  decide +kernel

end GroupConfig

end UhCore.Group
