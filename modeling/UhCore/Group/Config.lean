import UhCore.Group.EcView

/-!
Group configurations as they are read from JSON, and the geometry that an
accepted erasure coding configuration gives a data view.
-/

namespace UhCore.Group

open Words

inductive GroupType where
  | roundRobin
  | erasureCoding
  | replica
  deriving DecidableEq

def GroupType.enumCast (name : String) : Option GroupType :=
  if name = "ROUND_ROBIN" then some .roundRobin
  else if name = "ERASURE_CODING" then some .erasureCoding
  else if name = "REPLICA" then some .replica
  else none

/-- The members of the JSON object of a configuration; only erasure coding
reads the last three. -/
structure GroupJson where
  id : Nat
  type : String
  storages : Nat
  dataShards : Nat
  parityShards : Nat
  stripeSizeKib : Nat

structure GroupConfig where
  id : Nat
  type : GroupType := .roundRobin
  storages : Nat := 1
  dataShards : Nat := 1
  parityShards : Nat := 0
  stripeSizeKib : Nat := 8
  deriving DecidableEq

namespace GroupConfig

def getStripeSize (config : GroupConfig) : Nat := wrap 64 (config.stripeSizeKib * 1024)

def getStripeUnitSize (config : GroupConfig) : Nat := config.getStripeSize / config.dataShards

/-- Read a configuration; the check of the stripe size divides by the number of
data shards. -/
def fromJson (j : GroupJson) : Except Exn GroupConfig :=
  match GroupType.enumCast j.type with
  | none => .error (.invalidArgument ("Invalid type: " ++ j.type))
  | some .erasureCoding =>
    if j.storages ≠ wrap 64 (j.dataShards + j.parityShards) then
      .error (.invalidArgument ("For erasure coding, storages count must equal data_shards + " ++
        "parity_shards"))
    else if j.dataShards = 0 then
      .error (.undefinedBehaviour "stripe_size_kib % data_shards")
    else if j.stripeSizeKib % j.dataShards ≠ 0 then
      .error (.invalidArgument "stripe_size_kib must be divisible by storages count")
    else
      .ok ⟨j.id, .erasureCoding, j.storages, j.dataShards, j.parityShards, j.stripeSizeKib⟩
  | some type => .ok { id := j.id, type := type, storages := j.storages }

/-- What is accepted: erasure coding with numbers that pass the checks, or another
type. -/
theorem fromJson_ok {j : GroupJson} {config : GroupConfig} (h : fromJson j = .ok config) :
    (GroupType.enumCast j.type = some .erasureCoding ∧
      j.storages = wrap 64 (j.dataShards + j.parityShards) ∧ j.dataShards ≠ 0 ∧
      j.stripeSizeKib % j.dataShards = 0 ∧
      config = ⟨j.id, .erasureCoding, j.storages, j.dataShards, j.parityShards, j.stripeSizeKib⟩) ∨
    ∃ type, GroupType.enumCast j.type = some type ∧ type ≠ .erasureCoding ∧
      config = { id := j.id, type := type, storages := j.storages } := by
  unfold fromJson at h
  split at h
  case h_1 => cases h
  case h_2 htype =>
    split at h
    · cases h
    · split at h
      · cases h
      · split at h
        · cases h
        · rename_i hstors hzero hmod
          exact .inl ⟨htype, not_not.mp hstors, hzero, not_not.mp hmod, (Except.ok.inj h).symm⟩
  case h_3 type hother htype => exact .inr ⟨type, htype, hother, (Except.ok.inj h).symm⟩

/-- What the checks of an accepted erasure coding configuration give. -/
theorem fromJson_erasureCoding {j : GroupJson} {config : GroupConfig}
    (h : fromJson j = .ok config) (htype : config.type = .erasureCoding) :
    0 < config.dataShards ∧ config.dataShards ∣ config.stripeSizeKib ∧
      config.storages = wrap 64 (config.dataShards + config.parityShards) := by
  rcases fromJson_ok h with ⟨_, hstors, hzero, hmod, rfl⟩ | ⟨type, _, hother, rfl⟩
  · exact ⟨pos_of_ne_zero hzero, Nat.dvd_of_mod_eq_zero hmod, hstors⟩
  · exact absurd htype hother

end GroupConfig

/-- An accepted configuration of an erasure coded group. The stripe size is
held in a 64-bit word and is not zero. -/
structure EcConfig where
  json : GroupJson
  config : GroupConfig
  accepted : GroupConfig.fromJson json = .ok config
  erasureCoding : config.type = .erasureCoding
  stripeSize_pos : 0 < config.stripeSizeKib
  stripeSize_lt : config.stripeSizeKib * 1024 < 2 ^ 64

namespace EcConfig

variable (cfg : EcConfig)

theorem dataShards_mul_unit :
    cfg.config.dataShards * cfg.config.getStripeUnitSize = cfg.config.getStripeSize := by
  obtain ⟨-, hdvd, -⟩ := GroupConfig.fromJson_erasureCoding cfg.accepted cfg.erasureCoding
  apply Nat.mul_div_cancel'
  rw [GroupConfig.getStripeSize, wrap_of_lt cfg.stripeSize_lt]
  exact hdvd.mul_right 1024

theorem getStripeSize_pos : 0 < cfg.config.getStripeSize := by
  have := cfg.stripeSize_pos
  rw [GroupConfig.getStripeSize, wrap_of_lt cfg.stripeSize_lt]
  omega

/-- The geometry that the data view takes from a configuration. -/
def geometry : EcGeometry where
  groupId := cfg.config.id
  dataShards := cfg.config.dataShards
  parityShards := cfg.config.parityShards
  chunkSize := cfg.config.getStripeUnitSize
  dataShards_pos := (GroupConfig.fromJson_erasureCoding cfg.accepted cfg.erasureCoding).1
  chunkSize_pos := by
    apply pos_of_ne_zero
    intro hzero
    have hmul := cfg.dataShards_mul_unit
    have hpos := cfg.getStripeSize_pos
    rw [hzero, mul_zero] at hmul
    omega
  stripeSize_lt := by
    rw [cfg.dataShards_mul_unit]
    exact wrap_lt 64 _

theorem geometry_stripeSize : cfg.geometry.stripeSize = cfg.config.getStripeSize :=
  cfg.dataShards_mul_unit

end EcConfig

end UhCore.Group
