import UhCore.Group.Config
import UhCore.Lib.Delimited
import UhCore.Lib.LeasedStore
import UhCore.Lib.Transition

/-!
The coordinator publishes the configurations of the storage groups at its
start and refuses one that differs from what is stored for its group. The keys
are written under the lease of the coordinator.
-/

namespace UhCore.Group

open Delimited List

def GroupType.enumName : GroupType → List Char
  | .roundRobin => "ROUND_ROBIN".toList
  | .erasureCoding => "ERASURE_CODING".toList
  | .replica => "REPLICA".toList

namespace GroupConfig

/-- A member of a JSON object with a text as its value. -/
def member (name value : List Char) : List Char := '"' :: name ++ '"' :: ':' :: value

def numberMember (name : List Char) (n : Nat) : List Char := member name (Nat.toDigits 10 n)

/-- The members that `to_json` writes. -/
def toJson (c : GroupConfig) : List (List Char) :=
  [numberMember "id".toList c.id, member "type".toList ('"' :: c.type.enumName ++ ['"']),
    numberMember "storages".toList c.storages] ++
  if c.type = .erasureCoding then
    [numberMember "data_shards".toList c.dataShards,
      numberMember "parity_shards".toList c.parityShards,
      numberMember "stripe_size_kib".toList c.stripeSizeKib]
  else []

def toString (c : GroupConfig) : String :=
  String.ofList ('\x7b' :: [','].intercalate c.toJson ++ ['\x7d'])

/-- What makes up a configuration of its type. -/
def geometry (c : GroupConfig) : Nat × GroupType × Nat × Option (Nat × Nat × Nat) :=
  (c.id, c.type, c.storages,
    if c.type = .erasureCoding then some (c.dataShards, c.parityShards, c.stripeSizeKib)
    else none)

variable {name value : List Char}

theorem member_inj {value' : List Char} :
    member name value = member name value' ↔ value = value' := by
  simp [member]

theorem numberMember_inj {n m : Nat} : numberMember name n = numberMember name m ↔ n = m := by
  rw [numberMember, numberMember, member_inj]
  constructor
  · intro h
    rw [← Nat.ofDigitChars_toDigits (by decide) le_rfl (n := n), h,
      Nat.ofDigitChars_toDigits (by decide) le_rfl]
  · rintro rfl
    rfl

theorem comma_notMem_toDigits (n : Nat) : ',' ∉ Nat.toDigits 10 n := by
  intro h
  exact absurd (Nat.isDigit_of_mem_toDigits (by decide) le_rfl h) (by decide)

theorem comma_notMem_member (hname : ',' ∉ name) (hvalue : ',' ∉ value) :
    ',' ∉ member name value ∧ member name value ≠ [] := by
  simp [member, hname, hvalue]

theorem comma_notMem_toJson (c : GroupConfig) : ∀ l ∈ c.toJson, ',' ∉ l ∧ l ≠ [] := by
  have hnum : ∀ {name : List Char} (n : Nat), ',' ∉ name →
      ',' ∉ numberMember name n ∧ numberMember name n ≠ [] :=
    fun n hname => comma_notMem_member hname (comma_notMem_toDigits n)
  have htype : ',' ∉ '"' :: c.type.enumName ++ ['"'] := by
    cases c.type <;> decide
  intro l hl
  rcases mem_append.mp hl with hl | hl
  · simp only [mem_cons, not_mem_nil, or_false] at hl
    rcases hl with rfl | rfl | rfl
    · exact hnum c.id (by decide)
    · exact comma_notMem_member (by decide) htype
    · exact hnum c.storages (by decide)
  · split at hl
    · simp only [mem_cons, not_mem_nil, or_false] at hl
      rcases hl with rfl | rfl | rfl
      · exact hnum c.dataShards (by decide)
      · exact hnum c.parityShards (by decide)
      · exact hnum c.stripeSizeKib (by decide)
    · cases hl

theorem enumName_inj {a b : GroupType} (h : a.enumName = b.enumName) : a = b := by
  cases a <;> cases b <;> first | rfl | exact absurd h (by decide)

theorem toString_inj {c d : GroupConfig} : c.toString = d.toString ↔ c.geometry = d.geometry := by
  constructor
  · intro h
    have hchars := String.ofList_injective h
    rw [cons_append, cons_append, cons.injEq, append_left_inj] at hchars
    have hmembers := intercalate_inj c.comma_notMem_toJson d.comma_notMem_toJson hchars.2
    simp only [toJson, cons_append, nil_append, cons.injEq, numberMember_inj,
      member_inj, append_left_inj, true_and] at hmembers
    obtain ⟨hid, htype, hstors, hrest⟩ := hmembers
    have htype := enumName_inj htype
    rw [geometry, geometry, hid, hstors, htype]
    rw [htype] at hrest
    split
    case isTrue hec =>
      simp only [hec, if_true, cons.injEq, numberMember_inj, and_true] at hrest
      rw [hrest.1, hrest.2.1, hrest.2.2]
    case isFalse => rfl
  · intro h
    simp only [geometry, Prod.mk.injEq] at h
    obtain ⟨hid, htype, hstors, hrest⟩ := h
    rw [toString, toString, toJson, toJson, hid, hstors, htype]
    rw [htype] at hrest
    split
    case isTrue hec =>
      simp only [hec, if_true, Option.some.injEq, Prod.mk.injEq] at hrest
      rw [hrest.1, hrest.2.1, hrest.2.2]
    case isFalse => rfl

theorem toString_ne_empty (c : GroupConfig) : c.toString ≠ "" := by
  intro h
  have hlist := congrArg String.toList h
  rw [toString, String.toList_ofList] at hlist
  cases hlist

end GroupConfig

end UhCore.Group

namespace UhCore.Coordinator

open UhCore.Group Transition List

abbrev GroupStore := LeasedStore Nat String

/-- The configuration that is written; only erasure coding has a stripe size
of its own. -/
def publishedConfig (cfg : GroupConfig) : GroupConfig :=
  if cfg.type ≠ .erasureCoding then { cfg with stripeSizeKib := 8 } else cfg

/-- Reading a key that is not there gives the empty text. -/
def storedConfig (store : GroupStore) (id : Nat) : String := (store.value id).getD ""

/-- The text of the error for a group with another stored configuration. -/
def mismatch (id : Nat) : Exn :=
  .runtimeError ("supplied storage group configuration with id " ++ Nat.repr id ++
    " does not match with existing storage group configuration")

/-- `publish_configs`: the result, the store it leaves and the configurations
it has written. -/
def publishConfigs (lease : Nat) :
    GroupStore → List GroupConfig → Except Exn Unit × GroupStore × List GroupConfig
  | store, [] => (.ok (), store, [])
  | store, cfg :: rest =>
    if storedConfig store cfg.id ≠ "" ∧ storedConfig store cfg.id ≠ cfg.toString then
      (.error (mismatch cfg.id), store, [])
    else
      let next := store.put cfg.id (publishedConfig cfg).toString (some lease)
      let (result, last, written) := publishConfigs lease next rest
      (result, last, cfg :: written)

/-- A history: what is stored, and the configurations that were published. -/
structure History where
  store : GroupStore
  published : List GroupConfig

/-- A coordinator publishes under its lease, which ends when it stops or when
it is not kept alive. -/
inductive Event where
  | publish (lease : Nat) (configs : List GroupConfig)
  | endLease (lease : Nat)

def start : History := ⟨.empty, []⟩

def next (w : History) : Event → Option History
  | .publish lease configs =>
    let (_, store, written) := publishConfigs lease w.store configs
    some ⟨store, written ++ w.published⟩
  | .endLease lease => some { w with store := w.store.endLease lease }

/-- A configuration that differs from one published for its group before is
refused, and what is stored for the group stays. -/
def GeometryKept (w : History) (lease : Nat) (configs : List GroupConfig) : Prop :=
  ∀ c ∈ w.published, ∀ d ∈ configs, d.id = c.id → d.geometry ≠ c.geometry →
    (∃ e, (publishConfigs lease w.store configs).1 = .error e) ∧
      (publishConfigs lease w.store configs).2.1.value c.id = w.store.value c.id

/-- The condition on the events: no configuration is bound to a lease that
ends. -/
def ConfigsOutlive (w : History) : Event → Prop
  | .publish _ _ => True
  | .endLease lease => w.store.Unbound lease

instance (w : History) (event : Event) : Decidable (ConfigsOutlive w event) := by
  cases event <;> unfold ConfigsOutlive <;> infer_instance

theorem publishedConfig_toString (cfg : GroupConfig) :
    (publishedConfig cfg).toString = cfg.toString := by
  unfold publishedConfig
  split
  case isTrue htype =>
    rw [GroupConfig.toString_inj]
    simp only [GroupConfig.geometry, htype, if_false]
  case isFalse => rfl

variable {store : GroupStore} {c : GroupConfig} {lease : Nat}

theorem storedConfig_of_value {id : Nat} {text : String} (h : store.value id = some text) :
    storedConfig store id = text := by
  rw [storedConfig, h, Option.getD_some]

theorem publishConfigs_value (lease : Nat) (configs : List GroupConfig)
    (h : store.value c.id = some c.toString) :
    (publishConfigs lease store configs).2.1.value c.id = some c.toString := by
  induction configs generalizing store with
  | nil => exact h
  | cons cfg rest ih =>
    unfold publishConfigs
    split
    case isTrue => exact h
    case isFalse hmatch =>
      apply ih
      rw [LeasedStore.value_put, publishedConfig_toString]
      split
      case isTrue heq =>
        rw [← heq, storedConfig_of_value h] at hmatch
        by_contra hne
        refine hmatch ⟨c.toString_ne_empty, ?_⟩
        intro hsame
        exact hne (by rw [hsame])
      case isFalse => exact h

theorem publishConfigs_refuses {d : GroupConfig} {configs : List GroupConfig}
    (h : store.value c.id = some c.toString) (hd : d ∈ configs) (hid : d.id = c.id)
    (hne : d.toString ≠ c.toString) : ∃ e, (publishConfigs lease store configs).1 = .error e := by
  induction configs generalizing store with
  | nil => cases hd
  | cons cfg rest ih =>
    unfold publishConfigs
    split
    case isTrue => exact ⟨_, rfl⟩
    case isFalse hmatch =>
      rcases mem_cons.mp hd with rfl | hd
      · rw [hid, storedConfig_of_value h] at hmatch
        exact absurd ⟨c.toString_ne_empty, hne.symm⟩ hmatch
      · refine ih ?_ hd
        have hkept := publishConfigs_value lease [cfg] h
        rw [publishConfigs, if_neg hmatch] at hkept
        exact hkept

theorem publishConfigs_written (configs : List GroupConfig)
    (hc : c ∈ (publishConfigs lease store configs).2.2) :
    (publishConfigs lease store configs).2.1.value c.id = some c.toString := by
  induction configs generalizing store with
  | nil => cases hc
  | cons cfg rest ih =>
    unfold publishConfigs at hc ⊢
    split at hc
    case isTrue => cases hc
    case isFalse hmatch =>
      rw [if_neg hmatch]
      rcases mem_cons.mp hc with rfl | hc
      · apply publishConfigs_value lease rest
        rw [LeasedStore.value_put, if_pos rfl, publishedConfig_toString]
      · exact ih hc

/-- What was published is stored, as long as no lease ends that it is bound
to. -/
theorem published_stored {w : History} (h : Reachable next ConfigsOutlive start w) :
    ∀ c ∈ w.published, w.store.value c.id = some c.toString := by
  induction h with
  | start => exact forall_mem_nil _
  | @step w w' event _ hok hnext ih =>
    cases event with
    | publish lease configs =>
      cases hnext
      intro c hc
      rcases mem_append.mp hc with hnew | hold
      · exact publishConfigs_written configs hnew
      · exact publishConfigs_value lease configs (ih c hold)
    | endLease lease =>
      cases hnext
      rw [LeasedStore.endLease_of_unbound hok]
      exact ih

/-- In every history in which no configuration is bound to a lease that ends,
a publication with another configuration for a published group is refused. -/
theorem geometry_kept {w : History} (h : Reachable next ConfigsOutlive start w) (lease : Nat)
    (configs : List GroupConfig) : GeometryKept w lease configs := by
  intro c hc d hd hid hne
  have hstored := published_stored h c hc
  refine ⟨publishConfigs_refuses hstored hd hid ?_, ?_⟩
  · intro htext
    exact hne (GroupConfig.toString_inj.mp htext)
  · rw [publishConfigs_value lease configs hstored, hstored]

def ecGroup (stripeSizeKib : Nat) : GroupConfig := ⟨0, .erasureCoding, 3, 2, 1, stripeSizeKib⟩

/-- A coordinator stops after another one has published the same group; a
third starts with another stripe size. -/
theorem geometry_kept_handover :
    ∃ w, (Reachable next ConfigsOutlive start w ∧ ecGroup 1024 ∈ w.published) ∧
      ∃ e, (publishConfigs 3 w.store [ecGroup 2024]).1 = .error e :=
  exists_and_sample
    [.publish 1 [ecGroup 1024], .publish 2 [ecGroup 1024], .endLease 1] (by decide +kernel)
    fun _ hw hpublished => (geometry_kept hw 3 [ecGroup 2024] (ecGroup 1024) hpublished
      (ecGroup 2024) (mem_singleton.mpr rfl) rfl (by decide)).1

/-- A coordinator that starts after the only one has stopped changes the
stripe size of a group. -/
theorem restart_changes_geometry :
    ∃ w, Reachable next (fun _ _ => True) start w ∧ ecGroup 1024 ∈ w.published ∧
      (publishConfigs 2 w.store [ecGroup 2024]).1 = .ok () ∧
      (publishConfigs 2 w.store [ecGroup 2024]).2.1.value 0 = some (ecGroup 2024).toString ∧
      ¬ GeometryKept w 2 [ecGroup 2024] := by
  have hrun : ∃ w, Reachable next (fun _ _ => True) start w ∧ ecGroup 1024 ∈ w.published ∧
      w.store.entries = [] :=
    exists_reachable_of_runWhile _ [.publish 1 [ecGroup 1024], .endLease 1] (by decide +kernel)
  obtain ⟨w, hw, hpublished, hempty⟩ := hrun
  have hstored : storedConfig w.store 0 = "" := by
    rw [storedConfig, LeasedStore.value, LeasedStore.lookup, hempty]
    rfl
  have hrun : publishConfigs 2 w.store [ecGroup 2024] =
      (.ok (), w.store.put 0 (ecGroup 2024).toString (some 2), [ecGroup 2024]) := by
    rw [publishConfigs, if_neg (fun h => h.1 hstored)]
    rfl
  refine ⟨w, hw, hpublished, by rw [hrun], ?_, ?_⟩
  · rw [hrun, LeasedStore.value_put, if_pos rfl]
  · intro hkept
    obtain ⟨⟨e, he⟩, -⟩ := hkept (ecGroup 1024) hpublished (ecGroup 2024)
      (mem_singleton.mpr rfl) rfl (by decide)
    rw [hrun] at he
    cases he

end UhCore.Coordinator
