import UhCore.Lib.LeasedStore
import UhCore.Lib.Transition

/-!
Keys that processes register in etcd. A key is bound to the lease that its
process has when it writes it. A process that has lost its connection makes a
new client with a new lease; the keys stay bound to the old one, which is not
kept alive any more.
-/

namespace UhCore.Etcd.Registrations

open Transition List Option Registrations LeasedStore

/-- An `etcd_manager`: its lease, whether its connection stands, and the
leases of its earlier connections. -/
structure Manager where
  lease : Nat
  connected : Bool
  earlier : List Nat
  deriving DecidableEq

/-- A key that a process has written and not removed, with the lease it was
last written under. -/
structure Registration where
  process : Nat
  key : String
  lease : Nat
  deriving DecidableEq

/-- The leases that were granted and have not ended, and among them those that
a connected manager keeps alive. -/
structure World where
  store : LeasedStore String String
  manager : Nat → Option Manager
  live : List Nat
  kept : List Nat
  granted : Nat
  registered : List Registration

inductive Action where
  | start (process : Nat)
  | put (process : Nat) (key value : String)
  | createIfEmpty (process : Nat) (key value : String)
  | rm (process : Nat) (key : String)
  | lose (process : Nat)
  | reset (process : Nat)
  | stop (process : Nat)
  | crash (process : Nat)
  | expire (lease : Nat)

def init : World := ⟨.empty, fun _ => none, [], [], 0, []⟩

def World.connected (w : World) (process : Nat) : Option Manager :=
  (w.manager process).filter fun m => m.connected

def World.setManager (w : World) (process : Nat) (m : Option Manager) : World :=
  { w with manager := Function.update w.manager process m }

/-- A new lease, which is kept alive. -/
def World.grant (w : World) : World :=
  { w with live := w.granted :: w.live, kept := w.granted :: w.kept, granted := w.granted + 1 }

/-- A lease is not kept alive any more. -/
def World.neglect (w : World) (lease : Nat) : World :=
  { w with kept := w.kept.filter fun l => decide (l ≠ lease) }

def World.endLease (w : World) (lease : Nat) : World :=
  { w with
    store := w.store.endLease lease
    live := w.live.filter fun l => decide (l ≠ lease) }

def World.others (w : World) (process : Nat) (key : String) : List Registration :=
  w.registered.filter fun r => decide (¬ (r.process = process ∧ r.key = key))

def World.register (w : World) (process : Nat) (key value : String) (lease : Nat) : World :=
  { w with
    store := w.store.put key value (some lease)
    registered := ⟨process, key, lease⟩ :: w.others process key }

/-- The registrations of a process that has ended. -/
def World.forget (w : World) (process : Nat) : World :=
  { w with registered := w.registered.filter fun r => decide (r.process ≠ process) }

def next (w : World) : Action → Option World
  | .start process =>
    match w.manager process with
    | none => some (w.grant.setManager process (some ⟨w.granted, true, []⟩))
    | some _ => none
  | .put process key value =>
    (w.connected process).map fun m => w.register process key value m.lease
  | .createIfEmpty process key value =>
    (w.connected process).map fun m =>
      if (w.store.lookup key).isSome then w else w.register process key value m.lease
  | .rm process key =>
    (w.connected process).map fun _ =>
      { w with store := w.store.delete key, registered := w.others process key }
  | .lose process =>
    (w.connected process).map fun m =>
      (w.neglect m.lease).setManager process (some { m with connected := false })
  | .reset process =>
    match w.manager process with
    | some m =>
      if m.connected then none
      else some (w.grant.setManager process
        (some ⟨w.granted, true, m.lease :: m.earlier⟩))
    | none => none
  | .stop process =>
    (w.manager process).map fun m =>
      (((w.neglect m.lease).endLease m.lease).forget process).setManager process none
  | .crash process =>
    (w.manager process).map fun m =>
      ((w.neglect m.lease).forget process).setManager process none
  | .expire lease => if lease ∈ w.kept then none else some (w.endLease lease)

/-- The process is alive and connected, and the leases of its earlier
connections have ended. -/
def Settled (w : World) (process : Nat) (m : Manager) : Prop :=
  w.manager process = some m ∧ m.connected = true ∧ ∀ lease ∈ m.earlier, lease ∉ w.live

def Registered (w : World) (process : Nat) : Prop :=
  ∀ r ∈ w.registered, r.process = process → (w.store.lookup r.key).isSome = true

/-- Every key that the process has registered was last written under its
present lease: there was no reset since. -/
def WrittenSinceReset (w : World) (process : Nat) (m : Manager) : Prop :=
  ∀ r ∈ w.registered, r.process = process → r.lease = m.lease

/-- No process writes or removes a key that another one has registered. -/
def OwnKeys (w : World) : Action → Prop
  | .put process key _ | .createIfEmpty process key _ | .rm process key =>
    ∀ r ∈ w.registered, r.key = key → r.process = process
  | _ => True

instance (w : World) (action : Action) : Decidable (OwnKeys w action) := by
  cases action <;> unfold OwnKeys <;> infer_instance

/-- The keys that are registered are bound to the lease they were written
under, and are there as long as it lives. -/
structure Inv (w : World) : Prop where
  bound : ∀ r ∈ w.registered, r.lease ∈ w.live →
    ∃ value, w.store.lookup r.key = some ⟨value, some r.lease⟩
  gone : ∀ r ∈ w.registered, r.lease ∉ w.live → w.store.lookup r.key = none
  owner : ∀ r ∈ w.registered, ∃ m, w.manager r.process = some m ∧
    (r.lease = m.lease ∨ r.lease ∈ m.earlier)
  kept : ∀ process m, w.manager process = some m → m.connected = true → m.lease ∈ w.kept
  live : ∀ lease ∈ w.kept, lease ∈ w.live
  granted : ∀ lease ∈ w.live, lease < w.granted
  leases : ∀ process m, w.manager process = some m →
    m.lease < w.granted ∧ ∀ lease ∈ m.earlier, lease < w.granted
  distinct : ∀ p p' m m', w.manager p = some m → w.manager p' = some m' →
    m.lease = m'.lease → p = p'

theorem inv_init : Inv init where
  bound := forall_mem_nil _
  gone := forall_mem_nil _
  owner := forall_mem_nil _
  kept _ _ h := by cases h
  live := forall_mem_nil _
  granted := forall_mem_nil _
  leases _ _ h := by cases h
  distinct _ _ _ _ h := by cases h

theorem manager_setManager (w : World) (process p : Nat) (m : Option Manager) :
    (w.setManager process m).manager p = if p = process then m else w.manager p :=
  Function.update_apply w.manager process m p

variable {w : World} {process : Nat} {m : Manager} {key : String}

theorem Inv.registration_lt (h : Inv w) {r : Registration} (hr : r ∈ w.registered) :
    r.lease < w.granted := by
  obtain ⟨m, hm, hlease⟩ := h.owner r hr
  obtain ⟨hlt, hearlier⟩ := h.leases r.process m hm
  rcases hlease with heq | hmem
  · exact heq ▸ hlt
  · exact hearlier r.lease hmem

theorem manager_cases {p : Nat} {m : Option Manager} {m' : Manager}
    (h : (w.setManager process m).manager p = some m') :
    p = process ∧ m = some m' ∨ p ≠ process ∧ w.manager p = some m' := by
  rw [manager_setManager] at h
  split at h
  case isTrue heq => exact .inl ⟨heq, h⟩
  case isFalse hne => exact .inr ⟨hne, h⟩

theorem Inv.setManager (h : Inv w) {m : Option Manager}
    (howner : ∀ r ∈ w.registered, r.process = process →
      ∃ m', m = some m' ∧ (r.lease = m'.lease ∨ r.lease ∈ m'.earlier))
    (hkept : ∀ m' ∈ m, m'.connected = true → m'.lease ∈ w.kept)
    (hleases : ∀ m' ∈ m, m'.lease < w.granted ∧ ∀ lease ∈ m'.earlier, lease < w.granted)
    (hdistinct : ∀ m' ∈ m, ∀ p m₂, w.manager p = some m₂ → m'.lease = m₂.lease → process = p) :
    Inv (w.setManager process m) where
  bound := h.bound
  gone := h.gone
  owner r hr := by
    rw [manager_setManager]
    split
    case isTrue heq => exact howner r hr heq
    case isFalse => exact h.owner r hr
  kept p m' hm := by
    rcases manager_cases hm with ⟨_, hnew⟩ | ⟨_, hm⟩
    · exact hkept m' hnew
    · exact h.kept p m' hm
  live := h.live
  granted := h.granted
  leases p m' hm := by
    rcases manager_cases hm with ⟨_, hnew⟩ | ⟨_, hm⟩
    · exact hleases m' hnew
    · exact h.leases p m' hm
  distinct p p' m₁ m₂ hm hm' heq := by
    rcases manager_cases hm with ⟨hp, hm⟩ | ⟨_, hm⟩ <;>
      rcases manager_cases hm' with ⟨hp', hm'⟩ | ⟨_, hm'⟩
    · rw [hp, hp']
    · exact hp ▸ hdistinct m₁ hm p' m₂ hm' heq
    · exact hp' ▸ (hdistinct m₂ hm' p m₁ hm heq.symm).symm
    · exact h.distinct p p' m₁ m₂ hm hm' heq

theorem Inv.grant (h : Inv w) : Inv w.grant where
  bound r hr hlive := by
    apply h.bound r hr
    rcases mem_cons.mp hlive with heq | hmem
    · exact absurd (h.registration_lt hr) (heq ▸ lt_irrefl _)
    · exact hmem
  gone r hr hlive := h.gone r hr fun hmem => hlive (mem_cons_of_mem _ hmem)
  owner := h.owner
  kept p m hm hconn := mem_cons_of_mem _ (h.kept p m hm hconn)
  live := forall_mem_cons.mpr ⟨mem_cons_self, fun l hl => mem_cons_of_mem _ (h.live l hl)⟩
  granted := forall_mem_cons.mpr ⟨Nat.lt_succ_self _, fun l hl => Nat.lt_succ_of_lt (h.granted l hl)⟩
  leases p m hm := by
    obtain ⟨hlt, hall⟩ := h.leases p m hm
    exact ⟨Nat.lt_succ_of_lt hlt, fun l hl => Nat.lt_succ_of_lt (hall l hl)⟩
  distinct := h.distinct

theorem Inv.connect (h : Inv w) {earlier : List Nat} (hearlier : ∀ lease ∈ earlier, lease < w.granted)
    (howner : ∀ r ∈ w.registered, r.process = process → r.lease ∈ earlier) :
    Inv (w.grant.setManager process (some ⟨w.granted, true, earlier⟩)) := by
  apply h.grant.setManager
  · exact fun r hr heq => ⟨_, rfl, .inr (howner r hr heq)⟩
  all_goals rintro _ ⟨⟩
  · exact fun _ => mem_cons_self
  · exact ⟨Nat.lt_succ_self _, fun l hl => Nat.lt_succ_of_lt (hearlier l hl)⟩
  · intro p m hm heq
    exact absurd (h.leases p m hm).1 (heq ▸ lt_irrefl _)

theorem Inv.endLease (h : Inv w) {lease : Nat} (hkept : lease ∉ w.kept) :
    Inv (w.endLease lease) where
  bound r hr hlive := by
    obtain ⟨hmem, hne⟩ := mem_filter.mp hlive
    obtain ⟨value, hlook⟩ := h.bound r hr hmem
    refine ⟨value, lookup_endLease.mpr ⟨hlook, ?_⟩⟩
    intro heq
    exact of_decide_eq_true hne (some.inj heq)
  gone r hr hlive := by
    rw [eq_none_iff_forall_ne_some]
    intro entry hentry
    obtain ⟨hlook, hne⟩ := lookup_endLease.mp hentry
    by_cases hmem : r.lease ∈ w.live
    · obtain ⟨value, hbound⟩ := h.bound r hr hmem
      rw [hbound, some.injEq] at hlook
      refine hlive (mem_filter.mpr ⟨hmem, decide_eq_true ?_⟩)
      intro heq
      rw [← hlook, heq] at hne
      exact hne rfl
    · rw [h.gone r hr hmem] at hlook
      cases hlook
  owner := h.owner
  kept := h.kept
  live l hl := by
    refine mem_filter.mpr ⟨h.live l hl, decide_eq_true ?_⟩
    rintro rfl
    exact hkept hl
  granted l hl := h.granted l (mem_filter.mp hl).1
  leases := h.leases
  distinct := h.distinct

theorem Inv.neglect (h : Inv w) {lease : Nat}
    (hfree : ∀ p m, w.manager p = some m → m.connected = true → m.lease ≠ lease) :
    Inv (w.neglect lease) :=
  { h with
    kept := fun p m hm hconn =>
      mem_filter.mpr ⟨h.kept p m hm hconn, decide_eq_true (hfree p m hm hconn)⟩
    live := fun l hl => h.live l (mem_filter.mp hl).1 }

theorem Inv.lose (h : Inv w) (hm : w.manager process = some m) :
    Inv ((w.neglect m.lease).setManager process (some { m with connected := false })) := by
  have hset : Inv (w.setManager process (some { m with connected := false })) := by
    apply h.setManager
    · intro r hr heq
      obtain ⟨m', hm', hlease⟩ := h.owner r hr
      rw [heq, hm, some.injEq] at hm'
      exact ⟨_, rfl, hm' ▸ hlease⟩
    all_goals rintro _ ⟨⟩
    · exact nofun
    · exact h.leases process m hm
    · exact fun p m' hm' => h.distinct process p m m' hm hm'
  apply hset.neglect
  intro p m' hm' hconn heq
  rcases manager_cases hm' with ⟨rfl, ⟨⟩⟩ | ⟨hne, hm'⟩
  · cases hconn
  · exact hne (h.distinct p process m' m hm' hm heq)

/-- A process ends; its lease lives on until it expires. -/
theorem Inv.crash (h : Inv w) (hm : w.manager process = some m) :
    Inv (((w.neglect m.lease).forget process).setManager process none) := by
  have hmem : ∀ {r}, r ∈ (w.forget process).registered → r ∈ w.registered ∧ r.process ≠ process :=
    fun hr => ⟨(mem_filter.mp hr).1, of_decide_eq_true (mem_filter.mp hr).2⟩
  have hforget : Inv (w.forget process) :=
    { h with
      bound := fun r hr => h.bound r (hmem hr).1
      gone := fun r hr => h.gone r (hmem hr).1
      owner := fun r hr => h.owner r (hmem hr).1 }
  have hset : Inv ((w.forget process).setManager process none) :=
    hforget.setManager (fun r hr heq => absurd heq (hmem hr).2) nofun nofun nofun
  apply hset.neglect
  intro p m' hm' _ heq
  obtain ⟨_, ⟨⟩⟩ | ⟨hne, hm'⟩ := manager_cases hm'
  exact hne (h.distinct p process m' m hm' hm heq)

theorem mem_others (hown : ∀ r ∈ w.registered, r.key = key → r.process = process) {r : Registration}
    (hr : r ∈ w.others process key) : r ∈ w.registered ∧ r.key ≠ key := by
  obtain ⟨hmem, hne⟩ := mem_filter.mp hr
  refine ⟨hmem, ?_⟩
  intro hkey
  exact of_decide_eq_true hne ⟨hown r hmem hkey, hkey⟩

theorem Inv.others (h : Inv w) (hown : ∀ r ∈ w.registered, r.key = key → r.process = process)
    {store : LeasedStore String String} (hstore : ∀ k ≠ key, store.lookup k = w.store.lookup k) :
    Inv { w with store := store, registered := w.others process key } := by
  refine ⟨?_, ?_, ?_, h.kept, h.live, h.granted, h.leases, h.distinct⟩ <;> intro r hr <;>
    obtain ⟨hmem, hne⟩ := mem_others hown hr
  · rw [hstore r.key hne]
    exact h.bound r hmem
  · rw [hstore r.key hne]
    exact h.gone r hmem
  · exact h.owner r hmem

theorem Inv.register (h : Inv w) (hm : w.manager process = some m) (hconn : m.connected = true)
    (hown : ∀ r ∈ w.registered, r.key = key → r.process = process) (value : String) :
    Inv (w.register process key value m.lease) := by
  have hlive := h.live m.lease (h.kept process m hm hconn)
  have hrest := h.others hown (fun k hne =>
    (lookup_put w.store key k value (some m.lease)).trans (if_neg hne))
  refine ⟨forall_mem_cons.mpr ⟨fun _ => ⟨value, ?_⟩, hrest.bound⟩, forall_mem_cons.mpr ⟨?_, hrest.gone⟩,
    forall_mem_cons.mpr ⟨⟨m, hm, .inl rfl⟩, hrest.owner⟩, h.kept, h.live, h.granted, h.leases,
    h.distinct⟩
  · exact (lookup_put ..).trans (if_pos rfl)
  · exact fun hdead => absurd hlive hdead

theorem connected_eq_some :
    w.connected process = some m ↔ w.manager process = some m ∧ m.connected = true := by
  rw [World.connected, filter_eq_some_iff]

theorem Inv.stop (h : Inv w) (hm : w.manager process = some m) :
    Inv ((((w.neglect m.lease).endLease m.lease).forget process).setManager process none) := by
  have hkept : m.lease ∉ (((w.neglect m.lease).forget process).setManager process none).kept := by
    intro hmem
    exact of_decide_eq_true (mem_filter.mp hmem).2 rfl
  exact (h.crash hm).endLease hkept

theorem Inv.start (h : Inv w) (hm : w.manager process = none) :
    Inv (w.grant.setManager process (some ⟨w.granted, true, []⟩)) := by
  apply h.connect (forall_mem_nil _)
  intro r hr heq
  obtain ⟨m, hm', -⟩ := h.owner r hr
  rw [heq, hm] at hm'
  cases hm'

theorem Inv.reset (h : Inv w) (hm : w.manager process = some m) :
    Inv (w.grant.setManager process (some ⟨w.granted, true, m.lease :: m.earlier⟩)) := by
  obtain ⟨hlt, hearlier⟩ := h.leases process m hm
  apply h.connect (forall_mem_cons.mpr ⟨hlt, hearlier⟩)
  intro r hr heq
  obtain ⟨m', hm', hlease⟩ := h.owner r hr
  rw [heq, hm, some.injEq] at hm'
  subst hm'
  rcases hlease with hlease | hmem
  · exact hlease ▸ mem_cons_self
  · exact mem_cons_of_mem _ hmem

theorem Inv.next {w w' : World} (h : Inv w) {action : Action} (hown : OwnKeys w action)
    (hnext : next w action = some w') : Inv w' := by
  revert hnext
  fun_cases Registrations.next w action <;> intro hnext <;> try cases hnext
  case case1 hm => exact h.start hm
  case case3 value =>
    obtain ⟨m, hm, rfl⟩ := map_eq_some_iff.mp hnext
    obtain ⟨hm, hconn⟩ := connected_eq_some.mp hm
    exact h.register hm hconn hown value
  case case4 value =>
    obtain ⟨m, hm, rfl⟩ := map_eq_some_iff.mp hnext
    obtain ⟨hm, hconn⟩ := connected_eq_some.mp hm
    split
    · exact h
    · exact h.register hm hconn hown value
  case case5 =>
    obtain ⟨m, hm, rfl⟩ := map_eq_some_iff.mp hnext
    exact h.others hown fun k hne => by rw [lookup_delete, if_neg hne]
  case case6 =>
    obtain ⟨m, hm, rfl⟩ := map_eq_some_iff.mp hnext
    exact h.lose (connected_eq_some.mp hm).1
  case case8 hm _ => exact h.reset hm
  case case10 =>
    obtain ⟨m, hm, rfl⟩ := map_eq_some_iff.mp hnext
    exact h.stop hm
  case case11 =>
    obtain ⟨m, hm, rfl⟩ := map_eq_some_iff.mp hnext
    exact h.crash hm
  case case13 hkept => exact h.endLease hkept

/-- In every history in which no process touches the keys of another: once a
process has connected again and its earlier leases have ended, its keys are
there exactly if it has written each of them since its last reset. -/
theorem registered_iff_written_since_reset {w : World}
    (h : Reachable next OwnKeys init w) {process : Nat} {m : Manager}
    (hsettled : Settled w process m) :
    Registered w process ↔ WrittenSinceReset w process m := by
  have hinv : Inv w := h.invariant inv_init fun _ _ _ hinv hown hnext => hinv.next hown hnext
  obtain ⟨hm, hconnected, hearlier⟩ := hsettled
  have hlive := hinv.live m.lease (hinv.kept process m hm hconnected)
  refine forall₂_congr fun r hr => imp_congr_right fun heq => ?_
  obtain ⟨m', hm', hlease⟩ := hinv.owner r hr
  rw [heq, hm, some.injEq] at hm'
  subst hm'
  constructor
  · intro hsome
    rcases hlease with hlease | hmem
    · exact hlease
    · rw [hinv.gone r hr (hearlier r.lease hmem)] at hsome
      cases hsome
  · intro hsame
    obtain ⟨value, hlookup⟩ := hinv.bound r hr (hsame ▸ hlive)
    rw [hlookup]
    rfl

/-- A storage that publishes its state again after it has connected again. -/
theorem registered_iff_written_since_reset_republished :
    ∃ w, (Reachable next OwnKeys init w ∧ Settled w 0 ⟨1, true, [0]⟩ ∧
        WrittenSinceReset w 0 ⟨1, true, [0]⟩ ∧ w.registered.length = 1) ∧ Registered w 0 := by
  have hrun : ∃ w, Reachable next OwnKeys init w ∧
      w.manager 0 = some ⟨1, true, [0]⟩ ∧ w.live = [1] ∧
        w.registered = [⟨0, "/vrm/storage_groups/0/storage_states/0", 1⟩] :=
    exists_reachable_of_runWhile _
      [.start 0, .put 0 "/vrm/storage_groups/0/storage_states/0" "0", .lose 0, .reset 0,
        .put 0 "/vrm/storage_groups/0/storage_states/0" "1", .expire 0] (by decide +kernel)
  obtain ⟨w, hw, hm, hlive, hregistered⟩ := hrun
  have hsettled : Settled w 0 ⟨1, true, [0]⟩ := by
    refine ⟨hm, rfl, ?_⟩
    rw [hlive]
    decide
  have hwritten : WrittenSinceReset w 0 ⟨1, true, [0]⟩ := by
    rw [WrittenSinceReset, hregistered]
    decide
  exact ⟨w, ⟨hw, hsettled, hwritten, by rw [hregistered]; rfl⟩,
    (registered_iff_written_since_reset hw hsettled).mpr hwritten⟩

/-- A service that has connected again has lost its registration. -/
theorem reset_loses_registration :
    ∃ w, Reachable next (fun _ _ => True) init w ∧
      Settled w 0 ⟨1, true, [0]⟩ ∧ ¬ Registered w 0 := by
  have hrun : ∃ w, Reachable next (fun _ _ => True) init w ∧
      w.manager 0 = some ⟨1, true, [0]⟩ ∧ w.live = [1] ∧
        w.registered = [⟨0, "/vrm/entrypoint/hostports/0", 0⟩] ∧ w.store.entries = [] :=
    exists_reachable_of_runWhile _
      [.start 0, .put 0 "/vrm/entrypoint/hostports/0" "10.0.0.1:80", .lose 0, .reset 0,
        .expire 0] (by decide +kernel)
  obtain ⟨w, hw, hm, hlive, hregistered, hempty⟩ := hrun
  refine ⟨w, hw, ⟨hm, rfl, ?_⟩, ?_⟩
  · rw [hlive]
    decide
  · rw [Registered, hregistered]
    intro hall
    have hsome := hall _ (mem_singleton.mpr rfl) rfl
    rw [LeasedStore.lookup, hempty] at hsome
    cases hsome

end UhCore.Etcd.Registrations
