import UhCore.Lib.LeasedStore
import UhCore.Lib.Transition

/-!
The ids of the services of one kind. A service that finds no identity file in
its data directory takes the next id under the global lock, from a counter
that is kept under the lease of the service that wrote it last. A read of the
counter that fails counts as the first use.
-/

namespace UhCore.Etcd.ServiceId

open Transition Function

/-- Where a process is in `get_service_id`. -/
inductive Phase where
  | stopped
  | waiting
  | locked
  | read (currentId : Option Nat)
  | written (id : Nat)
  | running (id : Nat)
  deriving DecidableEq

def Phase.holds : Phase → Bool
  | .locked | .read _ | .written _ => true
  | _ => false

/-- The process has found no identity file and has not written one yet. -/
def Phase.pending : Phase → Bool
  | .waiting | .locked | .read _ | .written _ => true
  | _ => false

/-- The counter that was read has a successor. -/
def Phase.HasNext : Phase → Prop
  | .read (some n) => n + 1 < 2 ^ 64
  | _ => True

instance (p : Phase) : Decidable p.HasNext := by
  unfold Phase.HasNext
  split <;> infer_instance

/-- The services by their data directories. Next to their state, the ids that
were returned are kept. -/
structure World (δ : Type) where
  store : LeasedStore Unit Nat
  lock : Option δ
  disk : δ → Option Nat
  phase : δ → Phase
  lease : δ → Nat
  granted : Nat
  obtained : List (δ × Nat)

/-- A service whose connection is lost gets a new lease when it has connected
again; the old one ends. -/
inductive Action (δ : Type) where
  | start (dir : δ)
  | acquire (dir : δ)
  | get (dir : δ) (fails : Bool)
  | put (dir : δ)
  | writeIdToDisk (dir : δ)
  | stop (dir : δ)
  | reconnect (dir : δ)

variable {δ : Type} [DecidableEq δ]

def World.counter (w : World δ) : Option Nat := w.store.value ()

def World.setPhase (w : World δ) (dir : δ) (phase : Phase) : World δ :=
  { w with phase := update w.phase dir phase }

theorem World.setPhase_phase (w : World δ) (dir d : δ) (phase : Phase) :
    (w.setPhase dir phase).phase d = if d = dir then phase else w.phase d :=
  Function.update_apply w.phase dir phase d

def World.newLease (w : World δ) (dir : δ) : World δ :=
  { w with lease := update w.lease dir w.granted, granted := w.granted + 1 }

/-- The id that follows the one read; ids are 64-bit words. -/
def nextId : Option Nat → Nat
  | none => 0
  | some currentId => (currentId + 1) % 2 ^ 64

def init : World δ := ⟨.empty, none, fun _ => none, fun _ => .stopped, fun _ => 0, 0, []⟩

def next (w : World δ) : Action δ → Option (World δ)
  | .start dir =>
    if w.phase dir = .stopped then
      match w.disk dir with
      | some id =>
        some { (w.newLease dir).setPhase dir (.running id) with
          obtained := (dir, id) :: w.obtained }
      | none => some ((w.newLease dir).setPhase dir .waiting)
    else none
  | .acquire dir =>
    if w.phase dir = .waiting ∧ w.lock = none then
      some { w.setPhase dir .locked with lock := some dir }
    else none
  | .get dir fails =>
    if w.phase dir = .locked then
      some (w.setPhase dir (.read (if fails then none else w.counter)))
    else none
  | .put dir =>
    match w.phase dir with
    | .read currentId =>
      some { w.setPhase dir (.written (nextId currentId)) with
        store := w.store.put () (nextId currentId) (some (w.lease dir)) }
    | _ => none
  | .writeIdToDisk dir =>
    match w.phase dir with
    | .written id =>
      some { w.setPhase dir (.running id) with
        disk := update w.disk dir (some id)
        lock := none
        obtained := (dir, id) :: w.obtained }
    | _ => none
  | .stop dir =>
    if w.phase dir = .stopped then none
    else
      some { w.setPhase dir .stopped with
        store := w.store.endLease (w.lease dir)
        lock := if w.lock = some dir then none else w.lock }
  | .reconnect dir =>
    if w.phase dir = .stopped then none
    else some { w.newLease dir with store := w.store.endLease (w.lease dir) }

/-- Services with different data directories have different ids, and a service
has one id. -/
def Unique (w : World δ) : Prop := ∀ a ∈ w.obtained, ∀ b ∈ w.obtained, a.1 = b.1 ↔ a.2 = b.2

instance (w : World δ) : Decidable (Unique w) :=
  inferInstanceAs (Decidable (∀ a ∈ w.obtained, ∀ b ∈ w.obtained, (a.1 = b.1 ↔ a.2 = b.2)))

/-- The condition on a step: the counter is not bound to a lease that ends, it
is not taken for absent, and it is not at its last value. -/
def CounterKept (w : World δ) : Action δ → Prop
  | .get _ fails => fails = true → w.counter = none
  | .put dir => (w.phase dir).HasNext
  | .stop dir | .reconnect dir => w.store.Unbound (w.lease dir)
  | _ => True

instance (w : World δ) (action : Action δ) : Decidable (CounterKept w action) := by
  cases action <;> unfold CounterKept <;> infer_instance

/-- The ids that were written to disk are different and not above the counter. -/
structure Inv (w : World δ) : Prop where
  obtained : ∀ a ∈ w.obtained, w.disk a.1 = some a.2
  below : ∀ dir id, w.disk dir = some id → ∃ n, w.counter = some n ∧ id ≤ n
  injective : ∀ dir dir' id, w.disk dir = some id → w.disk dir' = some id → dir = dir'
  holder : ∀ dir, (w.phase dir).holds = true → w.lock = some dir
  fresh : ∀ dir, (w.phase dir).pending = true → w.disk dir = none
  read : ∀ dir v, w.phase dir = .read v → w.counter = v
  written : ∀ dir id, w.phase dir = .written id →
    w.counter = some id ∧ ∀ dir' id', w.disk dir' = some id' → id' < id

omit [DecidableEq δ] in
theorem inv_init : Inv (init : World δ) where
  obtained := List.forall_mem_nil _
  below _ _ h := by cases h
  injective _ _ _ h := by cases h
  holder _ h := by cases h
  fresh _ h := by cases h
  read _ _ h := by cases h
  written _ _ h := by cases h

variable {dir : δ} {w w' : World δ}

theorem Inv.setPhase {w : World δ} (h : Inv w) {phase : Phase}
    (hholds : phase.holds = true → w.lock = some dir)
    (hpend : phase.pending = true → w.disk dir = none)
    (hread : ∀ v, phase = .read v → w.counter = v)
    (hwrite : ∀ id, phase = .written id → w.counter = some id ∧ ∀ dir' id', w.disk dir' = some id' → id' < id)
    : Inv (w.setPhase dir phase) := by
  have hphase : ∀ d, d = dir ∧ (w.setPhase dir phase).phase d = phase ∨
      (w.setPhase dir phase).phase d = w.phase d := by
    intro d
    rw [World.setPhase_phase]
    split
    case isTrue heq => exact .inl ⟨heq, rfl⟩
    case isFalse => exact .inr rfl
  refine ⟨h.obtained, h.below, h.injective, ?_, ?_, ?_, ?_⟩ <;> intro d <;>
    rcases hphase d with ⟨rfl, heq⟩ | heq <;> rw [heq]
  exacts [hholds, h.holder d, hpend, h.fresh d, hread, h.read d, hwrite, h.written d]

theorem Inv.newLease {w : World δ} (h : Inv w) (dir : δ) : Inv (w.newLease dir) :=
  ⟨h.obtained, h.below, h.injective, h.holder, h.fresh, h.read, h.written⟩

/-- A process that only starts or ends does not hold the lock. -/
theorem Inv.setPhase_free {w : World δ} (h : Inv w) {phase : Phase} (hholds : phase.holds = false)
    (hpend : phase.pending = true → w.disk dir = none) : Inv (w.setPhase dir phase) := by
  refine h.setPhase ?_ hpend ?_ ?_
  · intro htrue
    rw [hholds] at htrue
    cases htrue
  · rintro v rfl
    cases hholds
  · rintro id rfl
    cases hholds

omit [DecidableEq δ] in
theorem Inv.lt_nextId {w : World δ} (h : Inv w) {v : Option Nat} (hctr : w.counter = v)
    (hnext : (Phase.read v).HasNext) {id : Nat} (hdisk : w.disk dir = some id) : id < nextId v := by
  obtain ⟨n, hn, hle⟩ := h.below dir id hdisk
  rw [hctr] at hn
  subst hn
  have hlt : n + 1 < 2 ^ 64 := hnext
  rw [nextId, Nat.mod_eq_of_lt hlt]
  omega

omit [DecidableEq δ] in
theorem Inv.holds_false {w : World δ} (h : Inv w) {dir d : δ} (hlock : w.lock = some dir)
    (hne : d ≠ dir) : (w.phase d).holds = false := by
  by_contra htrue
  have hsame := h.holder d (Bool.eq_true_of_not_eq_false htrue)
  rw [hlock, Option.some.injEq] at hsame
  exact hne hsame.symm

theorem Inv.put (h : Inv w) (hkept : CounterKept w (.put dir)) {v : Option Nat}
    (hphase : w.phase dir = .read v) : Inv { w.setPhase dir (.written (nextId v)) with
      store := w.store.put () (nextId v) (some (w.lease dir)) } := by
  have hlock := h.holder dir (by rw [hphase]; rfl)
  have hfresh := h.fresh dir (by rw [hphase]; rfl)
  rw [CounterKept, hphase] at hkept
  have hlt : ∀ dir' id', w.disk dir' = some id' → id' < nextId v :=
    fun dir' id' hdisk => h.lt_nextId (h.read dir v hphase) hkept hdisk
  have hback : Inv (w.setPhase dir .locked) :=
    h.setPhase (fun _ => hlock) (fun _ => hfresh) nofun nofun
  have hctr : (w.store.put () (nextId v) (some (w.lease dir))).value () = some (nextId v) := by
    rw [LeasedStore.value_put, if_pos rfl]
  have hidle : ∀ d p, (w.setPhase dir .locked).phase d = p → p = .locked ∨ p.holds = false := by
    rintro d _ rfl
    rw [World.setPhase_phase]
    split
    · exact .inl rfl
    · rename_i hne
      exact .inr (h.holds_false hlock hne)
  have hset : Inv { w.setPhase dir .locked with
      store := w.store.put () (nextId v) (some (w.lease dir)) } :=
    { hback with
      below := fun dir' id' hdisk => ⟨_, hctr, (hlt dir' id' hdisk).le⟩
      read := fun d u hd => (hidle d _ hd).elim nofun nofun
      written := fun d id hd => (hidle d _ hd).elim nofun nofun }
  have hlast : Inv (World.setPhase { w.setPhase dir .locked with
      store := w.store.put () (nextId v) (some (w.lease dir)) } dir (.written (nextId v))) := by
    refine hset.setPhase (fun _ => hlock) (fun _ => hfresh) nofun ?_
    intro id hid
    cases hid
    exact ⟨hctr, hlt⟩
  rw [World.setPhase, World.setPhase, Function.update_idem] at hlast
  exact hlast

theorem Inv.writeIdToDisk (h : Inv w) {id : Nat} (hphase : w.phase dir = .written id) :
    Inv { w.setPhase dir (.running id) with
      disk := update w.disk dir (some id), lock := none, obtained := (dir, id) :: w.obtained } := by
  have hlock := h.holder dir (by rw [hphase]; rfl)
  have hfresh := h.fresh dir (by rw [hphase]; rfl)
  obtain ⟨hctr, hlt⟩ := h.written dir id hphase
  have hset : Inv (w.setPhase dir (.running id)) := h.setPhase_free rfl nofun
  have hfree : ∀ d p, (w.setPhase dir (.running id)).phase d = p → p.holds = false := by
    rintro d _ rfl
    rw [World.setPhase_phase]
    split
    · rfl
    · rename_i hne
      exact h.holds_false hlock hne
  have hold : ∀ {d i}, w.disk d = some i → d ≠ dir := by
    rintro d i hdisk rfl
    rw [hfresh] at hdisk
    cases hdisk
  have hcases : ∀ {d i}, update w.disk dir (some id) d = some i →
      d = dir ∧ i = id ∨ w.disk d = some i := by
    intro d i hdisk
    rw [Function.update_apply] at hdisk
    split at hdisk
    · exact .inl ⟨by assumption, (Option.some.inj hdisk).symm⟩
    · exact .inr hdisk
  refine ⟨?_, ?_, ?_, ?_, ?_, ?_, ?_⟩
  · refine List.forall_mem_cons.mpr ⟨update_self dir (some id) w.disk, ?_⟩
    intro a ha
    have hdisk := h.obtained a ha
    exact (update_of_ne (hold hdisk) (some id) w.disk).trans hdisk
  · intro d i hdisk
    rcases hcases hdisk with ⟨-, rfl⟩ | hdisk
    · exact ⟨i, hctr, le_rfl⟩
    · exact ⟨id, hctr, (hlt d i hdisk).le⟩
  · intro d d' i hdisk hdisk'
    rcases hcases hdisk with ⟨rfl, rfl⟩ | hd
    · rcases hcases hdisk' with ⟨rfl, -⟩ | hd'
      · rfl
      · exact absurd (hlt d' i hd') (lt_irrefl i)
    · rcases hcases hdisk' with ⟨rfl, rfl⟩ | hd'
      · exact absurd (hlt d i hd) (lt_irrefl i)
      · exact h.injective d d' i hd hd'
  · intro d hd
    exact absurd ((hfree d _ rfl).symm.trans hd) Bool.false_ne_true
  · intro d hd
    have hne : d ≠ dir := by
      rintro rfl
      have hfree : ((w.setPhase d (.running id)).phase d).pending = true := hd
      rw [World.setPhase_phase, if_pos rfl] at hfree
      cases hfree
    exact (update_of_ne hne (some id) w.disk).trans (hset.fresh d hd)
  · exact fun d _ hd => nomatch hfree d _ hd
  · exact fun d _ hd => nomatch hfree d _ hd

theorem Inv.next (h : Inv w) {action : Action δ} (hkept : CounterKept w action)
    (hnext : next w action = some w') : Inv w' := by
  revert hnext
  fun_cases ServiceId.next w action <;> intro hnext <;> cases hnext
  case case1 dir _ id hdisk =>
    have hset : Inv ((w.newLease dir).setPhase dir (.running id)) :=
      (h.newLease dir).setPhase_free rfl nofun
    exact { hset with obtained := List.forall_mem_cons.mpr ⟨hdisk, h.obtained⟩ }
  case case2 dir _ hdisk => exact (h.newLease dir).setPhase_free rfl fun _ => hdisk
  case case4 dir hfree =>
    have hlocked : Inv { w with lock := some dir } := by
      refine { h with holder := ?_ }
      intro d hd
      cases hfree.2.symm.trans (h.holder d hd)
    exact hlocked.setPhase (fun _ => rfl) (fun _ => h.fresh dir (by rw [hfree.1]; rfl)) nofun nofun
  case case6 dir fails hlocked =>
    have hholds : (w.phase dir).holds = true := by rw [hlocked]; rfl
    have hpend : (w.phase dir).pending = true := by rw [hlocked]; rfl
    refine h.setPhase (fun _ => h.holder dir hholds) (fun _ => h.fresh dir hpend) ?_ nofun
    intro v hv
    rw [← Phase.read.inj hv]
    split
    case isTrue hfails => exact hkept hfails
    case isFalse => rfl
  case case8 hphase => exact h.put hkept hphase
  case case10 hphase => exact h.writeIdToDisk hphase
  case case13 dir _ =>
    rw [LeasedStore.endLease_of_unbound hkept]
    have hset : Inv (w.setPhase dir .stopped) := h.setPhase_free rfl nofun
    refine { hset with holder := ?_ }
    intro d hd
    have hlock := hset.holder d hd
    have hne : d ≠ dir := by
      rintro rfl
      have hfree : ((w.setPhase d .stopped).phase d).holds = true := hd
      rw [World.setPhase_phase, if_pos rfl] at hfree
      cases hfree
    rw [if_neg]
    · exact hlock
    · intro hsame
      exact hne (Option.some.inj (hlock.symm.trans hsame))
  case case15 dir _ =>
    rw [LeasedStore.endLease_of_unbound hkept]
    exact h.newLease dir

/-- In every history whose steps keep the counter, services with different
data directories have different ids, and a restarted service has the id it
had. -/
theorem service_ids_unique {w : World δ} (h : Reachable ServiceId.next CounterKept init w) :
    Unique w := by
  have hinv : Inv w := h.invariant inv_init fun _ _ _ hinv hkept hnext => hinv.next hkept hnext
  intro a ha b hb
  have hdisk := hinv.obtained a ha
  have hdisk' := hinv.obtained b hb
  constructor
  · intro heq
    rw [heq, hdisk', Option.some.injEq] at hdisk
    exact hdisk.symm
  · intro heq
    rw [heq] at hdisk
    exact hinv.injective a.1 b.1 b.2 hdisk hdisk'

/-- The steps of a service that starts for the first time. -/
def firstStart (dir : String) : List (Action String) :=
  [.start dir, .acquire dir, .get dir false, .put dir, .writeIdToDisk dir]

/-- Three services, of which the first is restarted after the second has
written the counter. -/
theorem service_ids_unique_three :
    ∃ w : World String, (Reachable ServiceId.next CounterKept init w ∧
        w.obtained = [("a", 0), ("c", 2), ("b", 1), ("a", 0)]) ∧ Unique w :=
  exists_and_sample
    (firstStart "a" ++ firstStart "b" ++ .stop "a" :: firstStart "c" ++ [.start "a"])
    (by decide +kernel) fun _ hw _ => service_ids_unique hw

/-- A service that starts after the first one has stopped gets the same id. -/
theorem stopped_service_id_reused :
    ∃ w : World String, Reachable ServiceId.next (fun _ _ => True) init w ∧
      w.obtained = [("b", 0), ("a", 0)] ∧ ¬ Unique w := by
  have hrun : ∃ w : World String, Reachable ServiceId.next (fun _ _ => True) init w ∧
      w.obtained = [("b", 0), ("a", 0)] :=
    exists_reachable_of_runWhile _ (firstStart "a" ++ .stop "a" :: firstStart "b")
      (by decide +kernel)
  obtain ⟨w, hw, hobtained⟩ := hrun
  refine ⟨w, hw, hobtained, ?_⟩
  rw [Unique, hobtained]
  decide

end UhCore.Etcd.ServiceId
