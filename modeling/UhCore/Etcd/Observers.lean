import Mathlib.Data.List.Dedup
import UhCore.Lib.Transition

/-!
Observers of keys in etcd. A subscriber reads the keys below its own key and
then watches them from the next revision on; the watchers are made anew after
a lost connection, from the revision of that moment on.

Etcd is the list of its changes; a revision is a number of changes.
-/

namespace UhCore.Etcd.Observers

open Transition List Function Observers List

/-- A key gets a value or is deleted. -/
structure Change where
  key : String
  value : Option String
  deriving DecidableEq

/-- The values of the keys after some changes. -/
def held (log : List Change) : String → Option String :=
  log.foldl (fun store c => update store c.key c.value) fun _ => none

/-- What `ls` returns: the keys that have a value, each once. -/
def snapshot (log : List Change) : List Change :=
  ((log.map Change.key).dedup.map fun key => (⟨key, held log key⟩ : Change)).filter
    fun c => c.value.isSome

def Below (watched key : String) : Prop := watched.toList <+: key.toList

instance (watched key : String) : Decidable (Below watched key) :=
  inferInstanceAs (Decidable (_ <+: _))

/-- An observer of one or more keys: the member that a key belongs to as the
observer reads it, and the key of each member. -/
structure Observer (τ : Type) where
  members : Nat
  slotOf : String → Option Nat
  keyOf : Nat → String
  default : τ
  deserialize : String → Option τ
  addressed : ∀ i < members, slotOf (keyOf i) = some i

variable {τ : Type}

def valueObserver (expectedKey : String) (default : τ) (deserialize : String → Option τ) :
    Observer τ where
  members := 1
  slotOf key := if key ≠ expectedKey then none else some 0
  keyOf _ := expectedKey
  default := default
  deserialize := deserialize
  addressed i hi := by
    rw [if_neg (not_not.mpr rfl), Nat.lt_one_iff.mp hi]

/-- The functions of `std` that take a key apart. -/
structure PathFunctions where
  hasParent : String → String → Bool
  filename : String → String
  stoul : String → Option Nat

/-- The member that a key is taken for. -/
def PathFunctions.slotOf (std : PathFunctions) (parent key : String) : Option Nat :=
  if std.hasParent key parent then std.stoul (std.filename key) else none

def memberKey (parent : String) (i : Nat) : String := parent ++ "/" ++ Nat.repr i

def vectorObserver (std : PathFunctions) (expectedParentKey : String) (numMembers : Nat)
    (default : τ) (deserialize : String → Option τ)
    (hstd : ∀ i < numMembers, std.slotOf expectedParentKey (memberKey expectedParentKey i) =
      some i) : Observer τ where
  members := numMembers
  slotOf := std.slotOf expectedParentKey
  keyOf := memberKey expectedParentKey
  default := default
  deserialize := deserialize
  addressed := hstd

namespace Observer

/-- The values before anything is read. -/
def initial (o : Observer τ) : List τ := replicate o.members o.default

/-- `on_watch`. A value that cannot be read is logged and leaves the member as
it is. -/
def onWatch (o : Observer τ) (values : List τ) (c : Change) : List τ :=
  match o.slotOf c.key with
  | none => values
  | some i =>
    match c.value with
    | none => values.set i o.default
    | some text =>
      match o.deserialize text with
      | none => values
      | some v => values.set i v

def Canonical (o : Observer τ) (key : String) : Prop :=
  ∀ i ∈ o.slotOf key, i < o.members ∧ key = o.keyOf i

instance (o : Observer τ) (key : String) : Decidable (o.Canonical key) :=
  inferInstanceAs (Decidable (∀ i ∈ o.slotOf key, _))

/-- Each member has the value that is held for its key, or the default value
if there is none; nothing is said of a text that is no value. -/
def Agrees (o : Observer τ) (values : List τ) (store : String → Option String) : Prop :=
  values.length = o.members ∧ ∀ i < o.members,
    (store (o.keyOf i) = none → values[i]? = some o.default) ∧
    ∀ text v, store (o.keyOf i) = some text → o.deserialize text = some v → values[i]? = some v

end Observer

/-- A subscriber with its observers and their values. The watcher is at the
next change to deliver; `seen` is the number of changes that the observers are
taken to know. -/
structure Subscriber (τ : Type) where
  watched : String
  observers : List (Observer τ × List τ)
  watcher : Option Nat
  seen : Nat

/-- A manager is up from the moment it has a client that is connected. -/
structure World (τ : Type) where
  log : List Change
  up : Bool
  subscribers : List (Subscriber τ)

inductive Action (τ : Type) where
  | change (c : Change)
  | subscribe (watched : String) (observers : List (Observer τ))
  | unsubscribe (watched : String)
  | deliver (watched : String)
  | lose
  | connect
  | restore (watched : String)

namespace Subscriber

/-- The observers are told of a change at or below the watched key. -/
def notify (s : Subscriber τ) (c : Change) : Subscriber τ :=
  if Below s.watched c.key then
    { s with observers := s.observers.map fun (o, values) => (o, o.onWatch values c) }
  else s

def deliver (log : List Change) (s : Subscriber τ) : Subscriber τ :=
  match s.watcher with
  | none => s
  | some n =>
    match log[n]? with
    | none => s
    | some c => { s.notify c with watcher := some (n + 1), seen := n + 1 }

/-- A new subscriber. Without a connection nothing is read, and there is no
watcher. -/
def make (log : List Change) (up : Bool) (watched : String) (observers : List (Observer τ)) :
    Subscriber τ :=
  let s : Subscriber τ := ⟨watched, observers.map fun o => (o, o.initial), none, 0⟩
  if up then
    { (snapshot log).foldl notify s with watcher := some log.length, seen := log.length }
  else s

/-- `restore_watchers` makes a watcher without a revision to start from. -/
def restore (log : List Change) (s : Subscriber τ) : Subscriber τ :=
  { s with watcher := some log.length, seen := log.length }

end Subscriber

def init : World τ := ⟨[], false, []⟩

/-- Apply a function to the subscriber of a key. -/
def World.update (w : World τ) (watched : String) (f : Subscriber τ → Subscriber τ) : World τ :=
  { w with subscribers := w.subscribers.map fun s => if s.watched = watched then f s else s }

def next (w : World τ) : Action τ → Option (World τ)
  | .change c =>
    if c.value = none ∧ held w.log c.key = none then none
    else some { w with log := w.log ++ [c] }
  | .subscribe watched observers =>
    if ∃ s ∈ w.subscribers, s.watched = watched then none
    else
      some { w with
        subscribers := .make w.log w.up watched observers :: w.subscribers }
  | .unsubscribe watched =>
    some { w with
      subscribers := w.subscribers.filter fun s => decide (s.watched ≠ watched) }
  | .deliver watched => some (w.update watched (Subscriber.deliver w.log))
  | .lose =>
    some { w with
      up := false
      subscribers := w.subscribers.map fun s => { s with watcher := none } }
  | .connect => some { w with up := true }
  | .restore watched =>
    if w.up then some (w.update watched (Subscriber.restore w.log)) else none

/-- The manager is connected, and every change was delivered by the watchers
of this connection. -/
def Delivered (w : World τ) : Prop :=
  w.up = true ∧ ∀ s ∈ w.subscribers, s.watcher = some w.log.length

/-- Every observer has what etcd holds. -/
def Converged (w : World τ) : Prop :=
  ∀ s ∈ w.subscribers, ∀ e ∈ s.observers, e.1.Agrees e.2 (held w.log)

/-- The condition on a step. Observers are of keys at or below the watched
one, a key that is taken for a member is the key of the member, and a watcher
is made anew only if no change at or below its key was missed. -/
def NothingMissed (w : World τ) : Action τ → Prop
  | .change c => ∀ s ∈ w.subscribers, ∀ e ∈ s.observers, e.1.Canonical c.key
  | .subscribe watched observers => ∀ o ∈ observers,
      (∀ i < o.members, Below watched (o.keyOf i)) ∧ ∀ c ∈ w.log, o.Canonical c.key
  | .restore watched => ∀ s ∈ w.subscribers, s.watched = watched →
      ∀ c ∈ w.log.drop s.seen, ¬ Below watched c.key
  | _ => True

instance (w : World τ) (action : Action τ) : Decidable (NothingMissed w action) := by
  cases action <;> unfold NothingMissed <;> infer_instance

variable {changes : List Change} {key : String} {log : List Change} {c : Change} {s : Subscriber τ}
  {more : List Change} {watched : String}

theorem foldl_update_of_ne (h : ∀ c ∈ changes, c.key ≠ key) (store : String → Option String) :
    changes.foldl (fun store c => update store c.key c.value) store key = store key := by
  induction changes generalizing store with
  | nil => rfl
  | cons c rest ih =>
    obtain ⟨hc, hrest⟩ := forall_mem_cons.mp h
    rw [foldl_cons, ih hrest, update_of_ne hc.symm]

theorem held_append_of_ne {log : List Change} (h : ∀ c ∈ more, c.key ≠ key) :
    held (log ++ more) key = held log key := by
  rw [held, foldl_append, foldl_update_of_ne h]
  rfl

theorem held_snoc (log : List Change) (c : Change) :
    held (log ++ [c]) = update (held log) c.key c.value := by
  rw [held, foldl_append]
  rfl

theorem held_of_mem (hnodup : (log.map Change.key).Nodup) (hc : c ∈ log) :
    held log c.key = c.value := by
  obtain ⟨before, after, rfl⟩ := append_of_mem hc
  have hother : ∀ c' ∈ after, c'.key ≠ c.key := by
    intro c' hc' heq
    rw [map_append, map_cons] at hnodup
    have htail := (nodup_append.mp hnodup).2.1
    exact (nodup_cons.mp htail).1 (heq ▸ mem_map_of_mem hc')
  rw [append_cons, held_append_of_ne hother, held_snoc, update_self]

theorem held_eq_none (h : ∀ c ∈ log, c.key ≠ key) : held log key = none := foldl_update_of_ne h _

theorem snapshot_nodup (log : List Change) : ((snapshot log).map Change.key).Nodup := by
  have hkeys : ((log.map Change.key).dedup.map fun key =>
      (⟨key, held log key⟩ : Change)).map Change.key = (log.map Change.key).dedup := by
    rw [map_map]
    exact map_id _
  refine List.Nodup.sublist (filter_sublist.map Change.key) ?_
  rw [hkeys]
  exact nodup_dedup _

theorem mem_snapshot (hc : c ∈ snapshot log) :
    held log c.key = c.value ∧ c.value.isSome = true ∧ c.key ∈ log.map Change.key := by
  obtain ⟨hmem, hsome⟩ := mem_filter.mp hc
  obtain ⟨key, hkey, rfl⟩ := mem_map.mp hmem
  exact ⟨rfl, hsome, mem_dedup.mp hkey⟩

theorem held_snapshot (log : List Change) (key : String) :
    held (snapshot log) key = held log key := by
  cases hheld : held log key with
  | none =>
    apply held_eq_none
    rintro c hc rfl
    obtain ⟨hvalue, hsome, -⟩ := mem_snapshot hc
    rw [← hvalue, hheld] at hsome
    cases hsome
  | some text =>
    have hkey : key ∈ log.map Change.key := by
      by_contra hmem
      have hnone : held log key = none := by
        apply held_eq_none
        rintro c hc rfl
        exact hmem (mem_map_of_mem hc)
      rw [hnone] at hheld
      cases hheld
    have hmem : (⟨key, some text⟩ : Change) ∈ snapshot log := by
      refine mem_filter.mpr ⟨mem_map.mpr ⟨key, mem_dedup.mpr hkey, ?_⟩, rfl⟩
      rw [hheld]
    exact held_of_mem (snapshot_nodup log) hmem

namespace Observer

theorem agrees_initial (o : Observer τ) : o.Agrees o.initial fun _ => none := by
  refine ⟨length_replicate, ?_⟩
  intro i hi
  refine ⟨fun _ => ?_, nofun⟩
  rw [initial, getElem?_replicate, if_pos hi]

variable {o : Observer τ} {values : List τ} {store : String → Option String}

theorem Agrees.congr {store' : String → Option String} (h : o.Agrees values store)
    (heq : ∀ i < o.members, store' (o.keyOf i) = store (o.keyOf i)) : o.Agrees values store' := by
  refine ⟨h.1, ?_⟩
  intro i hi
  rw [heq i hi]
  exact h.2 i hi

theorem Agrees.onWatch (h : o.Agrees values store) {c : Change} (hc : o.Canonical c.key) :
    o.Agrees (o.onWatch values c) (update store c.key c.value) := by
  obtain ⟨hlen, hvalues⟩ := h
  have hlen' : (o.onWatch values c).length = o.members := by
    fun_cases o.onWatch values c <;> simp [hlen]
  refine ⟨hlen', ?_⟩
  intro i hi
  by_cases hkey : o.keyOf i = c.key
  · have hslot : o.slotOf c.key = some i := hkey ▸ o.addressed i hi
    have hset : ∀ v, (values.set i v)[i]? = some v := by
      intro v
      rw [getElem?_set_self (hlen ▸ hi)]
    rw [hkey, update_self]
    unfold Observer.onWatch
    rw [hslot]
    cases hvalue : c.value with
    | none => exact ⟨fun _ => hset o.default, nofun⟩
    | some text =>
      refine ⟨nofun, ?_⟩
      rintro text' v htext hv
      cases htext
      dsimp only
      rw [hv]
      exact hset v
  · rw [update_of_ne hkey]
    have hne : ∀ j, o.slotOf c.key = some j → j ≠ i := by
      rintro j hslot rfl
      exact hkey (hc j hslot).2.symm
    have hkept : (o.onWatch values c)[i]? = values[i]? := by
      fun_cases o.onWatch values c
      case case1 | case3 => rfl
      all_goals exact getElem?_set_ne (hne _ (by assumption))
    rw [hkept]
    exact hvalues i hi

end Observer

/-- What holds of a subscriber: its observers know the first `seen` changes,
and its watcher goes on from there. -/
structure Subscriber.Sound (log : List Change) (s : Subscriber τ) : Prop where
  seen_le : s.seen ≤ log.length
  watcher : ∀ n, s.watcher = some n → n = s.seen
  below : ∀ e ∈ s.observers, ∀ i < e.1.members, Below s.watched (e.1.keyOf i)
  canonical : ∀ e ∈ s.observers, ∀ c ∈ log, e.1.Canonical c.key
  agrees : ∀ e ∈ s.observers, e.1.Agrees e.2 (held (log.take s.seen))

structure Subscriber.Follows (s : Subscriber τ) (changes : List Change) : Prop where
  below : ∀ e ∈ s.observers, ∀ i < e.1.members, Below s.watched (e.1.keyOf i)
  agrees : ∀ e ∈ s.observers, e.1.Agrees e.2 (held changes)

theorem Subscriber.mem_notify {e : Observer τ × List τ} (he : e ∈ (s.notify c).observers) :
    ∃ values, (e.1, values) ∈ s.observers := by
  unfold notify at he
  split at he
  · obtain ⟨e', he', rfl⟩ := mem_map.mp he
    exact ⟨e'.2, he'⟩
  · exact ⟨e.2, he⟩

theorem Subscriber.watched_notify (s : Subscriber τ) (c : Change) :
    (s.notify c).watched = s.watched := by
  unfold notify
  split <;> rfl

/-- A change that is delivered is followed; one that is not below the watched
key does not matter. -/
theorem Subscriber.Follows.notify (h : s.Follows changes)
    (hc : ∀ e ∈ s.observers, e.1.Canonical c.key) : (s.notify c).Follows (changes ++ [c]) := by
  refine ⟨?_, ?_⟩ <;> intro e he
  · obtain ⟨v, hold⟩ := mem_notify he
    rw [s.watched_notify]
    exact h.below (e.1, v) hold
  rw [held_snoc]
  unfold Subscriber.notify at he
  split at he
  case isTrue =>
    obtain ⟨e', he', rfl⟩ := mem_map.mp he
    exact (h.agrees e' he').onWatch (hc e' he')
  case isFalse hout =>
    refine (h.agrees e he).congr ?_
    intro i hi
    refine update_of_ne ?_ _ _
    intro heq
    exact hout (heq ▸ h.below e he i hi)

theorem Subscriber.mem_foldl {e : Observer τ × List τ}
    (he : e ∈ (more.foldl notify s).observers) : ∃ values, (e.1, values) ∈ s.observers := by
  induction more generalizing s with
  | nil => exact ⟨e.2, he⟩
  | cons c rest ih =>
    obtain ⟨v, hold⟩ := ih he
    exact mem_notify (e := (e.1, v)) hold

theorem Subscriber.Follows.foldl (h : s.Follows changes)
    (hmore : ∀ e ∈ s.observers, ∀ c ∈ more, e.1.Canonical c.key) :
    (more.foldl Subscriber.notify s).Follows (changes ++ more) := by
  induction more generalizing s changes with
  | nil => rwa [append_nil]
  | cons c rest ih =>
    have hstep := h.notify fun e he => hmore e he c mem_cons_self
    rw [append_cons]
    apply ih hstep
    intro e he c' hc'
    obtain ⟨_, hold⟩ := mem_notify he
    exact hmore _ hold c' (mem_cons_of_mem _ hc')

theorem Subscriber.sound_make (up : Bool) {observers : List (Observer τ)}
    (h : ∀ o ∈ observers, (∀ i < o.members, Below watched
    (o.keyOf i)) ∧ ∀ c ∈ log, o.Canonical c.key) : (make log up watched observers).Sound log := by
  have hmem : ∀ e ∈ observers.map fun o => (o, o.initial), e.1 ∈ observers ∧ e.2 = e.1.initial := by
    intro e he
    obtain ⟨o, ho, rfl⟩ := mem_map.mp he
    exact ⟨ho, rfl⟩
  have hfirst : Subscriber.Follows ⟨watched, observers.map fun o => (o, o.initial), none, 0⟩
      [] := by
    refine ⟨fun e he => (h e.1 (hmem e he).1).1, ?_⟩
    intro e he
    rw [(hmem e he).2]
    exact e.1.agrees_initial
  unfold make
  split
  case isFalse =>
    refine ⟨Nat.zero_le _, nofun, hfirst.below, fun e he => (h e.1 (hmem e he).1).2, ?_⟩
    exact hfirst.agrees
  case isTrue =>
    have hcanonical : ∀ e ∈ observers.map fun o => (o, o.initial), ∀ c ∈ snapshot log,
        e.1.Canonical c.key := by
      intro e he c hc
      obtain ⟨c', hc', hkey⟩ := mem_map.mp (mem_snapshot hc).2.2
      exact hkey ▸ (h e.1 (hmem e he).1).2 c' hc'
    have hfollows := hfirst.foldl hcanonical
    refine ⟨le_rfl, fun n hn => (Option.some.inj hn).symm, hfollows.below, ?_, ?_⟩
    · intro e he
      obtain ⟨_, hold⟩ := mem_foldl he
      exact (h e.1 (hmem _ hold).1).2
    · intro e he
      rw [take_length]
      refine (hfollows.agrees e he).congr ?_
      intro i _
      rw [nil_append, held_snapshot]

theorem Subscriber.Sound.follows (h : s.Sound log) : s.Follows (log.take s.seen) :=
  ⟨h.below, h.agrees⟩

theorem Subscriber.Sound.deliver (h : s.Sound log) : (s.deliver log).Sound log := by
  unfold Subscriber.deliver
  split
  case h_1 => exact h
  case h_2 n hwatcher =>
    split
    case h_1 => exact h
    case h_2 c hc =>
      have hn := h.watcher n hwatcher
      subst hn
      obtain ⟨hlt, hget⟩ := List.getElem?_eq_some_iff.mp hc
      have hmem : c ∈ log := mem_of_getElem? hc
      have hstep := h.follows.notify fun e he => h.canonical e he c hmem
      rw [← hget, take_append_getElem hlt, hget] at hstep
      refine ⟨hlt, fun n hn => (Option.some.inj hn).symm, hstep.below, ?_, hstep.agrees⟩
      intro e he
      obtain ⟨v, hold⟩ := mem_notify he
      exact h.canonical (e.1, v) hold

theorem Subscriber.Sound.restore (h : s.Sound log)
    (hmissed : ∀ c ∈ log.drop s.seen, ¬ Below s.watched c.key) : (s.restore log).Sound log where
  seen_le := le_rfl
  watcher n hn := (Option.some.inj hn).symm
  below := h.below
  canonical := h.canonical
  agrees e he := by
    refine (h.agrees e he).congr ?_
    intro i hi
    have hsplit := take_append_drop s.seen log
    have hseen : (s.restore log).seen = log.length := rfl
    rw [hseen, take_length, ← hsplit]
    rw [held_append_of_ne, hsplit]
    intro c hc heq
    exact hmissed c hc (heq ▸ h.below e he i hi)

/-- What every run keeps. -/
def Inv (w : World τ) : Prop := ∀ s ∈ w.subscribers, s.Sound w.log

theorem Subscriber.Sound.change (h : s.Sound log) (hc : ∀ e ∈ s.observers, e.1.Canonical c.key) :
    s.Sound (log ++ [c]) where
  seen_le := h.seen_le.trans (by simp)
  watcher := h.watcher
  below := h.below
  canonical e he := forall_mem_append.mpr ⟨h.canonical e he, forall_mem_singleton.mpr (hc e he)⟩
  agrees e he := by
    rw [take_append_of_le_length h.seen_le]
    exact h.agrees e he

theorem Inv.update {w : World τ} (h : Inv w) {f : Subscriber τ → Subscriber τ}
    (hf : ∀ s ∈ w.subscribers, s.watched = watched → s.Sound w.log → (f s).Sound w.log) :
    Inv (w.update watched f) := by
  intro s hs
  obtain ⟨s', hs', rfl⟩ := mem_map.mp hs
  split
  case isTrue heq => exact hf s' hs' heq (h s' hs')
  case isFalse => exact h s' hs'

theorem Inv.next {w w' : World τ} (h : Inv w) {action : Action τ}
    (hok : NothingMissed w action) (hnext : next w action = some w') : Inv w' := by
  revert hnext
  fun_cases Observers.next w action <;> intro hnext <;> cases hnext
  case case2 => exact fun s hs => (h s hs).change (hok s hs)
  case case4 => exact forall_mem_cons.mpr ⟨Subscriber.sound_make w.up hok, h⟩
  case case5 => exact fun s hs => h s (mem_filter.mp hs).1
  case case6 => exact h.update fun s _ _ hsound => hsound.deliver
  case case7 =>
    intro s hs
    obtain ⟨s', hs', rfl⟩ := mem_map.mp hs
    have hsound := h s' hs'
    exact ⟨hsound.seen_le, nofun, hsound.below, hsound.canonical, hsound.agrees⟩
  case case8 => exact h
  case case9 =>
    apply h.update
    intro s hs heq hsound
    exact hsound.restore (heq ▸ hok s hs heq)

/-- In every run in which the watchers that are made anew have missed nothing:
when the manager is connected and all changes are delivered, every observer
has what etcd holds. -/
theorem observers_converge {w : World τ} (h : Reachable next NothingMissed init w)
    (hdelivered : Delivered w) : Converged w := by
  have hinv : Inv w :=
    h.invariant (forall_mem_nil _) fun _ _ _ hinv hok hnext => Inv.next hinv hok hnext
  intro s hs e he
  have hsound := hinv s hs
  have hseen := hsound.watcher w.log.length (hdelivered.2 s hs)
  have hagrees := hsound.agrees e he
  rw [← hseen, take_length] at hagrees
  exact hagrees

/-- Paths taken apart at the last slash, and numbers of digits only. -/
def plainPaths : PathFunctions where
  hasParent key parent :=
    (((key.toList.reverse.dropWhile fun c => decide (c ≠ '/')).drop 1).reverse == parent.toList)
  filename key := String.ofList (key.toList.reverse.takeWhile fun c => decide (c ≠ '/')).reverse
  stoul text :=
    if text.toList.all Char.isDigit && !text.toList.isEmpty then
      some (Nat.ofDigitChars 10 text.toList 0)
    else none

/-- The states of two storages. -/
def states : Observer String :=
  vectorObserver plainPaths "/g/states" 2 "down" some (by decide +kernel)

def leader : Observer String := valueObserver "/g/leader" "none" some

/-- A group whose keys change before and after a lost connection. -/
theorem observers_converge_reconnected :
    ∃ w : World String, (Reachable next NothingMissed init w ∧ Delivered w ∧
        w.subscribers.map (fun s => s.observers.map Prod.snd) =
          [[["7"], ["down", "up"]]]) ∧ Converged w := by
  have hrun : ∃ w : World String, Reachable next NothingMissed init w ∧
      (w.up = true ∧ ∀ s ∈ w.subscribers, s.watcher = some w.log.length) ∧
        w.subscribers.map (fun s => s.observers.map Prod.snd) = [[["7"], ["down", "up"]]] :=
    exists_reachable_of_runWhile _
      [.connect, .change ⟨"/g/leader", some "1"⟩, .subscribe "/g" [leader, states],
        .change ⟨"/g/states/1", some "up"⟩, .deliver "/g", .lose,
        .change ⟨"/license", some "x"⟩, .connect, .restore "/g",
        .change ⟨"/g/leader", some "7"⟩, .deliver "/g"] (by decide +kernel)
  obtain ⟨w, hw, hdelivered, hvalues⟩ := hrun
  exact ⟨w, ⟨hw, hdelivered, hvalues⟩, observers_converge hw hdelivered⟩

/-- A change during a lost connection is never seen. -/
theorem change_in_outage_missed :
    ∃ w : World String, Reachable next (fun _ _ => True) init w ∧ Delivered w ∧
      ¬ Converged w := by
  have hrun : ∃ w : World String, Reachable next (fun _ _ => True) init w ∧
      (w.up = true ∧ ∀ s ∈ w.subscribers, s.watcher = some w.log.length) ∧
        ∃ s ∈ w.subscribers, ∃ e ∈ s.observers, 0 < e.1.members ∧
          held w.log (e.1.keyOf 0) = some "7" ∧ e.1.deserialize "7" = some "7" ∧
          e.2[0]? = some "1" :=
    exists_reachable_of_runWhile _
      [.connect, .change ⟨"/g/leader", some "1"⟩, .subscribe "/g" [leader], .lose,
        .change ⟨"/g/leader", some "7"⟩, .connect, .restore "/g"] (by decide +kernel)
  obtain ⟨w, hw, hdelivered, s, hs, e, he, hpos, hheld, htext, hvalue⟩ := hrun
  refine ⟨w, hw, hdelivered, ?_⟩
  intro hconverged
  have hagrees := ((hconverged s hs e he).2 0 hpos).2 "7" "7" hheld htext
  rw [hvalue] at hagrees
  exact absurd (Option.some.inj hagrees) (by decide)

end UhCore.Etcd.Observers
