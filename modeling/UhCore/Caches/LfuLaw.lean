import UhCore.Caches.LfuCache
import UhCore.Lib.Transition

/-!
The law of eviction of the cache of the most often used values, over every
order of its operations. Next to the cache a run keeps a ledger of the keys
present: the value stored by the insertion, the number of uses since then, and
when that number was reached. Erased keys leave their nodes in the buckets.
-/

namespace UhCore.Caches.LfuCache

open FreqBucket Transition List Option Function

variable {κ ν : Type} [DecidableEq κ]

structure Life (ν : Type) where
  value : ν
  count : Nat
  since : Nat
  deriving DecidableEq

/-- The clock counts the insertions and uses. -/
structure Run (κ ν : Type) where
  cache : LfuCache κ ν
  ledger : κ → Option (Life ν)
  clock : Nat

inductive Action (κ ν : Type) where
  | put (key : κ) (val : ν)
  | putNonExisting (key : κ) (val : ν)
  | use (key : κ)
  | get (key : κ)
  | erase (key : κ)

/-- What an operation returns, the values its callbacks were called with, and
the cache it leaves. -/
structure Outcome (κ ν : Type) where
  result : Option ν
  calls : List ν
  cache : LfuCache κ ν

def start (limit : Nat) : Run κ ν := ⟨empty limit, fun _ => none, 0⟩

def perform (c : LfuCache κ ν) : Action κ ν → Option (Outcome κ ν)
  | .put key val => (c.put key val).map fun (calls, left) => ⟨none, calls, left⟩
  | .putNonExisting key val =>
    (c.putNonExisting key val).map fun (calls, left) => ⟨none, calls, left⟩
  | .use key => some ⟨none, [], c.use key⟩
  | .get key => some ⟨(c.get key).1, [], (c.get key).2⟩
  | .erase key => some ⟨none, (c.erase key).1, (c.erase key).2⟩

/-- One more use of a key. -/
def Life.used (clock : Nat) (life : Life ν) : Life ν :=
  { life with count := life.count + 1, since := clock }

/-- The life of a key after a use, which begins if a value is stored. -/
def touch (clock : Nat) (stored : Option ν) : Option (Life ν) → Option (Life ν)
  | some life => some (life.used clock)
  | none => stored.map fun val => ⟨val, 1, clock⟩

/-- The ledger after an operation, before the keys that leave are struck off. -/
def Run.touched (r : Run κ ν) : Action κ ν → κ → Option (Life ν)
  | .put key val | .putNonExisting key val =>
    update r.ledger key (touch r.clock (some val) (r.ledger key))
  | .use key | .get key => update r.ledger key (touch r.clock none (r.ledger key))
  | .erase _ => r.ledger

def Run.ticked (r : Run κ ν) : Action κ ν → Nat
  | .put _ _ | .putNonExisting _ _ => r.clock + 1
  | .use key | .get key => if (r.ledger key).isSome then r.clock + 1 else r.clock
  | .erase _ => r.clock

/-- The ledger keeps the keys that the cache has. -/
def Run.after (r : Run κ ν) (action : Action κ ν) (o : Outcome κ ν) : Run κ ν where
  cache := o.cache
  ledger key := if o.cache.Present key then r.touched action key else none
  clock := r.ticked action

/-- The second way of insertion is for keys that are not present. -/
def Allowed (r : Run κ ν) : Action κ ν → Prop
  | .putNonExisting key _ => ¬ r.cache.Present key
  | _ => True

instance (r : Run κ ν) (action : Action κ ν) : Decidable (Allowed r action) := by
  cases action <;> unfold Allowed <;> infer_instance

def next (r : Run κ ν) (action : Action κ ν) : Option (Run κ ν) :=
  if Allowed r action then (perform r.cache action).map (r.after action) else none

def inserted (r : Run κ ν) : Action κ ν → Option κ
  | .put key _ | .putNonExisting key _ => if r.cache.Present key then none else some key
  | _ => none

/-- A key leaves: it was present, or is the one inserted, and the cache no
longer has it. -/
def Leaves (r : Run κ ν) (action : Action κ ν) (o : Outcome κ ν) (key : κ) : Prop :=
  (r.touched action key).isSome = true ∧ ¬ o.cache.Present key

/-- The count is lower, or was reached earlier. -/
def Life.Precedes (a b : Life ν) : Prop := a.count < b.count ∨ a.count = b.count ∧ a.since < b.since

/-- The part of the law that every step keeps. -/
structure Kept (limit : Nat) (r : Run κ ν) (action : Action κ ν) (o : Outcome κ ν) : Prop where
  ledger : ∀ key, (r.ledger key).isSome = true ↔ r.cache.Present key
  room : o.cache.keyData.keys.length ≤ limit
  result : ∀ key, action = .get key → o.result = (r.ledger key).map Life.value
  calls : ∃ left : List κ, left.Nodup ∧ (∀ key, key ∈ left ↔ Leaves r action o key) ∧
    o.calls.map some = left.map fun key => (r.touched action key).map Life.value

/-- An insertion evicts the key with the least count and, among those with
that count, the one that reached it first. -/
def VictimLeast (r : Run κ ν) (action : Action κ ν) (o : Outcome κ ν) : Prop :=
  ∀ key, inserted r action = some key → ∀ victim life, Leaves r action o victim →
    r.touched action victim = some life → ∀ other life', other ≠ victim →
      r.touched action other = some life' → life.Precedes life'

/-- The data of the key of a node refers to this node. -/
def Owned (c : LfuCache κ ν) (freq : Nat) (item : LfuItem κ) : Prop :=
  (c.keyData.lookup item.key).map (fun data => (data.bucket, data.pos)) = some (freq, item.node)

instance (c : LfuCache κ ν) (freq : Nat) (item : LfuItem κ) : Decidable (c.Owned freq item) :=
  inferInstanceAs (Decidable (_ = _))

/-- An insertion into a full cache: the first node of a key that is present,
or of the inserted one, is of the same key as the first node that the data of
its key refers to. -/
def NoStaleFirst (c : LfuCache κ ν) (key : κ) : Prop :=
  c.capacity = 0 → c.victimKey key = firstKey c.usedOnce (fun item => decide (c.Owned 1 item)) key

instance (c : LfuCache κ ν) (key : κ) : Decidable (c.NoStaleFirst key) :=
  inferInstanceAs (Decidable (_ → _))

def view (data : KeyData ν) : Life ν := ⟨data.val, data.bucket, data.pos⟩

/-- The cache with a key inserted or used, before an eviction. -/
def reached (c : LfuCache κ ν) : Action κ ν → LfuCache κ ν
  | .put key val | .putNonExisting key val =>
    if c.Present key then c.use key else c.emplace key val
  | .use key | .get key => c.use key
  | .erase _ => c

/-- The ledger is what the cache has for each key, and its clock the number
of nodes made. -/
structure Agrees (r : Run κ ν) : Prop where
  ledger : ∀ key, r.ledger key = (r.cache.keyData.lookup key).map view
  clock : r.clock = r.cache.nodes

variable {r : Run κ ν} {key : κ} {limit : Nat} {action : Action κ ν} {o : Outcome κ ν}
  {left : List κ} {c : LfuCache κ ν} {item : LfuItem κ}

theorem Agrees.isSome_iff (h : Agrees r) (key : κ) :
    (r.ledger key).isSome = true ↔ r.cache.Present key := by
  rw [h.ledger, isSome_map]
  exact Iff.rfl

theorem nodes_use (c : LfuCache κ ν) (key : κ) :
    (c.use key).nodes = if c.Present key then c.nodes + 1 else c.nodes := by
  unfold use
  split
  case h_1 data hdata => rw [if_pos (present_iff.mpr ⟨data, hdata⟩), increment]
  case h_2 hdata =>
    rw [if_neg]
    rw [Present, hdata]
    exact Bool.false_ne_true

theorem Agrees.touch_use (h : Agrees r) (key k : κ) {stored : Option ν}
    (hstore : r.cache.Present key ∨ stored = none) :
    update r.ledger key (touch r.clock stored (r.ledger key)) k =
      ((r.cache.use key).keyData.lookup k).map view := by
  rw [lookup_use]
  by_cases hk : k = key
  · subst hk
    rw [update_self, if_pos rfl, h.ledger, h.clock]
    cases hdata : r.cache.keyData.lookup k with
    | some data => rfl
    | none =>
      rcases hstore with hpres | rfl
      · rw [Present, hdata] at hpres
        cases hpres
      · rfl
  · rw [update_of_ne hk, if_neg hk, h.ledger]

theorem Agrees.touch_emplace (h : Agrees r) (habsent : ¬ r.cache.Present key) (val : ν) (k : κ) :
    update r.ledger key (touch r.clock (some val) (r.ledger key)) k =
      ((r.cache.emplace key val).keyData.lookup k).map view := by
  rw [lookup_emplace habsent]
  by_cases hk : k = key
  · subst hk
    have hnone : r.ledger k = none := by
      rw [← not_isSome_iff_eq_none, h.isSome_iff]
      exact habsent
    rw [update_self, if_pos rfl, hnone, h.clock]
    rfl
  · rw [update_of_ne hk, if_neg hk, h.ledger]

theorem Agrees.touched_eq (h : Agrees r) (action : Action κ ν) (k : κ) :
    r.touched action k = ((reached r.cache action).keyData.lookup k).map view := by
  have hstore : ∀ key val, update r.ledger key
      (touch r.clock (some val) (r.ledger key)) k =
        ((if r.cache.Present key then r.cache.use key
          else r.cache.emplace key val).keyData.lookup k).map view := by
    intro key val
    split
    case isTrue hpres => exact h.touch_use key k (.inl hpres)
    case isFalse habsent => exact h.touch_emplace habsent val k
  cases action with
  | put key val => exact hstore key val
  | putNonExisting key val => exact hstore key val
  | use key => exact h.touch_use key k (.inr rfl)
  | get key => exact h.touch_use key k (.inr rfl)
  | erase key => exact h.ledger k

/-- What an operation does to the keys: those of the list leave, with one call
of the callback for each. -/
structure Strikes (limit : Nat) (r : Run κ ν) (action : Action κ ν) (o : Outcome κ ν)
    (left : List κ) : Prop where
  inv : Inv limit o.cache
  nodes : o.cache.nodes = r.ticked action
  result : ∀ key, action = .get key → o.result = (r.cache.get key).1
  nodup : left.Nodup
  present : ∀ key ∈ left, (reached r.cache action).Present key
  lookup : ∀ key, o.cache.keyData.lookup key =
    if key ∈ left then none else (reached r.cache action).keyData.lookup key
  calls : o.calls.map some =
    left.map fun key => ((reached r.cache action).keyData.lookup key).map KeyData.val

theorem Strikes.leaves_iff (h : Strikes limit r action o left) (hagrees : Agrees r) (key : κ) :
    Leaves r action o key ↔ key ∈ left := by
  rw [Leaves, hagrees.touched_eq, isSome_map, Present, h.lookup]
  constructor
  · rintro ⟨hsome, hgone⟩
    by_contra hmem
    rw [if_neg hmem] at hgone
    exact hgone hsome
  · intro hmem
    rw [if_pos hmem]
    exact ⟨h.present key hmem, by simp⟩

theorem Strikes.kept (h : Strikes limit r action o left) (hagrees : Agrees r) :
    Kept limit r action o where
  ledger := hagrees.isSome_iff
  room := (Nat.le_add_left _ _).trans h.inv.size
  result key hkey := by
    rw [h.result key hkey, hagrees.ledger, get, Option.map_map]
    rfl
  calls := by
    refine ⟨left, h.nodup, fun key => (h.leaves_iff hagrees key).symm, ?_⟩
    rw [h.calls]
    apply map_congr_left
    intro key _
    rw [hagrees.touched_eq, Option.map_map]
    rfl

theorem Strikes.agrees (h : Strikes limit r action o left) (hagrees : Agrees r) :
    Agrees (r.after action o) where
  ledger key := by
    have hlook := h.lookup key
    dsimp only [Run.after]
    split
    case isTrue hsome =>
      rw [hagrees.touched_eq]
      split at hlook
      · rw [Present, hlook] at hsome
        cases hsome
      · rw [hlook]
    case isFalse hnone =>
      rw [not_isSome_iff_eq_none.mp hnone]
      rfl
  clock := h.nodes.symm

theorem Agrees.ticked_use (h : Agrees r) (key : κ) :
    (r.cache.use key).nodes = if (r.ledger key).isSome then r.clock + 1 else r.clock := by
  rw [nodes_use, h.clock]
  simp only [h.isSome_iff]

theorem strikes_use (hinv : Inv limit r.cache) (hreached : reached r.cache action = r.cache.use key)
    (hcache : o.cache = r.cache.use key) (hcalls : o.calls = [])
    (hticked : (r.cache.use key).nodes = r.ticked action)
    (hres : ∀ key, action = .get key → o.result = (r.cache.get key).1) :
    Strikes limit r action o [] where
  inv := hcache ▸ hinv.use key
  nodes := hcache ▸ hticked
  result := hres
  nodup := nodup_nil
  present := forall_mem_nil _
  lookup k := by rw [hcache, hreached, if_neg not_mem_nil]
  calls := by rw [hcalls, map_nil, map_nil]

theorem strikes_put (hinv : Inv limit r.cache) (action : Action κ ν) (val : ν)
    (habsent : ¬ r.cache.Present key) (hreached : reached r.cache action = r.cache.emplace key val)
    (hticked : r.ticked action = r.cache.nodes + 1) (hget : ∀ key, action ≠ .get key) :
    ∃ calls c' left, r.cache.putNonExisting key val = some (calls, c') ∧
      Strikes limit r action ⟨none, calls, c'⟩ left := by
  obtain ⟨calls, c', hput, hinv', hnodes, hcases⟩ := hinv.putNonExisting_spec key val
  have hres : ∀ key, action = .get key → none = (r.cache.get key).1 :=
    fun key hkey => absurd hkey (hget key)
  rcases hcases with ⟨-, rfl, hdata⟩ | ⟨-, data, rfl, hdata, hlook⟩
  · refine ⟨[], c', [], hput, hinv', hnodes.trans hticked.symm, hres, nodup_nil,
      forall_mem_nil _, ?_, rfl⟩
    intro k
    rw [hdata, hreached, if_neg not_mem_nil]
  · refine ⟨[data.val], c', [r.cache.victimKey key], hput, hinv', hnodes.trans hticked.symm, hres,
      nodup_singleton _, ?_, ?_, ?_⟩
    · intro k hk
      rw [mem_singleton.mp hk, hreached]
      exact present_iff.mpr ⟨data, hdata⟩
    · intro k
      rw [hlook, hreached]
      simp only [mem_singleton]
    · rw [hreached, map_singleton, map_singleton, hdata, map_some]

theorem strikes_erase (hinv : Inv limit r.cache) (hagrees : Agrees r) (key : κ) :
    ∃ left, Strikes limit r (.erase key) ⟨none, (r.cache.erase key).1, (r.cache.erase key).2⟩
      left := by
  have hres : ∀ k, Action.erase key = (.get k : Action κ ν) → none = (r.cache.get k).1 := by
    intro k hk
    cases hk
  have hinv' := hinv.erase key
  cases hdata : r.cache.keyData.lookup key with
  | none =>
    have herase : r.cache.erase key = ([], r.cache) := by rw [erase, hdata]
    rw [herase] at hinv' ⊢
    refine ⟨[], hinv', hagrees.clock.symm, hres, nodup_nil, forall_mem_nil _, ?_, rfl⟩
    intro k
    rw [if_neg not_mem_nil, reached]
  | some data =>
    have herase : r.cache.erase key = ([data.val],
        { r.cache with
          keyData := r.cache.keyData.erase key, capacity := r.cache.capacity + 1 }) := by
      rw [erase, hdata]
    rw [herase] at hinv' ⊢
    refine ⟨[key], hinv', hagrees.clock.symm, hres, nodup_singleton _, ?_, ?_, ?_⟩
    · intro k hk
      rw [mem_singleton.mp hk]
      exact present_iff.mpr ⟨data, hdata⟩
    · intro k
      simp only [mem_singleton]
      split
      case isTrue heq => rw [heq, AList.lookup_erase]
      case isFalse hne => rw [AList.lookup_erase_ne hne, reached]
    · rw [reached, map_singleton, map_singleton, hdata, map_some]

theorem perform_strikes (hinv : Inv limit r.cache) (hagrees : Agrees r)
    (hallowed : Allowed r action) :
    ∃ o left, perform r.cache action = some o ∧ Strikes limit r action o left := by
  cases action with
  | put key val =>
    by_cases hpres : r.cache.Present key
    · refine ⟨⟨none, [], r.cache.use key⟩, [], by simp [perform, put, hpres],
        strikes_use hinv (by rw [reached, if_pos hpres]) rfl rfl ?_ (by simp)⟩
      rw [nodes_use, if_pos hpres, Run.ticked, hagrees.clock]
    · obtain ⟨calls, c', left, hput, hstrikes⟩ := strikes_put hinv (.put key val) val hpres
        (by rw [reached, if_neg hpres]) (by rw [Run.ticked, hagrees.clock]) (by simp)
      exact ⟨_, left, by rw [perform, put, if_neg hpres, hput, map_some], hstrikes⟩
  | putNonExisting key val =>
    obtain ⟨calls, c', left, hput, hstrikes⟩ := strikes_put hinv (.putNonExisting key val) val hallowed
      (by rw [reached, if_neg hallowed]) (by rw [Run.ticked, hagrees.clock]) (by simp)
    exact ⟨_, left, by rw [perform, hput, map_some], hstrikes⟩
  | use key =>
    exact ⟨_, [], rfl, strikes_use hinv rfl rfl rfl (hagrees.ticked_use key) (by simp)⟩
  | get key =>
    refine ⟨_, [], rfl, strikes_use hinv rfl rfl rfl (hagrees.ticked_use key) ?_⟩
    intro k hk
    cases hk
    rfl
  | erase key =>
    obtain ⟨left, hstrikes⟩ := strikes_erase hinv hagrees key
    exact ⟨_, left, rfl, hstrikes⟩

structure RunInv (limit : Nat) (r : Run κ ν) : Prop where
  inv : Inv limit r.cache
  agrees : Agrees r

theorem runInv_start (limit : Nat) : RunInv limit (start limit : Run κ ν) where
  inv := inv_empty limit
  agrees := ⟨fun _ => rfl, rfl⟩

theorem RunInv.next {r r' : Run κ ν} (h : RunInv limit r) (hnext : next r action = some r') :
    RunInv limit r' := by
  unfold LfuCache.next at hnext
  split at hnext
  case isFalse => cases hnext
  case isTrue hallowed =>
    obtain ⟨o, left, hperform, hstrikes⟩ := perform_strikes h.inv h.agrees hallowed
    rw [hperform, map_some] at hnext
    rw [← some.inj hnext]
    exact ⟨hstrikes.inv, hstrikes.agrees h.agrees⟩

theorem RunInv.of_reachable {ok : Run κ ν → Action κ ν → Prop}
    (h : Reachable LfuCache.next ok (start limit) r) : RunInv limit r :=
  h.invariant (runInv_start limit) fun _ _ _ hinv _ hnext => hinv.next hnext

theorem Inv.usedOnce_made (h : Inv limit c) (hitem : item ∈ c.usedOnce) : item.node < c.nodes := by
  have hordered := h.ordered
  unfold usedOnce at hitem
  cases hbuckets : c.freqBuckets with
  | nil => simp [hbuckets] at hitem
  | cons b rest =>
    rw [hbuckets] at hitem hordered
    dsimp only at hitem
    split at hitem
    · exact hordered.made b mem_cons_self item hitem
    · cases hitem

theorem owned_emplace_iff (habsent : ¬ c.Present key) (val : ν) {freq : Nat}
    (hitem : item.node < c.nodes) : (c.emplace key val).Owned freq item ↔ c.Owned freq item := by
  rw [Owned, Owned, lookup_emplace habsent]
  split
  case isTrue heq =>
    have hnone : c.keyData.lookup item.key = none := by
      rw [heq]
      exact not_isSome_iff_eq_none.mp habsent
    rw [hnone]
    simp only [map_some, map_none, some.injEq, Prod.mk.injEq, reduceCtorEq, iff_false, not_and]
    intro _
    omega
  case isFalse => rfl

/-- The first node that the data of its key refers to is of the key with the
least count that was reached first. -/
theorem firstOwned_least (h : Inv limit c) (habsent : ¬ c.Present key) (val : ν) :
    ∃ data, (c.emplace key val).keyData.lookup
        (firstKey c.usedOnce (fun item => decide (c.Owned 1 item)) key) = some data ∧
      ∀ k data', k ≠ firstKey c.usedOnce (fun item => decide (c.Owned 1 item)) key →
        (c.emplace key val).keyData.lookup k = some data' →
        (view data).Precedes (view data') := by
  have hnew : decide ((c.emplace key val).Owned 1 ⟨key, c.nodes⟩) = true := by
    rw [decide_eq_true_iff, Owned, lookup_emplace habsent, if_pos rfl]
    rfl
  obtain ⟨e, hfind, hkey⟩ := find_entries_emplace c key val
    (fun e => decide ((c.emplace key val).Owned e.1 e.2)) hnew
  have hsame : firstKey c.usedOnce (fun item => decide ((c.emplace key val).Owned 1 item)) key =
      firstKey c.usedOnce (fun item => decide (c.Owned 1 item)) key := by
    refine firstKey_congr ?_ key
    intro item hitem
    exact decide_eq_decide.mpr (owned_emplace_iff habsent val (h.usedOnce_made hitem))
  rw [← hsame, ← hkey]
  obtain ⟨howned, before, after, hsplit, hbef⟩ := find?_eq_some_iff_append.mp hfind
  obtain ⟨data, hdata, hplace⟩ := map_eq_some_iff.mp (of_decide_eq_true howned)
  obtain ⟨hbucket, hpos⟩ := Prod.mk.inj hplace
  refine ⟨data, hdata, ?_⟩
  intro k data' hne hdata'
  have hmem := h.emplace_own key val k data' hdata'
  have hpairs := (h.emplace_ordered key val).entries_pairwise
  rw [hsplit] at hmem hpairs
  rcases mem_append.mp hmem with hmem | hmem
  · have hfalse := hbef _ hmem
    have htrue : (c.emplace key val).Owned data'.bucket ⟨k, data'.pos⟩ := by
      rw [Owned, hdata']
      rfl
    simp [htrue] at hfalse
  · rcases mem_cons.mp hmem with heq | hmem
    · exact absurd (congrArg (fun e => e.2.key) heq) hne
    · have hlt : Before e _ := rel_of_pairwise_cons (pairwise_append.mp hpairs).2.1 hmem
      rw [Before, ← hbucket, ← hpos] at hlt
      exact hlt

theorem Life.Precedes.asymm {a b : Life ν} (h : a.Precedes b) : ¬ b.Precedes a := by
  rintro (hlt | ⟨heq, hlt⟩) <;> rcases h with hlt' | ⟨heq', hlt'⟩ <;> omega

/-- The step of an insertion: the victim is the least key exactly if no stale
node of another key comes first. -/
theorem victimLeast_iff (h : RunInv limit r) {val : ν} (habsent : ¬ r.cache.Present key)
    (hreached : reached r.cache action = r.cache.emplace key val)
    (hins : inserted r action = some key) {calls : List ν} {c' : LfuCache κ ν}
    (hput : r.cache.putNonExisting key val = some (calls, c')) :
    VictimLeast r action ⟨none, calls, c'⟩ ↔ r.cache.NoStaleFirst key := by
  obtain ⟨calls', c'', hput', hinv', hnodes, hcases⟩ := h.inv.putNonExisting_spec key val
  rw [hput, some.injEq, Prod.mk.injEq] at hput'
  obtain ⟨rfl, rfl⟩ := hput'
  have htouched : ∀ k, r.touched action k =
      ((r.cache.emplace key val).keyData.lookup k).map view := by
    intro k
    rw [h.agrees.touched_eq, hreached]
  rcases hcases with ⟨hroom, -, hdata⟩ | ⟨hfull, data, -, hdata, hlook⟩
  · refine iff_of_true ?_ (fun hfull => absurd hfull hroom.ne')
    intro k _ victim life hleaves
    rw [Leaves, htouched, isSome_map, Present, hdata] at hleaves
    exact absurd hleaves.1 hleaves.2
  · obtain ⟨least, hleast, hprecedes⟩ := firstOwned_least h.inv habsent val
    rw [NoStaleFirst]
    generalize r.cache.victimKey key = evicted at hdata hlook ⊢
    generalize firstKey r.cache.usedOnce (fun item => decide (r.cache.Owned 1 item)) key = first
      at hleast hprecedes ⊢
    have hleaves : ∀ k, Leaves r action ⟨none, calls, c'⟩ k ↔ k = evicted := by
      intro k
      rw [Leaves, htouched, isSome_map, Present, hlook]
      split
      case isTrue heq =>
        rw [heq, hdata]
        simp
      case isFalse hne => simp [hne, isSome_iff_ne_none]
    constructor
    · intro hvictim _
      by_contra hne
      have hback := hprecedes evicted data hne hdata
      refine hback.asymm (hvictim key hins evicted (view data) ((hleaves _).mpr rfl) ?_
        first (view least) (Ne.symm hne) ?_)
      · rw [htouched, hdata, map_some]
      · rw [htouched, hleast, map_some]
    · intro hsame k _ victim life hvictim hlife other life' hother hlife'
      have heq := (hleaves victim).mp hvictim
      have hfirst := hsame hfull
      rw [htouched] at hlife hlife'
      obtain ⟨d, hd, rfl⟩ := map_eq_some_iff.mp hlife
      obtain ⟨d', hd', rfl⟩ := map_eq_some_iff.mp hlife'
      rw [heq, hfirst, hleast, some.injEq] at hd
      rw [heq, hfirst] at hother
      rw [← hd]
      exact hprecedes other d' hother hd'

/-- The condition on a step: an insertion into a full cache meets no stale
node of another key than the one it is to evict. -/
def NoStaleVictim (r : Run κ ν) (action : Action κ ν) : Prop :=
  match inserted r action with
  | some key => r.cache.NoStaleFirst key
  | none => True

instance (r : Run κ ν) (action : Action κ ν) : Decidable (NoStaleVictim r action) := by
  unfold NoStaleVictim
  split <;> infer_instance

theorem noStaleVictim_iff (h : inserted r action = some key) :
    NoStaleVictim r action ↔ r.cache.NoStaleFirst key := by
  rw [NoStaleVictim, h]

theorem victimLeast_iff_of_not_inserted (h : inserted r action = none) (o : Outcome κ ν) :
    VictimLeast r action o ↔ NoStaleVictim r action := by
  refine iff_of_true ?_ ?_
  · intro key hkey
    rw [h] at hkey
    cases hkey
  · rw [NoStaleVictim, h]
    trivial

end UhCore.Caches.LfuCache
