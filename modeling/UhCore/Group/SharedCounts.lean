import UhCore.Group.StripeCounts
import UhCore.Lib.Transition

/-!
Reference counts of the storages of an erasure coded group. Every write, link
and unlink is sent to all storages, and each storage applies its copy at a time
of its own. What a storage tracks is the sum of what the copies it applied left
there.
-/

namespace UhCore.Group.SharedCounts

open Words Storage Transition List Option Function Refcount

/-- A write or link with the counts each storage rejected, and the unlink of its
address with the storages that applied it. -/
structure Request where
  upstream : Bool
  addr : Address
  answers : Nat → Option (List Refcount)
  released : Bool
  dropped : Nat → Bool

structure World where
  tables : Nat → RefTable
  requests : List Request

inductive Action where
  | write (addr : Address)
  | link (addr : Address)
  | deliver (i id : Nat)
  | unlink (i : Nat)
  | deliverUnlink (i id : Nat)

def start : World := ⟨fun _ _ => none, []⟩

section Model

variable (g : EcGeometry)

/-- A request that every storage applied and none rejected. -/
def Accepted (r : Request) : Prop := ∀ id, id < g.storages → r.answers id = some []

instance (r : Request) : Decidable (Accepted g r) :=
  inferInstanceAs (Decidable (∀ id, id < g.storages → r.answers id = some []))

def request (upstream : Bool) (addr : Address) : Request :=
  ⟨upstream, addr, fun _ => none, false, fun _ => false⟩

/-- A storage applies its copy of a write or link. -/
def deliver (w : World) (i id : Nat) (r : Request) : World :=
  let (rejected, table) := increment (g.extractRefcounts r.addr) r.upstream (w.tables id)
  { tables := update w.tables id table
    requests := w.requests.set i { r with answers := update r.answers id (some rejected) } }

/-- A storage applies its copy of an unlink; one that fails is rolled back. -/
def deliverUnlink (w : World) (i id : Nat) (r : Request) : World :=
  let table := match decrementTxn (g.extractRefcounts r.addr) (w.tables id) with
    | .ok (_, dbi) => dbi
    | .error _ => w.tables id
  { tables := update w.tables id table
    requests := w.requests.set i { r with dropped := update r.dropped id true } }

def next (w : World) : Action → Option World
  | .write addr => some { w with requests := w.requests ++ [request false addr] }
  | .link addr => some { w with requests := w.requests ++ [request true addr] }
  | .deliver i id =>
    match w.requests[i]? with
    | some r => if id < g.storages ∧ r.answers id = none then some (deliver g w i id r) else none
    | none => none
  | .unlink i =>
    match w.requests[i]? with
    | some r =>
      if Accepted g r ∧ r.released = false then
        some { w with requests := w.requests.set i { r with released := true } }
      else none
    | none => none
  | .deliverUnlink i id =>
    match w.requests[i]? with
    | some r =>
      if id < g.storages ∧ r.released = true ∧ r.dropped id = false then
        some (deliverUnlink g w i id r)
      else none
    | none => none

/-- All requests have been applied everywhere. -/
def Settled (w : World) : Prop :=
  ∀ r ∈ w.requests, ∀ id, id < g.storages →
    (r.answers id).isSome ∧ (r.released = true → r.dropped id = true)

instance (w : World) : Decidable (Settled g w) :=
  inferInstanceAs (Decidable (∀ r ∈ w.requests, ∀ id, id < g.storages →
    (r.answers id).isSome ∧ (r.released = true → r.dropped id = true)))

def TablesEqual (w : World) : Prop :=
  ∀ id, id < g.storages → ∀ id', id' < g.storages → w.tables id = w.tables id'

def stripesOf (addr : Address) : List Nat := addr.flatMap g.fragmentStripes

/-- A link meets, on every storage, the same untracked stripes as on the
storages that have answered it, and no count leaves its word. -/
def AnswersAlike (w : World) : Action → Prop
  | .write addr | .link addr =>
    ∀ t ∈ stripesOf g addr, (stripesOf g addr).count t < 2 ^ 64
  | .deliver i id =>
    ∀ r ∈ w.requests[i]?, ∀ t ∈ stripesOf g r.addr,
      (w.tables id t).getD 0 + (stripesOf g r.addr).count t < 2 ^ 64 ∧
      (r.upstream = true → ∀ id', id' < g.storages → ∀ rejected ∈ r.answers id',
        (w.tables id t = none ↔ t ∈ rejected.map stripeId))
  | .unlink _ | .deliverUnlink _ _ => True

instance (w : World) : DecidablePred (AnswersAlike g w) := fun action => by
  cases action <;> unfold AnswersAlike <;> infer_instance

/-- What the copies of a request that a storage applied left for a stripe. -/
def net (id t : Nat) (r : Request) : Nat :=
  match r.answers id with
  | none => 0
  | some rejected =>
    if r.dropped id = true ∨ t ∈ rejected.map stripeId then 0
    else (stripesOf g r.addr).count t

def total (w : World) (id t : Nat) : Nat := (w.requests.map (net g id t)).sum

end Model

def entry (n : Nat) : Option Nat := if n = 0 then none else some n

theorem sum_map_set (f : Request → Nat) {l : List Request} {i : Nat} {r : Request}
    (h : l[i]? = some r) (r' : Request) :
    ((l.set i r').map f).sum + f r = (l.map f).sum + f r' := by
  induction l generalizing i with
  | nil => simp at h
  | cons x rest ih =>
    cases i with
    | zero =>
      obtain rfl : x = r := by simpa using h
      simp only [set_cons_zero, map_cons, sum_cons]
      omega
    | succ i =>
      have := @ih i (by simpa using h)
      simp only [set_cons_succ, map_cons, sum_cons]
      omega

/-- What a request records stays in line with what was sent for it. -/
structure RequestOk (g : EcGeometry) (r : Request) : Prop where
  sized : ∀ t, (stripesOf g r.addr).count t < 2 ^ 64
  alike : ∀ id id' rejected rejected', r.answers id = some rejected →
    r.answers id' = some rejected' → ∀ t,
      t ∈ rejected.map stripeId ↔ t ∈ rejected'.map stripeId
  inside : ∀ id rejected, r.answers id = some rejected → id < g.storages ∧
    (r.upstream = false → rejected = []) ∧
    ∀ t ∈ rejected.map stripeId, t ∈ stripesOf g r.addr
  accepted : r.released = true → Accepted g r
  released : ∀ id, r.dropped id = true → r.released = true

/-- Every storage tracks the sum of what its copies left. -/
structure Inv (g : EcGeometry) (w : World) : Prop where
  requests : ∀ r ∈ w.requests, RequestOk g r
  counts : ∀ id, id < g.storages → ∀ t, w.tables id t = entry (total g w id t)

section Steps

variable {g : EcGeometry} {w : World} {n : Nat}

theorem entry_getD (n : Nat) : (entry n).getD 0 = n := by
  unfold entry
  split
  · rename_i h
    simp [h]
  · rfl

theorem entry_eq_none : entry n = none ↔ n = 0 := by
  unfold entry
  split <;> simp [*]

variable {addr : Address} {r : Request} {t i id id' : Nat} {table : RefTable}

theorem count_extractRefcounts (h : (stripesOf g addr).count t < 2 ^ 64) :
    countOf (g.extractRefcounts addr) t = (stripesOf g addr).count t :=
  countOf_countStripes h

theorem mem_extractRefcounts : t ∈ (g.extractRefcounts addr).map stripeId ↔ t ∈ stripesOf g addr :=
  mem_countStripes

theorem mem_set_cases {l : List Request} {r' r : Request} (h : r ∈ l.set i r') : r ∈ l ∨ r = r' :=
  mem_or_eq_of_mem_set h

theorem count_lt (h : ∀ t ∈ stripesOf g addr, (stripesOf g addr).count t < 2 ^ 64) (t : Nat) :
    (stripesOf g addr).count t < 2 ^ 64 := by
  by_cases ht : t ∈ stripesOf g addr
  · exact h t ht
  · rw [count_eq_zero_of_not_mem ht]
    exact Nat.two_pow_pos 64

theorem Inv.send (h : Inv g w) (upstream : Bool)
    (hok : ∀ t ∈ stripesOf g addr, (stripesOf g addr).count t < 2 ^ 64) :
    Inv g { w with requests := w.requests ++ [request upstream addr] } := by
  refine ⟨?_, ?_⟩
  · intro r hr
    rcases mem_append.mp hr with hr | hr
    · exact h.requests r hr
    · obtain rfl : r = request upstream addr := by simpa using hr
      refine ⟨count_lt hok, ?_, ?_, ?_, ?_⟩ <;> simp [request]
  · intro id hid t
    rw [h.counts id hid t]
    simp [total, net, request]

theorem total_set (hr : w.requests[i]? = some r) (r' : Request) (tables : Nat → RefTable)
    (id t : Nat) :
    total g ⟨tables, w.requests.set i r'⟩ id t + net g id t r = total g w id t + net g id t r' :=
  sum_map_set (net g id t) hr r'

theorem Inv.unlink (h : Inv g w) (hr : w.requests[i]? = some r) (hacc : Accepted g r) :
    Inv g { w with requests := w.requests.set i { r with released := true } } := by
  have hold := h.requests r (mem_of_getElem? hr)
  refine ⟨?_, ?_⟩
  · intro r' hr'
    rcases mem_set_cases hr' with hr' | rfl
    · exact h.requests r' hr'
    · exact ⟨hold.sized, hold.alike, hold.inside, fun _ => hacc, fun _ _ => rfl⟩
  · intro id hid t
    have hsum := total_set (g := g) hr { r with released := true } w.tables id t
    have hnet : net g id t { r with released := true } = net g id t r := rfl
    rw [h.counts id hid t]
    congr 1
    omega

theorem entry_pos (h : 0 < n) : entry n = some n := if_neg (ne_of_gt h)

/-- A copy of a write or link adds its occurrences to the stripes that it does
not reject. -/
theorem increment_entry (upstream : Bool) (htable : table t = entry n)
    (hlt : t ∈ stripesOf g addr → n + (stripesOf g addr).count t < 2 ^ 64) :
    (increment (g.extractRefcounts addr) upstream table).2 t =
      entry (n + if t ∈ (increment (g.extractRefcounts addr) upstream table).1.map
        stripeId then 0 else (stripesOf g addr).count t) := by
  by_cases ht : t ∈ stripesOf g addr
  · have hfits := hlt ht
    have hpos := count_pos_iff.mpr ht
    have hcount : countOf (g.extractRefcounts addr) t = (stripesOf g addr).count t :=
      count_extractRefcounts (by omega)
    have hmem := mem_extractRefcounts.mpr ht
    cases upstream with
    | false =>
      rw [increment_write_rejected, increment_write _ _ _ _ hmem, htable, entry_getD, hcount]
      · simp only [map_nil, not_mem_nil, if_false]
        rw [entry_pos (by omega)]
      · rw [htable, entry_getD, hcount]
        exact hfits
    | true =>
      by_cases hn : n = 0
      · have hnone : table t = none := htable.trans (entry_eq_none.mpr hn)
        rw [increment_untracked _ hnone, if_pos (mem_increment_rejected.mpr ⟨hmem, hnone⟩)]
        exact (entry_eq_none.mpr (by omega)).symm
      · have hsome : table t = some n := htable.trans (entry_pos (by omega))
        have hnot : t ∉ (increment (g.extractRefcounts addr) true table).1.map
            stripeId := by
          intro hrej
          have hnone := (mem_increment_rejected.mp hrej).2
          simp [hsome] at hnone
        rw [increment_link _ _ _ hsome (by omega), if_neg hnot, hcount, wrap_of_lt hfits,
          entry_pos (by omega)]
  · rw [increment_other _ _ (fun h => ht (mem_extractRefcounts.mp h)), htable,
      count_eq_zero_of_not_mem ht, ite_self, add_zero]

theorem net_of_ne (hne : id' ≠ id) (t : Nat) (r : Request) (answer : Option (List Refcount))
    (gone : Bool) :
    net g id' t { r with answers := update r.answers id answer } = net g id' t r ∧
      net g id' t { r with dropped := update r.dropped id gone } = net g id' t r := by
  simp [net, update_of_ne hne]

theorem RequestOk.answer (h : RequestOk g r) (hid : id < g.storages) (hopen : r.answers id = none)
    {rejected : List Refcount} (hwrite : r.upstream = false → rejected = [])
    (hsub : ∀ t ∈ rejected.map stripeId, t ∈ stripesOf g r.addr)
   
    (halike : ∀ id' rejected', r.answers id' = some rejected' → ∀ t, t ∈ rejected.map stripeId ↔ t ∈ rejected'.map stripeId) :
    RequestOk g { r with answers := update r.answers id (some rejected) } := by
  have hunreleased : r.released = false := by
    by_contra hrel
    have := h.accepted (by simpa using hrel) id hid
    simp [hopen] at this
  refine ⟨h.sized, ?_, ?_, ?_, h.released⟩
  · intro id1 id2 rejected1 rejected2 h1 h2 t
    simp only [Function.update_apply] at h1 h2
    split at h1 <;> split at h2
    · cases h1
      cases h2
      exact Iff.rfl
    · cases h1
      exact halike id2 rejected2 h2 t
    · cases h2
      exact (halike id1 rejected1 h1 t).symm
    · exact h.alike id1 id2 rejected1 rejected2 h1 h2 t
  · intro id1 rejected1 h1
    simp only [Function.update_apply] at h1
    split at h1
    · rename_i heq
      cases h1
      exact ⟨heq ▸ hid, hwrite, hsub⟩
    · exact h.inside id1 rejected1 h1
  · intro hrel
    simp [hunreleased] at hrel

theorem Inv.deliver (h : Inv g w) (hr : w.requests[i]? = some r) (hid : id < g.storages)
    (hopen : r.answers id = none) (hok : AnswersAlike g w (.deliver i id)) :
    Inv g (deliver g w i id r) := by
  have hold := h.requests r (mem_of_getElem? hr)
  have hcond := hok r (by simp [hr])
  refine ⟨?_, ?_⟩
  · intro r' hr'
    rcases mem_set_cases hr' with hr' | rfl
    · exact h.requests r' hr'
    · refine hold.answer hid hopen ?_ ?_ ?_
      · intro hwrite
        rw [hwrite, increment_write_rejected]
      · intro t ht
        cases hup : r.upstream with
        | false => simp [hup, increment_write_rejected] at ht
        | true =>
          rw [hup] at ht
          exact mem_extractRefcounts.mp (mem_increment_rejected.mp ht).1
      · intro id' rejected' hans t
        obtain ⟨hid', hempty, hsub⟩ := hold.inside id' rejected' hans
        cases hup : r.upstream with
        | false => simp [increment_write_rejected, hempty hup]
        | true =>
          rw [mem_increment_rejected, mem_extractRefcounts]
          constructor
          · rintro ⟨ht, hnone⟩
            exact ((hcond t ht).2 hup id' hid' rejected' hans).mp hnone
          · intro ht
            have hstripe := hsub t ht
            exact ⟨hstripe, ((hcond t hstripe).2 hup id' hid' rejected' hans).mpr ht⟩
  · intro id' hid' t
    have hsum := total_set (g := g) hr
      { r with answers := update r.answers id (some (increment
          (g.extractRefcounts r.addr) r.upstream (w.tables id)).1) }
      (SharedCounts.deliver g w i id r).tables id' t
    by_cases heq : id' = id
    · subst heq
      have htable := h.counts id' hid' t
      have hfits := fun ht => (hcond t ht).1
      rw [htable, entry_getD] at hfits
      have hbef : net g id' t r = 0 := by simp [net, hopen]
      have hdropped : r.dropped id' = false := by
        by_contra hdropped
        have := hold.accepted (hold.released id' (by simpa using hdropped)) id' hid'
        simp [hopen] at this
      rw [hbef, add_zero] at hsum
      refine (Eq.trans ?_ (increment_entry r.upstream htable hfits)).trans ?_
      · simp [SharedCounts.deliver]
      · refine congrArg entry (Eq.trans ?_ hsum.symm)
        simp [net, hdropped]
    · rw [(net_of_ne heq t r _ false).1] at hsum
      refine Eq.trans ?_ ((h.counts id' hid' t).trans (congrArg entry ?_))
      · simp [SharedCounts.deliver, update_of_ne heq]
      · exact (Nat.add_right_cancel hsum).symm

theorem decrementTxn_entry {left : Nat → Nat} (hsized : ∀ t, (stripesOf g addr).count t < 2 ^ 64)
    (htable : ∀ t, table t = entry (left t + (stripesOf g addr).count t)) :
    ∃ freed, decrementTxn (g.extractRefcounts addr) table =
      .ok (freed, fun t => entry (left t)) := by
  have htrack : ∀ t ∈ (g.extractRefcounts addr).map stripeId, (table t).isSome := by
    intro t ht
    have hpos := count_pos_iff.mpr (mem_extractRefcounts.mp ht)
    rw [htable t, entry_pos (by omega)]
    rfl
  have hnodup : ((g.extractRefcounts addr).map stripeId).Nodup := nodup_countStripes _
  obtain ⟨freed, dbi, hrun, hdbi⟩ := decrementTxn_eq hnodup htrack
  have heq : dbi = fun t => entry (left t) := by
    funext t
    rw [hdbi t, count_extractRefcounts (hsized t), htable t, entry_getD]
    split
    · split
      · exact (entry_eq_none.mpr (by omega)).symm
      · rw [entry_pos (by omega), Nat.add_sub_cancel]
    · rename_i hnot
      rw [count_eq_zero_of_not_mem (fun ht => hnot (mem_extractRefcounts.mpr ht)), add_zero]
  exact ⟨freed, heq ▸ hrun⟩

theorem Inv.deliverUnlink (h : Inv g w) (hr : w.requests[i]? = some r) (hid : id < g.storages)
    (hrel : r.released = true) (hopen : r.dropped id = false) :
    Inv g (deliverUnlink g w i id r) := by
  have hold := h.requests r (mem_of_getElem? hr)
  have hans := hold.accepted hrel id hid
  have hnet : ∀ t, net g id t r = (stripesOf g r.addr).count t := by
    intro t
    simp [net, hans, hopen]
  refine ⟨?_, ?_⟩
  · intro r' hr'
    rcases mem_set_cases hr' with hr' | rfl
    · exact h.requests r' hr'
    · exact ⟨hold.sized, hold.alike, hold.inside, hold.accepted, fun _ _ => hrel⟩
  · have hsum := total_set (g := g) hr { r with dropped := update r.dropped id true }
      (SharedCounts.deliverUnlink g w i id r).tables
    intro id' hid' t
    by_cases heq : id' = id
    · subst heq
      have hbef : ∀ t, w.tables id' t = entry (total g
          (SharedCounts.deliverUnlink g w i id' r) id' t + (stripesOf g r.addr).count t) := by
        intro t
        have hgone : net g id' t { r with dropped := update r.dropped id' true } = 0 := by
          simp [net, hans]
        rw [h.counts id' hid t, ← hnet t]
        exact congrArg entry ((hsum id' t).trans (by rw [hgone, add_zero])).symm
      obtain ⟨freed, hrun⟩ := decrementTxn_entry hold.sized hbef
      have htables : (SharedCounts.deliverUnlink g w i id' r).tables id' =
          match decrementTxn (g.extractRefcounts r.addr) (w.tables id') with
          | .ok (_, dbi) => dbi
          | .error _ => w.tables id' := update_self ..
      rw [htables, hrun]
    · have hsum := hsum id' t
      rw [(net_of_ne heq t r none true).2] at hsum
      refine Eq.trans ?_ ((h.counts id' hid' t).trans (congrArg entry ?_))
      · simp [SharedCounts.deliverUnlink, update_of_ne heq]
      · exact (Nat.add_right_cancel hsum).symm

theorem Inv.step (h : Inv g w) {action : Action} {w' : World} (hok : AnswersAlike g w action)
    (hnext : next g w action = some w') : Inv g w' := by
  cases action with
  | write addr =>
    cases hnext
    exact h.send false hok
  | link addr =>
    cases hnext
    exact h.send true hok
  | deliver i id =>
    cases hr : w.requests[i]? with
    | none => simp [next, hr] at hnext
    | some r =>
      simp only [next, hr, ite_none_right_eq_some, some.injEq] at hnext
      obtain ⟨⟨hid, hopen⟩, rfl⟩ := hnext
      exact h.deliver hr hid hopen hok
  | unlink i =>
    cases hr : w.requests[i]? with
    | none => simp [next, hr] at hnext
    | some r =>
      simp only [next, hr, ite_none_right_eq_some, some.injEq] at hnext
      obtain ⟨⟨hacc, _⟩, rfl⟩ := hnext
      exact h.unlink hr hacc
  | deliverUnlink i id =>
    cases hr : w.requests[i]? with
    | none => simp [next, hr] at hnext
    | some r =>
      simp only [next, hr, ite_none_right_eq_some, some.injEq] at hnext
      obtain ⟨⟨hid, hrel, hopen⟩, rfl⟩ := hnext
      exact h.deliverUnlink hr hid hrel hopen

theorem inv_start (g : EcGeometry) : Inv g start :=
  ⟨fun _ hr => absurd hr not_mem_nil, fun _ _ _ => rfl⟩

/-- A settled request left the same on every storage. -/
theorem RequestOk.net_eq (h : RequestOk g r)
    (hid : (r.answers id).isSome ∧ (r.released = true → r.dropped id = true))
    (hid' : (r.answers id').isSome ∧ (r.released = true → r.dropped id' = true)) (t : Nat) :
    net g id t r = net g id' t r := by
  obtain ⟨rejected, hans⟩ := isSome_iff_exists.mp hid.1
  obtain ⟨rejected', hans'⟩ := isSome_iff_exists.mp hid'.1
  have hdropped : r.dropped id = true ↔ r.dropped id' = true :=
    ⟨fun hd => hid'.2 (h.released id hd), fun hd => hid.2 (h.released id' hd)⟩
  simp only [net, hans, hans', hdropped, h.alike id id' rejected rejected' hans hans' t]

end Steps

/-- Storages that answered every link alike keep equal counts: when all requests
have been applied everywhere, they track the same stripes with the same
counts. -/
theorem settled_tables_equal (g : EcGeometry) {w : World}
    (h : Reachable (next g) (AnswersAlike g) start w) (hsettled : Settled g w) :
    TablesEqual g w := by
  have hinv : Inv g w := h.invariant (inv_start g) fun _ _ _ hs hok hstep => hs.step hok hstep
  intro id hid id' hid'
  funext t
  have htotal : total g w id t = total g w id' t := by
    refine congrArg List.sum (map_congr_left ?_)
    intro r hr
    exact (hinv.requests r hr).net_eq (hsettled r hr id hid) (hsettled r hr id' hid') t
  rw [hinv.counts id hid t, hinv.counts id' hid' t, htotal]

/-- One data and one parity storage, stripes of four bytes. -/
def mirror : EcGeometry where
  groupId := 0
  dataShards := 1
  parityShards := 1
  chunkSize := 4
  dataShards_pos := Nat.one_pos
  chunkSize_pos := four_pos
  stripeSize_lt := by decide

/-- A stripe is written and linked, and the write is unlinked after the link has
been applied by both storages. -/
theorem settled_tables_equal_relinked :
    ∃ w, Reachable (next mirror) (AnswersAlike mirror) start w ∧
      (Settled mirror w ∧ w.requests.length = 2 ∧ w.tables 0 0 = some 1) ∧
      TablesEqual mirror w :=
  exists_sample
    [.write [⟨0, 1⟩], .deliver 0 1, .deliver 0 0, .link [⟨0, 1⟩], .unlink 0, .deliver 1 1,
      .deliver 1 0, .deliverUnlink 0 0, .deliverUnlink 0 1] (by decide +kernel)
    fun _ hw hsettled => settled_tables_equal mirror hw hsettled.1

/-- A link races with the unlink of the only reference: the first storage adds
it before the unlink and keeps the stripe, the second one has freed the stripe
and rejects the link. -/
theorem raced_link_splits_counts :
    ¬ ∀ (g : EcGeometry) (w : World), Reachable (next g) (fun _ _ => True) start w →
      Settled g w → TablesEqual g w := by
  intro hall
  obtain ⟨w, hequal, hsettled, hfirst, hsecond⟩ := exists_of_forall (hall mirror)
    (fun w => Settled mirror w ∧ w.tables 0 0 = some 1 ∧ w.tables 1 0 = none)
    [.write [⟨0, 1⟩], .deliver 0 0, .deliver 0 1, .link [⟨0, 1⟩], .unlink 0, .deliver 1 0,
      .deliverUnlink 0 0, .deliverUnlink 0 1, .deliver 1 1] (by decide +kernel)
  have hsame := hequal hsettled 0 (by decide) 1 (by decide)
  have := congrFun hsame 0
  simp [hfirst, hsecond] at this

end UhCore.Group.SharedCounts
