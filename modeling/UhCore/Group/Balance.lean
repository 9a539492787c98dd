import UhCore.Group.ViewCalls
import UhCore.Lib.Transition

/-!
References taken by deduplication and released by unlinks. A call takes
references twice, for the known fragments when they are linked and for the new
ones when they are written, and an unlink counts the fragments of the returned
address.
-/

namespace UhCore.Group.Balance

open Words Storage Effects Transition Dedupe List GroupView

structure World where
  tables : Nat → RefTable
  /-- The addresses that were returned and not unlinked since. -/
  addrs : List Address
  /-- An unlink has thrown. -/
  failed : Bool

inductive Action where
  | deduplicate (env : SearchEnv) (target : Target) (data : List UInt8)
  | unlink (i : Nat)

section Model

variable (view : GroupView) (conf : DeduplicatorConfig)

/-- The link of the fragments that the search finds rejects none of them. -/
def linksAll (env : SearchEnv) (data : List UInt8) (tables : Nat → RefTable) : Bool :=
  match env.found conf data with
  | .error _ => false
  | .ok fr =>
    match run (view.link (getStoredFragments fr.frags)) tables with
    | (.ok [], _) => true
    | _ => false

/-- The load balancer only picks storages of the group. -/
def hasTarget : GroupView → Target → Bool
  | .rr view _, target => decide (target.storageId < view.storages)
  | .ec _, _ => true

def isError {α : Type} : Except Exn α → Bool
  | .ok _ => false
  | .error _ => true

def next (w : World) : Action → Option World
  | .deduplicate env target data =>
    if linksAll view conf env data w.tables && hasTarget view target then
      match run ((view.calls target).deduplicate env conf data) w.tables with
      | (.ok r, tables) => some { w with tables := tables, addrs := w.addrs ++ [r.addr] }
      | (.error _, _) => none
    else none
  | .unlink i =>
    match w.addrs[i]? with
    | none => none
    | some addr =>
      let (r, tables) := run (view.unlink addr) w.tables
      some ⟨tables, w.addrs.eraseIdx i, w.failed || isError r⟩

def start (tables : Nat → RefTable) : World := ⟨tables, [], false⟩

/-- The count that `extract_refcounts` has for a stripe of a storage. -/
def refcount (addr : Address) (id t : Nat) : Nat :=
  match view.extractRefcounts addr with
  | .ok refcounts => countOf (refcounts id) t
  | .error _ => 0

/-- No unlink has thrown; every count is the one at the start plus the counts of
the held addresses, and without any the entries that were created are gone. -/
structure Balanced (initial : Nat → RefTable) (w : World) : Prop where
  quiet : w.failed = false
  counts : ∀ id, id < view.storages → ∀ t, (w.tables id t).getD 0 =
    (initial id t).getD 0 + (w.addrs.map fun addr => refcount view addr id t).sum
  removed : w.addrs = [] → ∀ id, id < view.storages → ∀ t, initial id t = none →
    w.tables id t = none

/-- The written storage has a 16-bit id, and no count can leave its word. -/
def Fits (w : World) : Action → Prop
  | .deduplicate _ target data => view.Reaches target ∧
      ∀ id, id < view.storages → ∀ t, (w.tables id t).getD 0 + data.length < 2 ^ 64
  | .unlink _ => True

end Model

section Steps

variable {view : GroupView} {conf : DeduplicatorConfig} {env : SearchEnv} {data : List UInt8}
  {tables tables' : Nat → RefTable} {fr : Fragmentation} {target : Target}

theorem linksAll_link {rejected : Address} (h : linksAll view conf env data tables = true)
    (hfound : env.found conf data = .ok fr)
    (hlink : Returns (view.link (getStoredFragments fr.frags)) tables rejected tables') :
    rejected = [] := by
  simp only [Returns] at hlink
  simp only [linksAll, hfound, hlink] at h
  cases rejected with
  | nil => rfl
  | cons f rest => simp at h

theorem length_stored_unstored (frags : List DdFragment) :
    (getStoredFragments frags).length + (unstoredSizes frags).length = frags.length := by
  induction frags with
  | nil => rfl
  | cons f rest ih =>
    simp only [getStoredFragments, length_map] at ih ⊢
    rcases f.type_cases with htype | htype
    · simp only [htype, decide_true, filter_cons_of_pos, unstoredSizes, ne_eq,
        reduceCtorEq, not_false_eq_true, if_true, length_cons]
      omega
    · simp only [htype, reduceCtorEq, decide_false, Bool.false_eq_true, not_false_eq_true,
        filter_cons_of_neg, unstoredSizes, ne_eq, not_true_eq_false, if_false,
        length_cons]
      omega

theorem length_fragments {mem : GlobalMemory} (h : fr.Ready mem) {written : Address}
    (hsizes : written.map Fragment.size = unstoredSizes fr.frags) :
    (getStoredFragments fr.frags).length + written.length ≤ fr.contents.length := by
  have hlen : written.length = (unstoredSizes fr.frags).length := by
    rw [← hsizes, length_map]
  have hbytes : ∀ frags : List DdFragment, (∀ f ∈ frags, 0 < f.data.length) →
      frags.length ≤ (frags.flatMap DdFragment.data).length := by
    intro frags
    induction frags with
    | nil => simp
    | cons f rest ih =>
      intro hpos
      have hf := hpos f mem_cons_self
      have hrest := ih fun g hg => hpos g (mem_cons_of_mem _ hg)
      simp only [length_cons, flatMap_cons, length_append]
      omega
  have hconts := hbytes fr.frags fun f hf => (h.good f hf).nonempty
  rw [hlen, length_stored_unstored]
  exact hconts

theorem deduplicate_adds {r : DedupeResponse} (hlinks : linksAll view conf env data tables = true)
    (hreach : view.Reaches target)
    (hfits : ∀ id, id < view.storages → ∀ t, (tables id t).getD 0 + data.length < 2 ^ 64)
    (h : Returns ((view.calls target).deduplicate env conf data) tables r tables') :
    view.Routable r.addr ∧ r.addr.length ≤ data.length ∧
      ∀ id, id < view.storages → Adds (tables id) (tables' id) (view.occurrences r.addr id) := by
  simp only [DataView.deduplicate, returns_bind, returns_raise, returns_computed, returns_pure] at h
  obtain ⟨_, _, ⟨_, rfl⟩, _, _, ⟨hfound', rfl⟩, fr1, s1, hlink, fr2, s2, hflush, fr3, s3,
    hset, rfl, rfl⟩ := h
  obtain ⟨fr, hfound, hready, hconts⟩ := env.found_ok conf data
  obtain rfl := Except.ok.inj (hfound.symm.trans hfound')
  obtain ⟨rfl, hlinked⟩ : fr = fr1 ∧
      ((getStoredFragments fr.frags = [] ∧ s1 = tables) ∨
        Returns (view.link (getStoredFragments fr.frags)) tables [] s1) := by
    rcases returns_linkFragments hlink with ⟨hempty, rfl, rfl⟩ | ⟨_, rejected, hrun, hrest⟩
    · exact ⟨rfl, .inl ⟨hempty, rfl⟩⟩
    · have hnone := linksAll_link hlinks hfound hrun
      rcases hrest with ⟨_, rfl⟩ | ⟨hne, _⟩
      · exact ⟨rfl, .inr (hnone ▸ hrun)⟩
      · exact absurd hnone hne
  have hplace : ∀ buffer offsets t addr t',
      Returns ((view.calls target).write buffer offsets) t addr t' →
      addr = computeAddress (view.place target) buffer.length offsets := by
    intro buffer offsets t addr t' hwrite
    exact (returns_write hwrite).1
  obtain ⟨written, _, hperm, hsizes, hwritten⟩ := returns_flushToStorage hready hplace hflush
  obtain ⟨hsame, rfl, _⟩ := returns_flushToSet hset
  have hlen := length_fragments hready hsizes
  rw [hconts] at hlen
  have hstore : view.Routable (getStoredFragments fr.frags) ∧ ∀ id, id < view.storages →
      Adds (tables id) (s1 id) (view.occurrences (getStoredFragments fr.frags) id) := by
    rcases hlinked with ⟨hempty, rfl⟩ | hlinked
    · rw [hempty]
      exact ⟨fun f hf => absurd hf not_mem_nil, fun id _ => Adds.refl _⟩
    · apply link_adds hlinked
      intro id hid t
      have hle : (view.occurrences (getStoredFragments fr.frags) id).count t ≤ _ :=
        count_occurrences_le _ id t
      have hlt := hfits id hid t
      omega
  have hnew : view.Routable written ∧ ∀ id, id < view.storages →
      Adds (s1 id) (s3 id) (view.occurrences written id) := by
    rcases hwritten with ⟨_, rfl, rfl⟩ | ⟨_, _, buffer, offsets, hrun⟩
    · exact ⟨fun f hf => absurd hf not_mem_nil, fun id _ => Adds.refl _⟩
    · refine ⟨?_, write_adds hreach hrun ?_⟩
      · rw [(returns_write hrun).1]
        exact routable_written hreach _ _
      · intro id hid t
        have hle : (view.occurrences (getStoredFragments fr.frags) id).count t ≤ _ :=
          count_occurrences_le _ id t
        have hle' : (view.occurrences written id).count t ≤ _ :=
          count_occurrences_le _ id t
        have hlt := hfits id hid t
        rw [(hstore.2 id hid t).1]
        omega
  rw [hsame]
  refine ⟨?_, ?_, ?_⟩
  · apply GroupView.Routable.of_perm hperm.symm
    intro f hf
    rcases mem_append.mp hf with hf | hf
    · exact hstore.1 f hf
    · exact hnew.1 f hf
  · rw [hperm.length_eq, length_append]
    exact hlen
  · intro id hid
    refine ((hstore.2 id hid).trans (hnew.2 id hid)).of_count ?_
    intro t
    rw [← occurrences_append]
    exact (count_occurrences_perm hperm id t).symm

/-- The references that a list of addresses holds on a stripe. -/
def held (view : GroupView) (addrs : List Address) (id t : Nat) : Nat :=
  (addrs.map fun addr => (view.occurrences addr id).count t).sum

structure Inv (view : GroupView) (initial : Nat → RefTable) (w : World) : Prop where
  quiet : w.failed = false
  addrs : ∀ addr ∈ w.addrs, view.Routable addr ∧ addr.length < 2 ^ 64
  counts : ∀ id, id < view.storages → ∀ t,
    (w.tables id t).getD 0 = (initial id t).getD 0 + held view w.addrs id t
  removed : ∀ id, id < view.storages → ∀ t, initial id t = none →
    held view w.addrs id t = 0 → w.tables id t = none

variable {initial : Nat → RefTable} {w : World} {addr : Address} {i : Nat}

theorem Inv.deduplicated (h : Inv view initial w) (hroutable : view.Routable addr)
    (hlen : addr.length < 2 ^ 64)
    (hadds : ∀ id, id < view.storages → Adds (w.tables id) (tables id) (view.occurrences addr id)) :
    Inv view initial { w with tables := tables, addrs := w.addrs ++ [addr] } := by
  have hheld : ∀ id t, held view (w.addrs ++ [addr]) id t =
      held view w.addrs id t + (view.occurrences addr id).count t := by
    intro id t
    simp [held]
  refine ⟨h.quiet, ?_, ?_, ?_⟩
  · intro addr' haddr'
    rcases mem_append.mp haddr' with haddr' | haddr'
    · exact h.addrs addr' haddr'
    · rw [mem_singleton.mp haddr']
      exact ⟨hroutable, hlen⟩
  · intro id hid t
    rw [(hadds id hid t).1, h.counts id hid t, hheld, add_assoc]
  · intro id hid t hnone hzero
    rw [hheld] at hzero
    have hnot : t ∉ view.occurrences addr id := count_eq_zero.mp (by omega)
    exact ((hadds id hid t).2 hnot).trans (h.removed id hid t hnone (by omega))

theorem held_eraseIdx {addrs : List Address} (h : addrs[i]? = some addr) (id t : Nat) :
    held view addrs id t = (view.occurrences addr id).count t + held view (addrs.eraseIdx i) id t := by
  obtain ⟨hi, rfl⟩ := List.getElem?_eq_some_iff.mp h
  have hperm := (getElem_cons_eraseIdx_perm hi).map
    fun addr => (view.occurrences addr id).count t
  have hsum := hperm.sum_eq
  rw [map_cons, sum_cons] at hsum
  exact hsum.symm

theorem Inv.unlinked (h : Inv view initial w) (haddr : w.addrs[i]? = some addr) :
    ∃ tables, Returns (view.unlink addr) w.tables () tables ∧
      Inv view initial ⟨tables, w.addrs.eraseIdx i, w.failed⟩ := by
  obtain ⟨hroutable, hlen⟩ := h.addrs addr (mem_of_getElem? haddr)
  have hheld : ∀ id t, held view w.addrs id t =
      (view.occurrences addr id).count t + held view (w.addrs.eraseIdx i) id t :=
    held_eraseIdx haddr
  have hcovered : ∀ id, id < view.storages → ∀ t ∈ view.occurrences addr id,
      (view.occurrences addr id).count t ≤ (w.tables id t).getD 0 := by
    intro id hid t _
    rw [h.counts id hid t, hheld]
    omega
  obtain ⟨tables, hrun, hdrops⟩ := unlink_drops hroutable hcovered
    fun id t => lt_of_le_of_lt (count_occurrences_le addr id t) hlen
  refine ⟨tables, hrun, h.quiet, ?_, ?_, ?_⟩
  · exact fun addr' haddr' => h.addrs addr' (mem_of_mem_eraseIdx haddr')
  · intro id hid t
    rw [(hdrops id hid t).1, h.counts id hid t, hheld, add_left_comm, Nat.add_sub_cancel_left]
  · intro id hid t hnone hzero
    have hcounts := h.counts id hid t
    rw [hheld, hzero, hnone, Option.getD_none] at hcounts
    by_cases ht : t ∈ view.occurrences addr id
    · exact (hdrops id hid t).2.2 ht (by omega)
    · refine ((hdrops id hid t).2.1 ht).trans (h.removed id hid t hnone ?_)
      rw [hheld, hzero, count_eq_zero.mpr ht]

theorem exists_storage (h : view.Reaches target) : ∃ id, id < view.storages := by
  cases view with
  | rr view groupId => exact ⟨_, h.1⟩
  | ec g => exact ⟨0, Nat.add_pos_left g.dataShards_pos _⟩

theorem Inv.step (h : Inv view initial w) {action : Action} {w' : World}
    (hok : Fits view w action) (hnext : next view conf w action = some w') :
    Inv view initial w' := by
  cases action with
  | deduplicate env target data =>
    simp only [next] at hnext
    split at hnext
    · rename_i hguard
      rw [Bool.and_eq_true] at hguard
      split at hnext
      · rename_i r tables hrun
        cases hnext
        obtain ⟨hroutable, hlen, hadds⟩ := deduplicate_adds hguard.1 hok.1 hok.2 hrun
        obtain ⟨id, hid⟩ := exists_storage hok.1
        have hlt := hok.2 id hid 0
        exact h.deduplicated hroutable (by omega) hadds
      · cases hnext
    · cases hnext
  | unlink i =>
    simp only [next] at hnext
    split at hnext
    · cases hnext
    · rename_i addr haddr
      obtain ⟨tables, hrun, hinv⟩ := h.unlinked haddr
      simp only [Returns] at hrun
      simp only [hrun, isError, Bool.or_false, Option.some.injEq] at hnext
      exact hnext ▸ hinv

theorem inv_start (view : GroupView) (tables : Nat → RefTable) : Inv view tables (start tables) :=
  ⟨rfl, fun _ h => absurd h not_mem_nil, fun _ _ _ => rfl, fun _ _ _ h _ => h⟩

theorem refcount_eq (hroutable : view.Routable addr) (hlen : addr.length < 2 ^ 64) {id : Nat}
    (hid : id < view.storages) (t : Nat) :
    refcount view addr id t = (view.occurrences addr id).count t := by
  obtain ⟨refcounts, hrefs⟩ := extractRefcounts_ok hroutable
  have hle : (view.occurrences addr id).count t ≤ _ := count_occurrences_le addr id t
  simp only [refcount, hrefs, extractRefcounts_eq hrefs hid]
  exact countOf_countStripes (by omega)

theorem Inv.balanced (h : Inv view initial w) : Balanced view initial w := by
  refine ⟨h.quiet, ?_, ?_⟩
  · intro id hid t
    rw [h.counts id hid t, held]
    congr 2
    apply map_congr_left
    intro addr haddr
    exact (refcount_eq (h.addrs addr haddr).1 (h.addrs addr haddr).2 hid t).symm
  · intro hnil id hid t hnone
    apply h.removed id hid t hnone
    rw [hnil]
    rfl

end Steps

/-- Calls whose writes go to storages with 16-bit ids take exactly the counts of
the addresses they return: unlinking these addresses never throws and leaves no
entry that the calls created. -/
theorem taken_references_released (view : GroupView) (conf : DeduplicatorConfig)
    (tables : Nat → RefTable) {w : World}
    (h : Reachable (next view conf) (Fits view) (start tables) w) : Balanced view tables w := by
  have hinv : Inv view tables w :=
    h.invariant (inv_start view tables) fun _ _ _ hs hok hstep => hs.step hok hstep
  exact hinv.balanced

/-- An empty fragment set: every byte is new. -/
def emptySet : SearchEnv where
  mem := fun _ => none
  set := .leaf
  stored := FragmentSet.leaf_stored
  searchError := none
  eraseError := none
  insertError := none

def sampleConf : DeduplicatorConfig := ⟨1, 2, Nat.two_pos⟩

/-- A group with more storages than there are 16-bit ids. -/
def wideGroup : GroupView := .rr ⟨2 ^ 16 + 1, 4, by decide⟩ 0

/-- The one byte that the sample calls store. -/
def sampleFragments : Fragmentation := ⟨[⟨.unstored, [7], true, 0, 1, some 0, []⟩], [], 1, 1, []⟩

variable {target : Target} {refcounts : Nat → List Refcount}

theorem returns_newByte {view : GroupView} {tables : Nat → RefTable}
    (hrefs : view.extractRefcounts [⟨view.place target 0, 1⟩] = .ok refcounts) :
    Returns ((view.calls target).deduplicate emptySet sampleConf [7]) tables
      ⟨1, [⟨view.place target 0, 1⟩]⟩ (view.register target refcounts tables) := by
  have hwrite : Returns ((view.calls target).write [7] [0]) tables [⟨view.place target 0, 1⟩]
      (view.register target refcounts tables) := by
    apply Returns.bind (returns_computed.mpr ⟨hrefs, rfl⟩)
    exact returns_bind.mpr ⟨⟨⟩, _, returns_modify.mpr rfl, rfl⟩
  have hflush : Returns (flushToStorage (view.calls target) sampleFragments) tables
      ⟨[⟨.unstored, [7], true, 0, 1, some 0, [⟨view.place target 0, 1⟩]⟩], [0], 1, 1,
        [⟨view.place target 0, 1⟩]⟩ (view.register target refcounts tables) := by
    apply hwrite.bind
    exact Returns.bind rfl rfl
  refine returns_bind.mpr ⟨(), tables, rfl, ?_⟩
  apply Returns.bind rfl
  apply Returns.bind rfl
  apply hflush.bind
  exact rfl

theorem returns_link_nil (view : GroupView) (tables : Nat → RefTable) :
    ∃ tables', Returns (view.link []) tables [] tables' := by
  have hnone : ∀ (stripes : Fragment → List Nat) (rejected : List (List Refcount)),
      computeRejectedAddress stripes rejected [] = [] := by
    intro stripes rejected
    simp [computeRejectedAddress]
  cases view with
  | rr view groupId =>
    have hrefs : view.extractRefcounts [] = .ok ((List.range view.storages).map fun id =>
        countStripes ((([] : Address).filter fun frag => RrView.mapKey frag = id).flatMap
          view.stripes)) := by
      simp only [RrView.extractRefcounts, all_nil, if_true]
    simp only [link, returns_attempt, RrView.link, hrefs, Bind.bind, Except.bind, pure,
      Except.pure, hnone]
    exact ⟨_, rfl⟩
  | ec g =>
    simp only [link, returns_attempt, EcGeometry.link, hnone]
    exact ⟨_, rfl⟩

theorem next_newByte {view : GroupView} {w : World} (htarget : hasTarget view target = true)
    (hrefs : view.extractRefcounts [⟨view.place target 0, 1⟩] = .ok refcounts) :
    next view sampleConf w (.deduplicate emptySet target [7]) =
      some { w with
        tables := view.register target refcounts w.tables
        addrs := w.addrs ++ [[⟨view.place target 0, 1⟩]] } := by
  have hlinks : linksAll view sampleConf emptySet [7] w.tables = true := by
    obtain ⟨tables', hlink⟩ := returns_link_nil view w.tables
    simp only [Returns] at hlink
    have hfound : emptySet.found sampleConf [7] = .ok sampleFragments := rfl
    have hstore : getStoredFragments sampleFragments.frags = [] := rfl
    simp only [linksAll, hfound, hstore, hlink]
  have hrun : Returns _ w.tables _ _ := returns_newByte hrefs
  simp only [Returns] at hrun
  simp only [next, hlinks, htarget, Bool.and_self, if_true, hrun]

/-- A group of one storage with pages of four bytes. -/
def plainGroup : GroupView := .rr ⟨1, 4, by decide⟩ 0

/-- A byte is stored and released again. -/
theorem taken_references_released_sample :
    ∃ w w', Reachable (next plainGroup sampleConf) (Fits plainGroup) (start fun _ _ => none) w ∧
      Reachable (next plainGroup sampleConf) (Fits plainGroup) (start fun _ _ => none) w' ∧
      (w.tables 0 0 = some 1 ∧ w'.addrs = []) ∧ Balanced plainGroup (fun _ _ => none) w ∧
      Balanced plainGroup (fun _ _ => none) w' := by
  have hfits : Fits plainGroup (start fun _ _ => none) (.deduplicate emptySet ⟨0, 0⟩ [7]) := by
    refine ⟨⟨by decide, by decide⟩, ?_⟩
    intro _ _ _
    show 0 + 1 < 2 ^ 64
    decide
  have hw : Reachable (next plainGroup sampleConf) (Fits plainGroup) (start fun _ _ => none) _ :=
    .step .start hfits rfl
  have hw' : Reachable (next plainGroup sampleConf) (Fits plainGroup) (start fun _ _ => none) _ :=
    .step hw (show Fits plainGroup _ (.unlink 0) from trivial) rfl
  exact ⟨_, _, hw, hw', ⟨rfl, rfl⟩, taken_references_released plainGroup sampleConf _ hw,
    taken_references_released plainGroup sampleConf _ hw'⟩

/-- The byte goes to a storage whose id does not fit the keys of the counts: its
count is registered nowhere, and the address has one on storage 0. -/
theorem wide_storage_id_loses_counts :
    ¬ ∀ (view : GroupView) (conf : DeduplicatorConfig) (tables : Nat → RefTable) (w : World),
      Reachable (next view conf) (fun _ _ => True) (start tables) w → Balanced view tables w := by
  intro hall
  have hroutable : wideGroup.Routable [⟨wideGroup.place ⟨2 ^ 16, 0⟩ 0, 1⟩] := by
    intro f hf
    rw [mem_singleton.mp hf]
    exact ⟨0, by decide, by decide⟩
  obtain ⟨refcounts, hrefs⟩ := extractRefcounts_ok hroutable
  have hstep := next_newByte (w := start fun _ _ => none) (by decide) hrefs
  have hbalanced := hall wideGroup sampleConf (fun _ _ => none) _ (.step .start trivial hstep)
  have hcount := hbalanced.counts 0 (by decide) 0
  have hrefcount := refcount_eq hroutable (by decide) (show 0 < wideGroup.storages by decide) 0
  have htable : wideGroup.register ⟨2 ^ 16, 0⟩ refcounts (fun _ _ => none) 0 0 = none := rfl
  simp only [start, nil_append, map_cons, map_nil, hrefcount, htable] at hcount
  revert hcount
  decide

end UhCore.Group.Balance
