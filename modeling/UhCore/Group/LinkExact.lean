import UhCore.Group.Link

/-!
When links are exact. Counts are sent for all stripes of a fragment before it
is known whether the fragment is rejected, so a link is exact only if no
fragment with a tracked stripe is rejected.
-/

namespace UhCore.Group

open Words Storage List

theorem countP_lt_countP {p q : Fragment → Bool} {l : List Fragment}
    (hle : ∀ f ∈ l, p f = true → q f = true) {f : Fragment} (hf : f ∈ l) (hq : q f = true)
    (hp : p f = false) : l.countP p < l.countP q := by
  induction l with
  | nil => cases hf
  | cons x rest ih =>
    have hrest := countP_mono_left (fun y hy => hle y (mem_cons_of_mem _ hy))
    rw [countP_cons, countP_cons]
    rcases mem_cons.mp hf with rfl | hf
    · simp only [hp, hq, if_true]
      simp
      omega
    · have hlt := ih (fun y hy => hle y (mem_cons_of_mem _ hy)) hf
      have hx := hle x mem_cons_self
      cases hpx : p x with
      | false => simp; omega
      | true => simp [hx hpx]; omega

/-- How a view routes counts: `sent` says which storages get the counts of a
fragment, `home` on which storages it lies. -/
structure Routing (storages : Nat) (stripes : Fragment → List Nat)
    (sent home : Fragment → Nat → Bool) (addr : Address) : Prop where
  nodup : ∀ f, (stripes f).Nodup
  nonempty : ∀ f ∈ addr, ∃ t, t ∈ stripes f
  reaches : ∀ f ∈ addr, ∃ id, id < storages ∧ sent f id = true
  gathers : ∀ f ∈ addr, ∀ f' ∈ addr, ∀ id, sent f id = true → home f' id = true → sent f' id = true
  own : ∀ f ∈ addr, ∀ id id', home f id = true → sent f id' = true → home f id' = true →
    sent f id = true

section Exact

variable {storages : Nat} {stripes : Fragment → List Nat} {sent home : Fragment → Nat → Bool}
  {tables : Nat → RefTable} {addr : Address}

def sentCount (stripes : Fragment → List Nat) (sent : Fragment → Nat → Bool) (addr : Address)
    (id t : Nat) : Nat :=
  addr.countP (fun f => sent f id && decide (t ∈ stripes f))

/-- The condition of an exact link: whenever a fragment names a stripe that is
tracked where its count goes, it lies on that storage, it is not rejected, and
the count does not overflow. -/
def LinkCondition (storages : Nat) (stripes : Fragment → List Nat)
    (sent home : Fragment → Nat → Bool) (tables : Nat → RefTable) (addr : Address) : Prop :=
  ∀ f ∈ addr, ∀ id, id < storages → sent f id = true → ∀ t ∈ stripes f, ∀ v,
    tables id t = some v →
      home f id = true ∧ ¬ Rejects storages stripes sent tables addr f ∧
        v + sentCount stripes sent addr id t < 2 ^ 64

/-- Under the condition, a fragment that no count was sent for on its storage
is rejected. -/
theorem rejects_of_not_sent (hrouting : Routing storages stripes sent home addr)
    (hcond : LinkCondition storages stripes sent home tables addr) {f : Fragment}
    (hf : f ∈ addr) {id : Nat} (hhome : home f id = true) (hsent : sent f id = false) :
    Rejects storages stripes sent tables addr f := by
  obtain ⟨id', hid', hsent'⟩ := hrouting.reaches f hf
  obtain ⟨t, ht⟩ := hrouting.nonempty f hf
  refine ⟨t, ht, id', hid', ⟨f, hf, hsent', ht⟩, ?_⟩
  rcases hv : tables id' t with _ | v
  · rfl
  · have hhome' := (hcond f hf id' hid' hsent' t ht v hv).1
    have := hrouting.own f hf id id' hhome hsent' hhome'
    rw [hsent] at this
    cases this

variable {rejected : Address} {after : Nat → RefTable}
  (hrejected : ∀ f, f ∈ rejected ↔ f ∈ addr ∧ Rejects storages stripes sent tables addr f)
  (htracked : ∀ id t v, id < storages → tables id t = some v →
    after id t = some (wrap 64 (v + sentCount stripes sent addr id t)))
  (huntracked : ∀ id t, id < storages → tables id t = none → after id t = none)
  (hvalues : ∀ id t v, tables id t = some v → v < 2 ^ 64)
  (hlength : addr.length < 2 ^ 64) (hrouting : Routing storages stripes sent home addr)

/-- The fragments on a stripe of a storage that were not rejected. -/
def keptCount (stripes : Fragment → List Nat) (home : Fragment → Nat → Bool)
    (addr rejected : Address) (id t : Nat) : Nat :=
  addr.countP (fun f => decide (f ∉ rejected) && (home f id && decide (t ∈ stripes f)))

include hrejected htracked huntracked hvalues hlength hrouting

omit huntracked in
theorem linkCondition_of_exact
    (hexact : LinkExact storages (fun f id t => home f id && decide (t ∈ stripes f)) tables
      after addr rejected) : LinkCondition storages stripes sent home tables addr := by
  intro f hf id hid hsent t ht v hv
  have hcount := hexact id hid t
  rw [htracked id t v hid hv, hv, Option.getD_some, Option.getD_some] at hcount
  change _ = v + keptCount stripes home addr rejected id t at hcount
  have hv64 := hvalues id t v hv
  have hsentLe : sentCount stripes sent addr id t ≤ addr.length := countP_le_length
  have hfit : v + sentCount stripes sent addr id t < 2 ^ 64 := by
    by_contra hge
    have := wrap_add_period_le (not_lt.mp hge)
    omega
  rw [wrap_of_lt hfit] at hcount
  have hkept : home f id = true ∧ f ∉ rejected := by
    by_contra hnot
    have hlt : keptCount stripes home addr rejected id t < sentCount stripes sent addr id t := by
      apply countP_lt_countP _ hf
      · simp [hsent, ht]
      · rw [← Bool.not_eq_true]
        simp only [Bool.and_eq_true, decide_eq_true_eq]
        tauto
      · intro f' hf' hp
        simp only [Bool.and_eq_true, decide_eq_true_eq] at hp ⊢
        exact ⟨hrouting.gathers f hf f' hf' id hsent hp.2.1, hp.2.2⟩
    omega
  refine ⟨hkept.1, ?_, hfit⟩
  intro hrej
  exact hkept.2 ((hrejected f).mpr ⟨hf, hrej⟩)

omit hlength in
theorem exact_of_linkCondition (hcond : LinkCondition storages stripes sent home tables addr) :
    LinkExact storages (fun f id t => home f id && decide (t ∈ stripes f)) tables
      after addr rejected := by
  intro id hid t
  change _ = _ + keptCount stripes home addr rejected id t
  have hkept : ∀ f ∈ addr, f ∉ rejected → home f id = true → sent f id = true := by
    intro f hf hnot hhome
    by_contra hsent
    exact hnot ((hrejected f).mpr
      ⟨hf, rejects_of_not_sent hrouting hcond hf hhome (Bool.not_eq_true _ ▸ hsent)⟩)
  rcases hv : tables id t with _ | v
  · rw [huntracked id t hid hv]
    have hzero : keptCount stripes home addr rejected id t = 0 := by
      apply countP_eq_zero.mpr
      intro f hf hp
      simp only [Bool.and_eq_true, decide_eq_true_eq] at hp
      exact hp.1 ((hrejected f).mpr ⟨hf, t, hp.2.2, id, hid,
        ⟨f, hf, hkept f hf hp.1 hp.2.1, hp.2.2⟩, hv⟩)
    rw [hzero]
    rfl
  · have hcounts : keptCount stripes home addr rejected id t =
        sentCount stripes sent addr id t := by
      apply countP_congr
      intro f hf
      simp only [Bool.and_eq_true, decide_eq_true_eq]
      constructor
      · rintro ⟨hnot, hhome, ht⟩
        exact ⟨hkept f hf hnot hhome, ht⟩
      · rintro ⟨hsent, ht⟩
        obtain ⟨hhome, hnot, -⟩ := hcond f hf id hid hsent t ht v hv
        exact ⟨fun hmem => hnot ((hrejected f).mp hmem).2, hhome, ht⟩
    have hfit : v + sentCount stripes sent addr id t < 2 ^ 64 := by
      rcases Nat.eq_zero_or_pos (sentCount stripes sent addr id t) with hzero | hpos
      · rw [hzero]
        exact hvalues id t v hv
      · obtain ⟨f, hf, hp⟩ := countP_pos_iff.mp hpos
        simp only [Bool.and_eq_true, decide_eq_true_eq] at hp
        exact (hcond f hf id hid hp.1 t hp.2 v hv).2.2
    rw [htracked id t v hid hv, wrap_of_lt hfit, hcounts]
    rfl

end Exact

/-- Links of all storages are exact under the condition only. -/
theorem linkStorages_exact_iff {storages : Nat} {stripes : Fragment → List Nat}
    {sent home : Fragment → Nat → Bool} {on : Fragment → Nat → Nat → Bool}
    {tables : Nat → RefTable} {addr : Address} {refcounts : Nat → List Refcount}
    (hrcs : ∀ id, id < storages →
      refcounts id = countStripes ((addr.filter (sent · id)).flatMap stripes))
    (hon : ∀ f ∈ addr, ∀ id t, on f id t = (home f id && decide (t ∈ stripes f)))
    (hvalues : ∀ id t v, tables id t = some v → v < 2 ^ 64)
    (hlength : addr.length < 2 ^ 64) (hrouting : Routing storages stripes sent home addr) :
    LinkExact storages on tables (linkStorages storages refcounts tables).2 addr
        (computeRejectedAddress stripes (linkStorages storages refcounts tables).1 addr) ↔
      LinkCondition storages stripes sent home tables addr := by
  have hcongr : ∀ after rejected, LinkExact storages on tables after addr rejected ↔
      LinkExact storages (fun f id t => home f id && decide (t ∈ stripes f)) tables after addr
        rejected := by
    intro after rejected
    have hcount : ∀ id t, addr.countP (fun f => decide (f ∉ rejected) && on f id t) =
        addr.countP (fun f => decide (f ∉ rejected) &&
          (home f id && decide (t ∈ stripes f))) := by
      intro id t
      apply countP_congr
      intro f hf
      rw [hon f hf]
    simp only [LinkExact, hcount]
  have hrejected := fun f => @mem_rejected_iff storages stripes sent tables addr refcounts hrcs f
  have htracked : ∀ id t v, id < storages → tables id t = some v →
      (linkStorages storages refcounts tables).2 id t =
        some (wrap 64 (v + sentCount stripes sent addr id t)) := by
    intro id t v hid hv
    exact linkStorages_tracked hrcs hrouting.nodup hid hv (hvalues id t v hv)
  have huntracked : ∀ id t, id < storages → tables id t = none →
      (linkStorages storages refcounts tables).2 id t = none := by
    intro id t hid hnone
    simp only [linkStorages, hid, if_true]
    exact increment_untracked _ hnone
  rw [hcongr]
  exact ⟨linkCondition_of_exact hrejected htracked hvalues hlength hrouting,
    exact_of_linkCondition hrejected htracked huntracked hvalues hrouting⟩

/-- A range of bytes and a stripe have a byte in common. -/
def overlapsStripe (stripeSize start size t : Nat) : Bool :=
  decide (start < (t + 1) * stripeSize ∧ t * stripeSize < start + size)

variable {t stripeSize start size : Nat}

theorem mem_stripeLoop {a b : Nat} : t ∈ stripeLoop a b ↔ a ≤ t ∧ t ≤ b := by
  rw [stripeLoop, mem_range'_1]
  omega

theorem nodup_stripeLoop (a b : Nat) : (stripeLoop a b).Nodup := nodup_range'

theorem mem_stripeLoop_range (hstripe : 0 < stripeSize) (hsize : 0 < size) :
    t ∈ stripeLoop (start / stripeSize) ((start + size - 1) / stripeSize) ↔
      overlapsStripe stripeSize start size t = true := by
  rw [mem_stripeLoop, overlapsStripe, decide_eq_true_eq, Nat.le_div_iff_mul_le hstripe,
    ← Nat.lt_succ_iff, Nat.div_lt_iff_lt_mul hstripe]
  have : t * stripeSize ≤ start + size - 1 ↔ t * stripeSize < start + size := by omega
  rw [this]

theorem overlapsStripe_first (hstripe : 0 < stripeSize) (hsize : 0 < size) :
    overlapsStripe stripeSize start size (start / stripeSize) = true := by
  rw [← mem_stripeLoop_range hstripe hsize, mem_stripeLoop]
  exact ⟨le_refl _, Nat.div_le_div_right (by omega)⟩

namespace RrView

variable (view : RrView) {addr : Address} {f : Fragment} {tables : Nat → RefTable}

def storageId (frag : Fragment) : Nat := (Rr.getStoragePointer frag.pointer).1

def overlaps (frag : Fragment) (t : Nat) : Bool :=
  overlapsStripe view.stripeSize (Rr.getStoragePointer frag.pointer).2 frag.size t

def onStripe (frag : Fragment) (id t : Nat) : Bool :=
  decide (storageId frag = id) && view.overlaps frag t

/-- Nonempty fragments that lie on storages of the group. -/
structure WellFormed (addr : Address) : Prop where
  length : addr.length < 2 ^ 64
  nonempty : ∀ f ∈ addr, 0 < f.size
  storage : ∀ f ∈ addr, storageId f < view.storages
  fits : ∀ f ∈ addr, (Rr.getStoragePointer f.pointer).2 + f.size ≤ 2 ^ 64

/-- Counts of fragments go to their own storage, no fragment with a tracked
stripe shares a stripe number with an untracked one, and no count overflows. -/
def NoPartialRejection (tables : Nat → RefTable) (addr : Address) : Prop :=
  ∀ f ∈ addr, ∀ t, view.overlaps f t = true → ∀ v, tables (mapKey f) t = some v →
    storageId f < 2 ^ 16 ∧
      (∀ t', view.overlaps f t' = true → ∀ f' ∈ addr, view.overlaps f' t' = true →
        tables (mapKey f') t' ≠ none) ∧
      v + addr.countP (fun f' => decide (mapKey f' = mapKey f) && view.overlaps f' t) < 2 ^ 64

theorem mem_stripes (haddr : view.WellFormed addr) (hf : f ∈ addr) {t : Nat} :
    t ∈ view.stripes f ↔ view.overlaps f t = true := by
  have hsize := haddr.nonempty f hf
  have hfits := haddr.fits f hf
  have hstripe := view.stripeSize_gt
  simp only [stripes]
  rw [wsub_of_le (by omega) (by omega) (by omega)]
  exact mem_stripeLoop_range (by omega) hsize

theorem routing (haddr : view.WellFormed addr) :
    Routing view.storages view.stripes (fun f id => decide (mapKey f = id))
      (fun f id => decide (storageId f = id)) addr where
  nodup := fun _ => nodup_stripeLoop _ _
  nonempty := by
    intro f hf
    have hstripe := view.stripeSize_gt
    exact ⟨_, (view.mem_stripes haddr hf).mpr
      (overlapsStripe_first (by omega) (haddr.nonempty f hf))⟩
  reaches := by
    intro f hf
    exact ⟨mapKey f, lt_of_le_of_lt (wrap_le 16 _) (haddr.storage f hf), decide_eq_true rfl⟩
  gathers := by
    intro f _ f' _ id hsent hhome
    rw [decide_eq_true_eq] at hsent hhome ⊢
    rw [mapKey, ← storageId, hhome]
    exact wrap_of_lt (hsent ▸ wrap_lt 16 _)
  own := by
    intro f _ id id' hhome hsent hhome'
    rw [decide_eq_true_eq] at hhome hsent hhome' ⊢
    rw [hsent, ← hhome, hhome']

theorem linkCondition_iff (haddr : view.WellFormed addr) :
    LinkCondition view.storages view.stripes (fun f id => decide (mapKey f = id))
      (fun f id => decide (storageId f = id)) tables addr ↔
      view.NoPartialRejection tables addr := by
  have hkey : ∀ f ∈ addr, mapKey f < view.storages := fun f hf =>
    lt_of_le_of_lt (wrap_le 16 _) (haddr.storage f hf)
  have hcount : ∀ id t, sentCount view.stripes (fun f id => decide (mapKey f = id)) addr id t =
      addr.countP (fun f' => decide (mapKey f' = id) && view.overlaps f' t) := by
    intro id t
    apply countP_congr
    intro f hf
    simp [view.mem_stripes haddr hf]
  constructor
  · intro h f hf t ht v hv
    obtain ⟨hhome, hrej, hfit⟩ := h f hf (mapKey f) (hkey f hf) (decide_eq_true rfl) t
      ((view.mem_stripes haddr hf).mpr ht) v hv
    refine ⟨?_, ?_, ?_⟩
    · rw [decide_eq_true_eq] at hhome
      rw [hhome]
      exact wrap_lt 16 _
    · intro t' ht' f' hf' ht'' hnone
      exact hrej ⟨t', (view.mem_stripes haddr hf).mpr ht', mapKey f', hkey f' hf',
        ⟨f', hf', decide_eq_true rfl, (view.mem_stripes haddr hf').mpr ht''⟩, hnone⟩
    · rwa [hcount] at hfit
  · intro h f hf id _ hsent t ht v hv
    rw [decide_eq_true_eq] at hsent
    subst hsent
    obtain ⟨hlow, hrej, hfit⟩ := h f hf t ((view.mem_stripes haddr hf).mp ht) v hv
    refine ⟨decide_eq_true (wrap_of_lt hlow).symm, ?_, ?_⟩
    · rintro ⟨t', ht', id', _, ⟨f', hf', hsent', ht''⟩, hnone⟩
      rw [decide_eq_true_eq] at hsent'
      subst hsent'
      exact hrej t' ((view.mem_stripes haddr hf).mp ht') f' hf'
        ((view.mem_stripes haddr hf').mp ht'') hnone
    · rw [hcount]
      exact hfit

theorem link_eq (tables : Nat → RefTable) (haddr : view.WellFormed addr) :
    ∃ refcounts : Nat → List Refcount,
      (∀ id, id < view.storages → refcounts id =
        countStripes ((addr.filter fun f => decide (mapKey f = id)).flatMap view.stripes)) ∧
      view.link tables addr = .ok
        (computeRejectedAddress view.stripes (linkStorages view.storages refcounts tables).1 addr,
          (linkStorages view.storages refcounts tables).2) := by
  have hkeys : addr.all (fun frag => decide (mapKey frag < view.storages)) = true := by
    rw [List.all_eq_true]
    intro f hf
    exact decide_eq_true (lt_of_le_of_lt (wrap_le 16 _) (haddr.storage f hf))
  refine ⟨_, ?_, by simp only [link, extractRefcounts, hkeys, if_true, Bind.bind, Except.bind,
    pure, Except.pure]; rfl⟩
  intro id hid
  rw [getD_eq_getElem?_getD, getElem?_map, getElem?_range hid]
  rfl

/-- A round robin link returns, and is exact under the condition only. -/
theorem link_exact (hvalues : ∀ id t v, tables id t = some v → v < 2 ^ 64)
    (haddr : view.WellFormed addr) :
    ∃ rejected after, view.link tables addr = .ok (rejected, after) ∧
      (LinkExact view.storages view.onStripe tables after addr rejected ↔
        view.NoPartialRejection tables addr) := by
  obtain ⟨refcounts, hrcs, hlink⟩ := view.link_eq tables haddr
  refine ⟨_, _, hlink, ?_⟩
  rw [← view.linkCondition_iff haddr]
  apply linkStorages_exact_iff hrcs _ hvalues haddr.length (view.routing haddr)
  intro f hf id t
  have hmem := view.mem_stripes haddr hf (t := t)
  unfold onStripe
  congr 1
  rw [Bool.eq_iff_iff, decide_eq_true_eq, hmem]

/-- A stripe of the fragment is not tracked on the fragment's storage. -/
def LostData (tables : Nat → RefTable) (f : Fragment) : Prop :=
  ∃ t, view.overlaps f t = true ∧ tables (storageId f) t = none

/-- The fragment shares the number of a stripe with one of the address, and the stripe
is not tracked where the counts of that one go. -/
def SharesUntracked (tables : Nat → RefTable) (addr : Address) (f : Fragment) : Prop :=
  ∃ t, view.overlaps f t = true ∧
    ∃ f' ∈ addr, view.overlaps f' t = true ∧ tables (mapKey f') t = none

/-- The fragments that have lost data, in order. -/
def RejectsLost (tables : Nat → RefTable) (addr rejected : Address) : Prop :=
  ∃ p : Fragment → Bool, rejected = addr.filter p ∧
    ∀ f ∈ addr, (p f = true ↔ view.LostData tables f)

theorem mem_rejected_iff_shares (tables : Nat → RefTable) (haddr : view.WellFormed addr)
    {refcounts : Nat → List Refcount} (hrcs : ∀ id, id < view.storages → refcounts id =
      countStripes ((addr.filter fun f => decide (mapKey f = id)).flatMap view.stripes))
    (hf : f ∈ addr) :
    f ∈ computeRejectedAddress view.stripes (linkStorages view.storages refcounts tables).1 addr ↔
      view.SharesUntracked tables addr f := by
  rw [@mem_rejected_iff view.storages view.stripes (fun f id => decide (mapKey f = id)) tables addr
    refcounts hrcs f]
  constructor
  · rintro ⟨_, t, ht, id, _, ⟨f', hf', hsent, ht'⟩, hnone⟩
    rw [← decide_eq_true_eq.mp hsent] at hnone
    exact ⟨t, (view.mem_stripes haddr hf).mp ht, f', hf', (view.mem_stripes haddr hf').mp ht',
      hnone⟩
  · rintro ⟨t, ht, f', hf', ht', hnone⟩
    exact ⟨hf, t, (view.mem_stripes haddr hf).mpr ht, mapKey f',
      lt_of_le_of_lt (wrap_le 16 _) (haddr.storage f' hf'),
      ⟨f', hf', decide_eq_true rfl, (view.mem_stripes haddr hf').mpr ht'⟩, hnone⟩

/-- A link rejects the fragments that have lost data exactly if none of the others shares
the number of a stripe that another one has lost, and the storages have 16-bit ids. -/
theorem link_rejects_lost_iff (tables : Nat → RefTable) (addr : Address)
    (haddr : view.WellFormed addr) :
    ∃ rejected after, view.link tables addr = .ok (rejected, after) ∧
      (view.RejectsLost tables addr rejected ↔
        ∀ f ∈ addr,
          (view.LostData tables f → storageId f < 2 ^ 16 ∨ view.SharesUntracked tables addr f) ∧
          (view.SharesUntracked tables addr f → view.LostData tables f)) := by
  obtain ⟨refcounts, hrefcounts, hlink⟩ := view.link_eq tables haddr
  refine ⟨_, _, hlink, ?_⟩
  have hshares := fun f (hf : f ∈ addr) =>
    view.mem_rejected_iff_shares tables haddr hrefcounts hf
  constructor
  · rintro ⟨p, hp, hlost⟩ f hf
    rw [← hshares f hf, hp, mem_filter, hlost f hf]
    exact ⟨fun h => .inr ⟨hf, h⟩, fun h => h.2⟩
  · intro hcond
    refine ⟨_, computeRejectedAddress_eq_filter .., ?_⟩
    intro f hf
    have hfilter := hshares f hf
    rw [computeRejectedAddress_eq_filter, mem_filter, and_iff_right hf] at hfilter
    rw [hfilter]
    refine ⟨(hcond f hf).2, ?_⟩
    intro hlost
    rcases (hcond f hf).1 hlost with hlow | hshare
    · obtain ⟨t, ht, hnone⟩ := hlost
      rw [← wrap_of_lt hlow] at hnone
      exact ⟨t, ht, f, hf, ht, hnone⟩
    · exact hshare

end RrView

namespace EcGeometry

variable (g : EcGeometry) {addr : Address} {table : RefTable}

def overlaps (frag : Fragment) (t : Nat) : Bool :=
  overlapsStripe g.stripeSize (getGroupPointer frag.pointer) frag.size t

/-- Nonempty fragments whose stripes have 64-bit ids. -/
structure WellFormed (addr : Address) : Prop where
  length : addr.length < 2 ^ 64
  nonempty : ∀ f ∈ addr, 0 < f.size
  fits : ∀ f ∈ addr, getGroupPointer f.pointer + f.size ≤ (2 ^ 64 - 1) * g.stripeSize

/-- No fragment has both tracked and untracked stripes, and no count
overflows. -/
def NoPartialRejection (table : RefTable) (addr : Address) : Prop :=
  ∀ f ∈ addr, ∀ t, g.overlaps f t = true → ∀ v, table t = some v →
    (∀ t', g.overlaps f t' = true → table t' ≠ none) ∧
      v + addr.countP (fun f' => g.overlaps f' t) < 2 ^ 64

theorem mem_fragmentStripes (haddr : g.WellFormed addr) {f : Fragment} (hf : f ∈ addr) {t : Nat} :
    t ∈ g.fragmentStripes f ↔ g.overlaps f t = true := by
  have hsize := haddr.nonempty f hf
  have hfits := haddr.fits f hf
  have hpos : 0 < g.stripeSize := Nat.mul_pos g.dataShards_pos g.chunkSize_pos
  have hbound : (2 ^ 64 - 1) * g.stripeSize < 2 ^ 128 := by
    have hlt := g.stripeSize_lt
    change g.stripeSize < 2 ^ 64 at hlt
    omega
  have hdiv : ∀ x, x < (2 ^ 64 - 1) * g.stripeSize → x / g.stripeSize < 2 ^ 64 := by
    intro x hx
    have := Nat.div_lt_of_lt_mul (mul_comm _ g.stripeSize ▸ hx)
    omega
  simp only [fragmentStripes]
  rw [wsub_of_le (by omega) (by omega) (by omega), wrap_of_lt (hdiv _ (by omega)),
    wrap_of_lt (hdiv _ (by omega))]
  exact mem_stripeLoop_range hpos hsize

theorem routing (haddr : g.WellFormed addr) :
    Routing g.storages g.fragmentStripes (fun _ _ => true) (fun _ _ => true) addr where
  nodup := fun _ => nodup_stripeLoop _ _
  nonempty := by
    intro f hf
    exact ⟨_, (g.mem_fragmentStripes haddr hf).mpr (overlapsStripe_first
      (Nat.mul_pos g.dataShards_pos g.chunkSize_pos) (haddr.nonempty f hf))⟩
  reaches := by
    intro f _
    exact ⟨0, lt_of_lt_of_le g.dataShards_pos (Nat.le_add_right _ _), rfl⟩
  gathers := fun _ _ _ _ _ _ _ => rfl
  own := fun _ _ _ _ _ _ _ => rfl

theorem linkCondition_iff (haddr : g.WellFormed addr) :
    LinkCondition g.storages g.fragmentStripes (fun _ _ => true) (fun _ _ => true)
      (fun _ => table) addr ↔ g.NoPartialRejection table addr := by
  have hstor : 0 < g.storages := lt_of_lt_of_le g.dataShards_pos (Nat.le_add_right _ _)
  have hcount : ∀ id t, sentCount g.fragmentStripes (fun _ _ => true) addr id t =
      addr.countP (fun f' => g.overlaps f' t) := by
    intro id t
    apply countP_congr
    intro f hf
    simp [g.mem_fragmentStripes haddr hf]
  constructor
  · intro h f hf t ht v hv
    obtain ⟨-, hrej, hfit⟩ := h f hf 0 hstor rfl t ((g.mem_fragmentStripes haddr hf).mpr ht) v hv
    refine ⟨?_, by rwa [hcount] at hfit⟩
    intro t' ht' hnone
    have hmem := (g.mem_fragmentStripes haddr hf).mpr ht'
    exact hrej ⟨t', hmem, 0, hstor, ⟨f, hf, rfl, hmem⟩, hnone⟩
  · intro h f hf id _ _ t ht v hv
    obtain ⟨hrej, hfit⟩ := h f hf t ((g.mem_fragmentStripes haddr hf).mp ht) v hv
    refine ⟨rfl, ?_, by rwa [hcount]⟩
    rintro ⟨t', ht', _, _, _, hnone⟩
    exact hrej t' ((g.mem_fragmentStripes haddr hf).mp ht') hnone

/-- An erasure coding link is exact under the condition only. -/
theorem link_exact (hvalues : ∀ t v, table t = some v → v < 2 ^ 64) (haddr : g.WellFormed addr) :
    LinkExact g.storages (fun f _ t => g.overlaps f t) (fun _ => table)
        (g.link (fun _ => table) addr).2 addr (g.link (fun _ => table) addr).1 ↔
      g.NoPartialRejection table addr := by
  rw [← g.linkCondition_iff haddr]
  apply linkStorages_exact_iff _ _ (fun _ => hvalues) haddr.length (g.routing haddr)
  · intro id _
    rw [filter_true]
    rfl
  · intro f hf id t
    rw [Bool.true_and, Bool.eq_iff_iff, decide_eq_true_eq, g.mem_fragmentStripes haddr hf]

end EcGeometry

/-- Links are exact, in both views, exactly when no fragment with a tracked
stripe is rejected and no count overflows. -/
theorem link_exact_iff (view : RrView) (tables : Nat → RefTable) (g : EcGeometry)
    (table : RefTable) (addr : Address) :
    ((∀ id t v, tables id t = some v → v < 2 ^ 64) → view.WellFormed addr →
      ∃ rejected after, view.link tables addr = .ok (rejected, after) ∧
        (LinkExact view.storages view.onStripe tables after addr rejected ↔
          view.NoPartialRejection tables addr)) ∧
    ((∀ t v, table t = some v → v < 2 ^ 64) → g.WellFormed addr →
      (LinkExact g.storages (fun f _ t => g.overlaps f t) (fun _ => table)
          (g.link (fun _ => table) addr).2 addr (g.link (fun _ => table) addr).1 ↔
        g.NoPartialRejection table addr)) :=
  ⟨fun hvalues haddr => view.link_exact hvalues haddr,
    fun hvalues haddr => g.link_exact hvalues haddr⟩

/-- Two storages with stripes of two bytes. -/
def smallRr : RrView := ⟨2, 2, by decide⟩

/-- Two data shards of one byte and one parity. -/
def smallEc : EcGeometry := ⟨0, 2, 1, 1, Nat.two_pos, Nat.one_pos, show 2 < 2 ^ 64 by decide⟩

/-- One reference to each of the given stripes. -/
def oneReference (tracked : List Nat) : RefTable :=
  fun t => if t ∈ tracked then some 1 else none

theorem oneReference_lt (tracked : List Nat) {v : Nat} (h : oneReference tracked t = some v) :
    v < 2 ^ 64 := by
  unfold oneReference at h
  split at h
  · cases h
    decide
  · cases h

/-- A fragment that covers the end of the first stripe and the beginning of the
second one. -/
def crossing : Address := [⟨1, 2⟩]

theorem crossing_rr : smallRr.WellFormed crossing := ⟨by decide, by decide, by decide, by decide⟩

theorem crossing_ec : smallEc.WellFormed crossing := ⟨by decide, by decide, by decide⟩

theorem overlapsStripe_crossing (h : overlapsStripe 2 1 2 t = true) : t = 0 ∨ t = 1 := by
  simp only [overlapsStripe, decide_eq_true_eq] at h
  omega

theorem link_exact_sample :
    (∃ rejected after, smallRr.link (fun _ => oneReference [0, 1]) crossing =
        .ok (rejected, after) ∧
      LinkExact 2 smallRr.onStripe (fun _ => oneReference [0, 1]) after crossing rejected) ∧
    LinkExact 3 (fun f _ t => smallEc.overlaps f t) (fun _ => oneReference [0, 1])
      (smallEc.link (fun _ => oneReference [0, 1]) crossing).2 crossing
      (smallEc.link (fun _ => oneReference [0, 1]) crossing).1 := by
  obtain ⟨hrr, hec⟩ := link_exact_iff smallRr (fun _ => oneReference [0, 1]) smallEc
    (oneReference [0, 1]) crossing
  obtain ⟨rejected, after, hlink, hexact⟩ := hrr (fun _ _ _ => oneReference_lt _) crossing_rr
  refine ⟨⟨rejected, after, hlink, hexact.mpr ?_⟩,
    (hec (fun _ _ => oneReference_lt _) crossing_ec).mpr ?_⟩
  · intro f hf t ht v hv
    obtain rfl := mem_singleton.mp hf
    refine ⟨by decide, ?_, ?_⟩
    · intro t' ht' f' _ _
      change oneReference [0, 1] t' ≠ none
      rcases overlapsStripe_crossing ht' with rfl | rfl <;> decide
    · rcases overlapsStripe_crossing ht with rfl | rfl <;> cases hv <;> decide
  · intro f hf t ht v hv
    obtain rfl := mem_singleton.mp hf
    refine ⟨?_, ?_⟩
    · intro t' ht'
      rcases overlapsStripe_crossing ht' with rfl | rfl <;> decide
    · rcases overlapsStripe_crossing ht with rfl | rfl <;> cases hv <;> decide

/-- A fragment over a tracked and an untracked stripe is rejected, and its
count stays on the tracked one. -/
theorem rejected_fragment_leaves_count :
    (¬ ∀ (view : RrView) (tables : Nat → RefTable) (addr : Address),
      (∀ id t v, tables id t = some v → v < 2 ^ 64) → view.WellFormed addr →
      ∃ rejected after, view.link tables addr = .ok (rejected, after) ∧
        LinkExact view.storages view.onStripe tables after addr rejected) ∧
    ¬ ∀ (g : EcGeometry) (table : RefTable) (addr : Address),
      (∀ t v, table t = some v → v < 2 ^ 64) → g.WellFormed addr →
      LinkExact g.storages (fun f _ t => g.overlaps f t) (fun _ => table)
        (g.link (fun _ => table) addr).2 addr (g.link (fun _ => table) addr).1 := by
  constructor
  · intro h
    obtain ⟨rejected, after, hlink, hexact⟩ := h smallRr (fun _ => oneReference [0]) crossing
      (fun _ _ _ => oneReference_lt _) crossing_rr
    obtain ⟨rejected', after', hlink', hiff⟩ := smallRr.link_exact
      (fun _ _ _ => oneReference_lt [0]) crossing_rr
    rw [hlink] at hlink'
    cases hlink'
    have hcond := hiff.mp hexact ⟨1, 2⟩ mem_cons_self 0 (by decide) 1 (by decide)
    exact hcond.2.1 1 (by decide) ⟨1, 2⟩ mem_cons_self (by decide) (by decide)
  · intro h
    have hcond := (smallEc.link_exact (fun _ _ => oneReference_lt [0]) crossing_ec).mp
      (h smallEc (oneReference [0]) crossing (fun _ _ => oneReference_lt _) crossing_ec)
    exact (hcond ⟨1, 2⟩ mem_cons_self 0 (by decide) 1 (by decide)).1 1 (by decide) (by decide)

/-- One fragment on each storage, on stripes of the same number. -/
def twins : Address := [⟨0, 1⟩, ⟨2 ^ 64, 1⟩]

/-- The stripe is tracked on the first storage only. -/
def firstTracked (id : Nat) : RefTable := if id = 0 then oneReference [0] else oneReference []

theorem RrView.link_rejects_lost_iff_twins :
    ∃ rejected after, smallRr.link firstTracked twins = .ok (rejected, after) ∧
      (smallRr.RejectsLost firstTracked twins rejected ↔
        ∀ f ∈ twins,
          (smallRr.LostData firstTracked f →
            storageId f < 2 ^ 16 ∨ smallRr.SharesUntracked firstTracked twins f) ∧
          (smallRr.SharesUntracked firstTracked twins f → smallRr.LostData firstTracked f)) :=
  smallRr.link_rejects_lost_iff firstTracked twins ⟨by decide, by decide, by decide, by decide⟩

/-- The fragment on the first storage is rejected and has not lost its data. -/
theorem RrView.twin_rejected :
    (smallRr.link firstTracked twins).toOption.map Prod.fst = some twins ∧
      ¬ smallRr.LostData firstTracked ⟨0, 1⟩ := by
  refine ⟨by decide, ?_⟩
  rintro ⟨t, ht, hnone⟩
  have hzero : t = 0 := by
    change overlapsStripe 2 0 1 t = true at ht
    simp only [overlapsStripe, decide_eq_true_eq] at ht
    omega
  rw [hzero] at hnone
  exact absurd hnone (by decide)

end UhCore.Group
