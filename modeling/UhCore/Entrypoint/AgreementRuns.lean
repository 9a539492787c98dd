import UhCore.Entrypoint.Agreement
import UhCore.Entrypoint.Moves

/-!
The histories in which a listing, GET and HEAD agree. The invariant is about the
rows of every key: there is no delete marker, and the newest row is normal if
any is. A deletion that breaks it is seen by HEAD at once.
-/

namespace UhCore.Entrypoint.Agreement

open Directory (Versioning ObjectStatus)
open Effects Http Commands List Option Records Catalog List

section Shelves

variable (env : Env) (versioning : Versioning)

def markRow (id : Nat) (sticky : Option Bool) (e : Nat × ObjectRow) : Nat × ObjectRow :=
  (e.1, if e.1 = id then
    { e.2 with status := .deleted, sticky := sticky.getD e.2.sticky } else e.2)

variable {id : Nat} {sticky : Option Bool} {e : Nat × ObjectRow}

theorem markRow_of_ne (h : e.1 ≠ id) : markRow id sticky e = e := by
  rw [markRow, if_neg h]

theorem status_markRow :
    (markRow id sticky e).2.status = .normal ↔ e.1 ≠ id ∧ e.2.status = .normal := by
  by_cases h : e.1 = id <;> simp [markRow, h]

theorem getLast?_filter_of_last {α : Type*} {p : α → Bool} {xs : List α} {x : α}
    (h : xs.getLast? = some x) (hx : p x = true) : (xs.filter p).getLast? = some x := by
  obtain ⟨init, rfl⟩ := getLast?_eq_some_iff.mp h
  simp [hx]

/-- The rows of a key without delete markers. -/
structure Stock (rows : List (Nat × ObjectRow)) : Prop where
  plain : ∀ e ∈ rows, e.2.status = .normal ∨ e.2.status = .deleted ∧ e.2.sticky = false
  unsticky : versioning = .disabled → ∀ e ∈ rows, e.2.sticky = false
  decodable : ∀ e ∈ rows, ∃ addr, env.fmt.toAddress e.2.address = .ok addr

/-- The rows of a key where the newest one is normal if any is. -/
structure Shelf (rows : List (Nat × ObjectRow)) : Prop extends Stock env versioning rows where
  last : ∀ e ∈ rows, e.2.status = .normal → ∃ f, rows.getLast? = some f ∧ f.2.status = .normal
  single : versioning = .disabled → ∀ e ∈ rows, e.2.status = .normal → rows.getLast? = some e

variable {env versioning} {rows : List (Nat × ObjectRow)}

theorem Stock.visible_iff (h : Stock env versioning rows) (he : e ∈ rows) :
    visible versioning e = true ↔ e.2.status = .normal := by
  rcases h.plain e he with hstat | ⟨hstat, hsticky⟩
  · cases versioning <;> simp [visible, hstat]
  · cases versioning <;> simp [visible, hstat, hsticky]

theorem Stock.mark (h : Stock env versioning rows)
    (hsticky : ∀ e ∈ rows, e.1 = id → sticky.getD e.2.sticky = false) :
    Stock env versioning (rows.map (markRow id sticky)) := by
  constructor
  case plain =>
    intro e he
    obtain ⟨f, hf, rfl⟩ := mem_map.mp he
    by_cases hid : f.1 = id
    · exact Or.inr (by simp [markRow, hid, hsticky f hf hid])
    · rw [markRow_of_ne hid]
      exact h.plain f hf
  case unsticky =>
    intro hv e he
    obtain ⟨f, hf, rfl⟩ := mem_map.mp he
    by_cases hid : f.1 = id
    · simp [markRow, hid, hsticky f hf hid]
    · rw [markRow_of_ne hid]
      exact h.unsticky hv f hf
  case decodable =>
    intro e he
    obtain ⟨f, hf, rfl⟩ := mem_map.mp he
    obtain ⟨addr, haddr⟩ := h.decodable f hf
    exact ⟨addr, by by_cases hid : f.1 = id <;> simpa [markRow, hid] using haddr⟩

/-- A new row on top of the others. Without versioning none of them is normal. -/
theorem Stock.append (h : Stock env versioning rows)
    (hnone : versioning = .disabled → ∀ e ∈ rows, e.2.status ≠ .normal)
    (hstat : e.2.status = .normal) (hsticky : versioning = .disabled → e.2.sticky = false)
    (haddr : ∃ addr, env.fmt.toAddress e.2.address = .ok addr) :
    Shelf env versioning (rows ++ [e]) := by
  have hlast : (rows ++ [e]).getLast? = some e := by simp
  have hall : ∀ P : Nat × ObjectRow → Prop, (∀ f ∈ rows, P f) → P e → ∀ f ∈ rows ++ [e], P f := by
    intro P hrows he f hf
    rcases mem_append.mp hf with hf | hf
    · exact hrows f hf
    · exact mem_singleton.mp hf ▸ he
  refine ⟨⟨hall _ h.plain (Or.inl hstat), fun hv => hall _ (h.unsticky hv) (hsticky hv),
    hall _ h.decodable haddr⟩, fun _ _ _ => ⟨e, hlast, hstat⟩, fun hv => ?_⟩
  exact hall _ (fun f hf hnorm => absurd hnorm (hnone hv f hf)) fun _ => hlast

theorem Shelf.mark (h : Shelf env versioning rows)
    (hsticky : ∀ e ∈ rows, e.1 = id → sticky.getD e.2.sticky = false)
    (hlast : ∀ e, rows.getLast? = some e → e.1 = id → ∀ f ∈ rows, f.2.status = .normal → f.1 = id) :
    Shelf env versioning (rows.map (markRow id sticky)) := by
  refine ⟨h.toStock.mark hsticky, ?_, ?_⟩
  · intro e he hnorm
    obtain ⟨f, hf, rfl⟩ := mem_map.mp he
    obtain ⟨hne, hfnormal⟩ := status_markRow.mp hnorm
    obtain ⟨g, hg, hgnormal⟩ := h.last f hf hfnormal
    have hgne : g.1 ≠ id := fun hid => hne (hlast g hg hid f hf hfnormal)
    exact ⟨g, by rw [getLast?_map, hg, map_some, markRow_of_ne hgne], hgnormal⟩
  · intro hv e he hnorm
    obtain ⟨f, hf, rfl⟩ := mem_map.mp he
    obtain ⟨_, hfnormal⟩ := status_markRow.mp hnorm
    rw [getLast?_map, h.single hv f hf hfnormal, map_some]

theorem Shelf.filter (h : Shelf env versioning rows) {p : Nat × ObjectRow → Bool}
    (hp : ∀ e ∈ rows, e.2.status = .normal → p e = true) :
    Shelf env versioning (rows.filter p) := by
  have hmem : ∀ e ∈ rows.filter p, e ∈ rows := fun e he => mem_of_mem_filter he
  refine ⟨⟨fun e he => h.plain e (hmem e he), fun hv e he => h.unsticky hv e (hmem e he),
    fun e he => h.decodable e (hmem e he)⟩, ?_, ?_⟩
  · intro e he hnorm
    obtain ⟨f, hf, hfnormal⟩ := h.last e (hmem e he) hnorm
    exact ⟨f, getLast?_filter_of_last hf (hp f (mem_of_getLast? hf) hfnormal), hfnormal⟩
  · intro hv e he hnorm
    exact getLast?_filter_of_last (h.single hv e (hmem e he) hnorm) (hp e (hmem e he) hnorm)

theorem Shelf.versioned (h : Shelf env versioning rows) {v : Versioning} (hv : v ≠ .disabled) :
    Shelf env v rows :=
  ⟨⟨h.plain, fun hd => absurd hd hv, h.decodable⟩, h.last, fun hd => absurd hd hv⟩

/-- The newest row is the current one if it is normal, and else there is none. -/
theorem Shelf.current_eq (h : Shelf env versioning rows) :
    (rows.filter (visible versioning)).getLast? =
      rows.getLast?.filter fun e => decide (e.2.status = .normal) := by
  by_cases hnorm : ∃ e ∈ rows, e.2.status = .normal
  · obtain ⟨e, he, hstat⟩ := hnorm
    obtain ⟨f, hf, hfstatus⟩ := h.last e he hstat
    rw [getLast?_filter_of_last hf ((h.visible_iff (mem_of_getLast? hf)).mpr hfstatus), hf]
    rw [filter_some, if_pos (by simpa using hfstatus)]
  · push Not at hnorm
    have hnone := filter_eq_nil_iff.mpr fun e he hv => hnorm e he ((h.visible_iff he).mp hv)
    rw [hnone, getLast?_nil, eq_comm, filter_eq_none_iff]
    intro e he
    simpa using hnorm e (mem_of_getLast? he)

end Shelves

section Steps

variable (env : Env) (bucket : Text)

structure Inv (t : Tracked) (bucketId : Nat) : Prop where
  live : ∃ row, t.records.Live bucket bucketId row ∧
    ∀ key, Shelf env row.versioning (t.records.rowsOf bucketId key)
  gone : ∀ key, t.gone key = true → ∀ e ∈ t.records.rowsOf bucketId key, e.2.status ≠ .normal
  below : t.records.Below

variable {env bucket} {r : Records} {bucketId : Nat} {row : BucketRow} {key : Text}

variable {other : Text} {e : Nat × ObjectRow} {v : Versioning} {version : Text}

theorem rowsOf_ext {e f : Nat × ObjectRow} (he : e ∈ r.rowsOf bucketId key)
    (hf : f ∈ r.rowsOf bucketId other) (hid : e.1 = f.1) : e = f := by
  have hlook := (mem_rowsOf.mp he).1
  rw [hid, (mem_rowsOf.mp hf).1] at hlook
  exact Prod.ext hid (some.inj hlook).symm

theorem rowsOf_markDeleted_of_ne (he : e ∈ r.rowsOf bucketId key) (hne : key ≠ other)
    (sticky : Option Bool) :
    (r.markDeleted e.1 sticky).rowsOf bucketId other = r.rowsOf bucketId other := by
  rw [rowsOf_markDeleted]
  refine (map_congr_left fun f hf => ?_).trans (map_id _)
  refine markRow_of_ne fun hid => hne ?_
  rw [← (mem_rowsOf.mp he).2.2, ← (mem_rowsOf.mp hf).2.2, rowsOf_ext hf he hid]

theorem current_eq_some (h : Shelf env row.versioning (r.rowsOf bucketId key))
    (e : Nat × ObjectRow) : r.current row.versioning bucketId key = some e ↔
      (r.rowsOf bucketId key).getLast? = some e ∧ e.2.status = .normal := by
  rw [current, h.current_eq, filter_eq_some_iff]
  simp

theorem current_eq_none (h : Shelf env row.versioning (r.rowsOf bucketId key)) :
    r.current row.versioning bucketId key = none ↔
      ∀ e ∈ r.rowsOf bucketId key, e.2.status ≠ .normal := by
  rw [current, getLast?_eq_none_iff, filter_eq_nil_iff]
  exact forall₂_congr fun e he => not_congr (h.visible_iff he)

theorem agree_of_shelf (hlive : r.Live bucket bucketId row)
    (h : Shelf env row.versioning (r.rowsOf bucketId key)) : Agree env bucket r key := by
  have hlists : (∃ o, Lists bucket r key o) ↔
      ∃ e, r.current row.versioning bucketId key = some e := by
    simp only [lists_iff hlive, current_eq_some h]
    constructor
    · rintro ⟨_, e, hlast, hstat, _⟩
      exact ⟨e, hlast, hstat⟩
    · rintro ⟨e, hlast, hstat⟩
      exact ⟨_, e, hlast, hstat, rfl⟩
  refine ⟨fun scan req hreq => ?_, fun scan req hreq o addr ho haddr => ?_,
    fun scan req hreq => hlists.trans (heads_iff hlive hreq).symm⟩
  · simp only [hlists, gets_iff hlive hreq]
    constructor
    · rintro ⟨e, he⟩
      obtain ⟨addr, haddr⟩ := h.decodable e (current_mem he).1
      exact ⟨addr, e, he, haddr⟩
    · rintro ⟨_, e, he, _⟩
      exact ⟨e, he⟩
  · obtain ⟨e, hlast, hstat, rfl⟩ := (lists_iff hlive o).mp ho
    obtain ⟨f, hf, hfaddr⟩ := (gets_iff hlive hreq addr).mp haddr
    rw [(current_eq_some h e).mpr ⟨hlast, hstat⟩, some.injEq] at hf
    exact ⟨e.2, (mem_rowsOf.mp (mem_of_getLast? hlast)).1, hf ▸ hfaddr⟩

theorem absent_of_no_normal (hlive : r.Live bucket bucketId row)
    (h : Shelf env row.versioning (r.rowsOf bucketId key))
    (hnone : ∀ e ∈ r.rowsOf bucketId key, e.2.status ≠ .normal) : Absent env bucket r key := by
  have hcur := (current_eq_none h).mpr hnone
  refine ⟨fun o ho => ?_, fun scan req hreq addr haddr => ?_, fun scan req hreq hhead => ?_⟩
  · obtain ⟨e, hlast, hstat, _⟩ := (lists_iff hlive o).mp ho
    exact hnone e (mem_of_getLast? hlast) hstat
  · obtain ⟨e, he, _⟩ := (gets_iff hlive hreq addr).mp haddr
    simp [hcur] at he
  · obtain ⟨e, he⟩ := (heads_iff hlive hreq).mp hhead
    simp [hcur] at he

theorem Inv.holds {t : Tracked} (h : Inv env bucket t bucketId) : Holds env bucket t := by
  obtain ⟨row, hlive, hshelf⟩ := h.live
  intro key
  exact ⟨agree_of_shelf hlive (hshelf key),
    fun hgone => absent_of_no_normal hlive (hshelf key) (h.gone key hgone)⟩

theorem stock_displace (h : Shelf env row.versioning (r.rowsOf bucketId key)) :
    let left := (r.displace (displaced row.versioning
      (r.current row.versioning bucketId key))).rowsOf bucketId key
    Stock env row.versioning left ∧
      (row.versioning = .disabled → ∀ e ∈ left, e.2.status ≠ .normal) := by
  intro left
  cases hid : displaced row.versioning (r.current row.versioning bucketId key) with
  | none =>
    have hleft : left = r.rowsOf bucketId key := by simp only [left, hid, Records.displace]
    rw [hleft]
    refine ⟨h.toStock, fun hv => (current_eq_none h).mp ?_⟩
    rw [hv] at hid ⊢
    exact map_eq_none_iff.mp hid
  | some id =>
    have hleft : left = (r.rowsOf bucketId key).map (markRow id none) := by
      simp only [left, hid, Records.displace, rowsOf_markDeleted]
      rfl
    obtain ⟨e, hcur, rfl, hkept⟩ := Records.displaced_spec hid
    obtain ⟨hlast, hstat⟩ := (current_eq_some h e).mp hcur
    have hmem := mem_of_getLast? hlast
    rw [hleft]
    refine ⟨h.toStock.mark fun f hf hfe => ?_, fun hv f hf hnorm => ?_⟩
    · rw [rowsOf_ext hf hmem hfe]
      rcases hkept with hv | hsticky
      · exact h.unsticky hv e hmem
      · exact hsticky
    · obtain ⟨g, hg, rfl⟩ := mem_map.mp hf
      obtain ⟨hne, hgnormal⟩ := status_markRow.mp hnorm
      have hglast := h.single hv g hg hgnormal
      rw [hlast, some.injEq] at hglast
      exact hne (by rw [hglast])

theorem rowsOf_displace_of_ne (hne : key ≠ other) :
    (r.displace (displaced v (r.current v bucketId key))).rowsOf bucketId other =
      r.rowsOf bucketId other := by
  cases hid : displaced v (r.current v bucketId key) with
  | none => rfl
  | some id =>
    obtain ⟨e, hcur, rfl, _⟩ := displaced_spec hid
    exact rowsOf_markDeleted_of_ne (current_mem hcur).1 hne none

theorem Below.displace (h : r.Below) (id : Option Nat) : (r.displace id).Below := by
  cases id with
  | none => exact h
  | some id => exact h.modify id _

variable {t : Tracked} (scan : Scan) (now : Nat) {call : Call} {marker : ObjectRow}

theorem Inv.putObject (h : Inv env bucket t bucketId) {obj : NewObject} (hobj : obj.addr.isSome) :
    Inv env bucket (t.next env bucket ⟨scan, now, .putObject bucket obj⟩) bucketId := by
  obtain ⟨row, hlive, hshelf⟩ := h.live
  obtain ⟨addr, haddr⟩ := isSome_iff_exists.mp hobj
  let new := newRow env.db now t.records bucketId row.versioning obj.name
    (env.fmt.toBuffer addr) addr.dataSize obj.etag obj.mime
  have hnext : (t.next env bucket ⟨scan, now, .putObject bucket obj⟩).records =
      t.records.put row.versioning new := by
    simp only [Tracked.next, after_putObject, haddr, run_vrmPutObject env.db scan now hlive, new]
  have hrows : ∀ key, (t.records.put row.versioning new).rowsOf bucketId key =
      (t.records.displace (displaced row.versioning
        (t.records.current row.versioning bucketId obj.name))).rowsOf bucketId key ++
      if obj.name = key then [(t.records.nextObject, new)] else [] := by
    intro key
    rw [put, rowsOf_insertObject _ _ (Below.displace h.below _),
      displace_nextObject]
    simp [new, newRow]
  refine ⟨⟨row, ?_, fun key => ?_⟩, fun key hgone => ?_, ?_⟩
  · rw [hnext]
    exact hlive.of_buckets (put_buckets _ _ _)
  · rw [hnext, hrows]
    split
    case isTrue heq =>
      obtain ⟨hstock, hnone⟩ := stock_displace (hshelf obj.name)
      rw [← heq]
      exact hstock.append hnone rfl (fun hv => by simp [new, newRow, hv])
        ⟨addr, env.fmt.toAddress_toBuffer addr⟩
    case isFalse hne =>
      rw [append_nil, rowsOf_displace_of_ne hne]
      exact hshelf key
  · have hne : obj.name ≠ key ∧ t.gone key = true := by
      simpa [Tracked.next, Tracked.goneAfter] using hgone
    rw [hnext, hrows, if_neg hne.1, append_nil, rowsOf_displace_of_ne hne.1]
    exact h.gone key hne.2
  · rw [hnext]
    exact (Below.displace h.below _).insertObject new

/-- A row is marked where no newest row is taken from others that are normal. -/
theorem Inv.markDeleted (h : Inv env bucket t bucketId) (he : e ∈ t.records.rowsOf bucketId key)
    {sticky : Option Bool} (hsticky : sticky.getD e.2.sticky = false)
    (hlast : (t.records.rowsOf bucketId key).getLast? = some e → ∀ f ∈ t.records.rowsOf bucketId key, f.2.status = .normal → f.1 = e.1)
    {gone : Text → Bool}
    (hgone : ∀ other, gone other = true → t.gone other = true ∨ other = key ∧ ∀ f ∈ t.records.rowsOf bucketId key, f.2.status = .normal → f.1 = e.1)
    : Inv env bucket ⟨t.records.markDeleted e.1 sticky, gone⟩ bucketId := by
  obtain ⟨row, hlive, hshelf⟩ := h.live
  have hmarked : (t.records.markDeleted e.1 sticky).rowsOf bucketId key =
      (t.records.rowsOf bucketId key).map (markRow e.1 sticky) := rowsOf_markDeleted _ _ _ _ _
  have hunmarked : ∀ f ∈ (t.records.markDeleted e.1 sticky).rowsOf bucketId key,
      f.2.status = .normal → f ∈ t.records.rowsOf bucketId key ∧ f.1 ≠ e.1 := by
    intro f hf hnorm
    rw [hmarked] at hf
    obtain ⟨g, hg, rfl⟩ := mem_map.mp hf
    obtain ⟨hne, _⟩ := status_markRow.mp hnorm
    rw [markRow_of_ne hne]
    exact ⟨hg, hne⟩
  refine ⟨⟨row, hlive, fun other => ?_⟩, fun other hother f hf hnorm => ?_, h.below.modify _ _⟩
  · by_cases hother : key = other
    · subst hother
      rw [hmarked]
      refine (hshelf key).mark (fun f hf hid => ?_) fun f hf hid g hg hnorm => ?_
      · rwa [rowsOf_ext hf he hid]
      · rw [rowsOf_ext (mem_of_getLast? hf) he hid] at hf
        exact hlast hf g hg hnorm
    · rw [rowsOf_markDeleted_of_ne he hother]
      exact hshelf other
  · by_cases hkey : key = other
    · subst hkey
      obtain ⟨hmem, hne⟩ := hunmarked f hf hnorm
      rcases hgone key hother with hbef | ⟨_, hall⟩
      · exact h.gone key hbef f hmem hnorm
      · exact hne (hall f hmem hnorm)
    · rw [rowsOf_markDeleted_of_ne he hkey] at hf
      rcases hgone other hother with hbef | ⟨heq, _⟩
      · exact h.gone other hbef f hf hnorm
      · exact hkey heq.symm

theorem Inv.deleteObject (h : Inv env bucket t bucketId)
    (hok : StepOk env bucket t.records ⟨scan, now, .deleteObject bucket key none⟩) :
    Inv env bucket (t.next env bucket ⟨scan, now, .deleteObject bucket key none⟩) bucketId := by
  obtain ⟨row, hlive, hshelf⟩ := h.live
  have hgone : ∀ other, (t.next env bucket ⟨scan, now, .deleteObject bucket key none⟩).gone other =
      true → other = key ∨ t.gone other = true := by
    intro other hother
    simp only [Tracked.next, Tracked.goneAfter] at hother
    split at hother
    case isTrue heq => exact Or.inl heq.symm
    case isFalse => exact Or.inr hother
  have hnext : (t.next env bucket ⟨scan, now, .deleteObject bucket key none⟩).records = _ :=
    (after_deleteObject env.db env.fmt scan now t.records bucket key none).trans
      (run_vrmDeleteObject env.db scan now hlive key)
  cases hcur : t.records.current row.versioning bucketId key with
  | none =>
    rw [hcur] at hnext
    refine ⟨⟨row, ?_, ?_⟩, fun other hother => ?_, ?_⟩ <;> rw [hnext]
    · exact hlive
    · exact hshelf
    · rcases hgone other hother with rfl | hbef
      · exact (current_eq_none (hshelf other)).mp hcur
      · exact h.gone other hbef
    · exact h.below
  | some e =>
    obtain ⟨hlast, hstat⟩ := (current_eq_some (hshelf key) e).mp hcur
    have hmem := mem_of_getLast? hlast
    have hv : row.versioning = .disabled := by
      rcases hok bucketId row hlive with hv | hnone
      · exact hv
      · exact absurd hstat (hnone e hmem)
    have hall : ∀ f ∈ t.records.rowsOf bucketId key, f.2.status = .normal → f.1 = e.1 := by
      intro f hf hnorm
      have hflast := (hshelf key).single hv f hf hnorm
      rw [hlast, some.injEq] at hflast
      rw [hflast]
    rw [hcur] at hnext
    simp only [hstat, hv, delete, reduceCtorEq, if_false] at hnext
    have hinv := h.markDeleted hmem (by rw [getD_none, (hshelf key).unsticky hv e hmem])
        (fun _ => hall) fun other hother => (hgone other hother).symm.imp_right fun heq => ⟨heq, hall⟩
    rwa [← hnext] at hinv

theorem versionTarget_mem (h : versionTarget env r bucketId scan key version = some e) :
    e ∈ r.rowsOf bucketId key := by
  unfold versionTarget at h
  split at h
  case isTrue => exact mem_of_mem_filter (Scan.mem_of_first h)
  case isFalse =>
    split at h
    · exact absurd h (by simp)
    · exact mem_of_mem_filter (mem_of_getLast? h)

theorem after_deleteVersion (hlive : r.Live bucket bucketId row) (version : Text) :
    (Call.mk scan now (.deleteObject bucket key (some version))).after env.db env.fmt r =
      match versionTarget env r bucketId scan key version with
      | none => r
      | some e => r.markDeleted e.1
          (if version = "null".toList then none else some false) := by
  rw [after_deleteObject, versionTarget]
  simp only
  by_cases hnull : version = "null".toList
  · rw [if_pos hnull, if_pos hnull, if_pos hnull]
    exact run_vrmDeleteObjectNullVersion scan hlive key
  · rw [if_neg hnull, if_neg hnull, if_neg hnull]
    cases env.db.toUuid version with
    | error x => rfl
    | ok uuid => exact run_vrmDeleteObjectVersion hlive key uuid

theorem versionTarget_unsticky (h : versionTarget env r bucketId scan key version = some e) :
    (if version = "null".toList then none else some false : Option Bool).getD e.2.sticky =
      false := by
  by_cases hnull : version = "null".toList
  · rw [versionTarget, if_pos hnull] at h
    have he := (mem_filter.mp (Scan.mem_of_first h)).2
    simp only [Bool.and_eq_true, Bool.not_eq_eq_eq_not, Bool.not_true] at he
    rw [if_pos hnull, getD_none, he.1]
  · rw [if_neg hnull, getD_some]

theorem Inv.deleteVersion (h : Inv env bucket t bucketId)
    (hok : StepOk env bucket t.records ⟨scan, now, .deleteObject bucket key (some version)⟩) :
    Inv env bucket (t.next env bucket ⟨scan, now, .deleteObject bucket key (some version)⟩)
      bucketId := by
  obtain ⟨row, hlive, hshelf⟩ := h.live
  have hgone : ∀ other, (t.next env bucket
      ⟨scan, now, .deleteObject bucket key (some version)⟩).gone other = true →
      t.gone other = true := by
    intro other hother
    simp only [Tracked.next, Tracked.goneAfter] at hother
    split at hother
    case isTrue => exact absurd hother (by simp)
    case isFalse => exact hother
  have hnext : (t.next env bucket ⟨scan, now, .deleteObject bucket key (some version)⟩).records =
      _ := after_deleteVersion scan now hlive version
  cases htarget : versionTarget env t.records bucketId scan key version with
  | none =>
    rw [htarget] at hnext
    refine ⟨⟨row, ?_, ?_⟩, fun other hother => ?_, ?_⟩ <;> rw [hnext]
    · exact hlive
    · exact hshelf
    · exact h.gone other (hgone other hother)
    · exact h.below
  | some e =>
    rw [htarget] at hnext
    have hinv := h.markDeleted (versionTarget_mem scan htarget)
      (versionTarget_unsticky scan htarget) (hok bucketId row hlive e htarget)
      (fun other hother => Or.inl (hgone other hother))
    simp only at hnext
    rwa [← hnext] at hinv

theorem Inv.setBucketVersioning (h : Inv env bucket t bucketId) (hv : v ≠ .disabled) :
    Inv env bucket (t.next env bucket ⟨scan, now, .setBucketVersioning bucket v⟩) bucketId := by
  obtain ⟨row, hlive, hshelf⟩ := h.live
  have hnext : (t.next env bucket ⟨scan, now, .setBucketVersioning bucket v⟩).records =
      t.records.updateBuckets bucket fun row => { row with versioning := v } := by
    simp only [Tracked.next, after_eq, Call.perform, run_setBucketVersioning]
    rw [if_neg (by simp [show t.records.live bucket = _ from hlive])]
  refine ⟨⟨{ row with versioning := v }, ?_, fun key => ?_⟩, ?_, ?_⟩ <;> rw [hnext]
  · exact hlive.updateBuckets fun _ => ⟨rfl, rfl⟩
  · exact (hshelf key).versioned hv
  · exact h.gone
  · exact h.below

/-- The rows that are collected are not normal, and their addresses can be read. -/
theorem Inv.collect (h : Inv env bucket t bucketId) :
    Inv env bucket (t.next env bucket ⟨scan, now, .collect⟩) bucketId := by
  obtain ⟨row, hlive, hshelf⟩ := h.live
  have hnext : (t.next env bucket ⟨scan, now, .collect⟩).records = _ :=
    after_collect env.db env.fmt scan now t.records
  cases hfirst : scan.first t.records.collectable with
  | none =>
    rw [hfirst] at hnext
    refine ⟨⟨row, ?_, fun key => ?_⟩, ?_, ?_⟩ <;> rw [hnext]
    · exact (live_clearDeletedBuckets t.records bucket).trans hlive
    · exact hshelf key
    · exact h.gone
    · exact h.below
  | some e =>
    rw [hfirst] at hnext
    simp only at hnext
    obtain ⟨hmem, hstat⟩ := mem_filter.mp (Scan.mem_of_first hfirst)
    simp only [Bool.and_eq_true, decide_eq_true_eq] at hstat
    have hentry : ∀ key, ∀ f ∈ t.records.rowsOf bucketId key, f.1 = e.1 → f = e := by
      intro key f hf hid
      have hlook := (mem_rowsOf.mp hf).1
      rw [hid, (t.records.objects.mem_entries_iff e.1 e.2).mp hmem] at hlook
      exact Prod.ext hid (some.inj hlook).symm
    cases haddr : env.fmt.toAddress e.2.address with
    | error x =>
      rw [haddr] at hnext
      have hrows : ∀ key, (t.next env bucket ⟨scan, now, .collect⟩).records.rowsOf bucketId key =
          t.records.rowsOf bucketId key := by
        intro key
        rw [hnext, rowsOf_modify]
        · refine (map_congr_left fun f hf => ?_).trans (map_id _)
          have hne : f.1 ≠ e.1 := by
            intro hid
            obtain ⟨addr, hf'⟩ := (hshelf key).decodable f hf
            rw [hentry key f hf hid, haddr] at hf'
            exact absurd hf' (by simp)
          simp [hne]
        · exact fun _ => ⟨rfl, rfl⟩
      refine ⟨⟨row, ?_, fun key => ?_⟩, fun key hgone => ?_, ?_⟩
      · rw [hnext]
        exact hlive
      · rw [hrows]
        exact hshelf key
      · rw [hrows]
        exact h.gone key hgone
      · rw [hnext]
        exact h.below.modify _ _
    | ok addr =>
      rw [haddr] at hnext
      have hrows : ∀ key, (t.next env bucket ⟨scan, now, .collect⟩).records.rowsOf bucketId key =
          (t.records.rowsOf bucketId key).filter fun f => f.1 ≠ e.1 := by
        intro key
        rw [hnext]
        refine (rowsOf_congr bucketId key ?_).trans (rowsOf_erase bucketId key t.records e.1)
        exact KeyMap.erase_modify _ _ _
      refine ⟨⟨row, ?_, fun key => ?_⟩, fun key hgone f hf => ?_, ?_⟩
      · rw [hnext]
        exact hlive
      · rw [hrows]
        refine (hshelf key).filter fun f hf hnorm => ?_
        rw [decide_eq_true_eq]
        intro hid
        rw [hentry key f hf hid, hstat.1] at hnorm
        exact absurd hnorm (by simp)
      · rw [hrows] at hf
        exact h.gone key hgone f (mem_of_mem_filter hf)
      · rw [hnext]
        exact (h.below.modify e.1 _).erase e.1

theorem Inv.next (h : Inv env bucket t bucketId) (hcall : OnBucket bucket call.op)
    (hok : StepOk env bucket t.records call) :
    Inv env bucket (t.next env bucket call) bucketId := by
  obtain ⟨scan, now, op⟩ := call
  cases op with
  | putObject b obj =>
    obtain ⟨rfl, hobj⟩ := hcall
    exact h.putObject scan now hobj
  | deleteObject b key version =>
    obtain rfl : b = bucket := hcall
    cases version with
    | none => exact h.deleteObject scan now hok
    | some version => exact h.deleteVersion scan now hok
  | setBucketVersioning b v =>
    obtain ⟨rfl, hv⟩ := hcall
    exact h.setBucketVersioning scan now hv
  | collect => exact h.collect scan now
  | putBucket b => exact hcall.elim
  | deleteBucket b => exact hcall.elim
  | setBucketPolicy b policy => exact hcall.elim
  | setBucketCors b cors => exact hcall.elim

/-- A newest row that is not normal hides the others from the listing only. -/
theorem not_agree (scan : Scan) (hname : '/' ∉ bucket) (hlive : r.Live bucket bucketId row)
    {e f : Nat × ObjectRow} (hlast : (r.rowsOf bucketId key).getLast? = some e)
    (hstat : e.2.status ≠ .normal) (hf : f ∈ r.rowsOf bucketId key)
    (hvisible : visible row.versioning f = true) : ¬ Agree env bucket r key := by
  intro h
  obtain ⟨req, hreq⟩ := exists_asks hname key
  have hcur : ∃ g, r.current row.versioning bucketId key = some g := by
    rw [← ne_none_iff_exists', Ne, current, getLast?_eq_none_iff]
    exact ne_nil_of_mem (mem_filter.mpr ⟨hf, hvisible⟩)
  obtain ⟨o, ho⟩ := (h.head scan req hreq).mpr ((heads_iff hlive hreq).mpr hcur)
  obtain ⟨g, hg, hnorm, _⟩ := (lists_iff hlive o).mp ho
  rw [hlast, some.injEq] at hg
  exact hstat (hg ▸ hnorm)

theorem getLast?_mark (h : r.Below) (v : Versioning) (hbucket : marker.bucketId = bucketId)
    (hkey : marker.name = key) :
    ((r.mark v marker).rowsOf bucketId key).getLast? =
      some (r.nextObject, { marker with status := .deleted, sticky := true }) := by
  rw [mark, rowsOf_markDeleted, put,
    rowsOf_insertObject _ _ (Below.displace h _), displace_nextObject,
    if_pos ⟨hbucket, hkey⟩, getLast?_map]
  simp

theorem getLast?_delete (h : r.Below) (hv : v ≠ .disabled) (hbucket : marker.bucketId = bucketId)
    (hkey : marker.name = key) (hlast : (r.rowsOf bucketId key).getLast? = some e) :
    ∃ f, ((r.delete v marker e).rowsOf bucketId key).getLast? = some f ∧
      f.2.status = .deleted ∧ f.2.sticky = true := by
  cases v with
  | disabled => exact absurd rfl hv
  | enabled => exact ⟨_, getLast?_mark h .enabled hbucket hkey, rfl, rfl⟩
  | suspended =>
    by_cases hsticky : e.2.sticky = true
    · simp only [delete, hsticky, if_true]
      exact ⟨_, getLast?_mark h .suspended hbucket hkey, rfl, rfl⟩
    · refine ⟨markRow e.1 (some true) e, ?_, by simp [markRow], by simp [markRow]⟩
      simp only [delete, hsticky, Bool.false_eq_true, if_false, rowsOf_markDeleted,
        getLast?_map, hlast]
      rfl

theorem delete_buckets (r : Records) (v : Versioning) (marker : ObjectRow) (e : Nat × ObjectRow) :
    (r.delete v marker e).buckets = r.buckets := by
  cases v with
  | disabled => rfl
  | enabled => exact put_buckets r .enabled marker
  | suspended =>
    simp only [delete]
    split
    case isTrue => exact put_buckets r .suspended marker
    case isFalse => rfl

theorem Inv.not_holds (h : Inv env bucket t bucketId) (hname : '/' ∉ bucket)
    (hcall : OnBucket bucket call.op) (hok : ¬ StepOk env bucket t.records call) :
    ¬ Holds env bucket (t.next env bucket call) := by
  obtain ⟨row, hlive, hshelf⟩ := h.live
  simp only [StepOk, not_forall] at hok
  obtain ⟨bucketId', row', hlive₀, hbad⟩ := hok
  have hsame := hlive.symm.trans hlive₀
  obtain ⟨rfl, rfl⟩ := hsame
  obtain ⟨scan, now, op⟩ := call
  cases op with
  | deleteObject b key version =>
    obtain rfl : b = bucket := hcall
    cases version with
    | none =>
      simp only [not_or, not_forall, not_not] at hbad
      obtain ⟨hv, e, he, hnorm⟩ := hbad
      obtain ⟨f, hf, hfnormal⟩ := (hshelf key).last e he hnorm
      have hnext : (t.next env b ⟨scan, now, .deleteObject b key none⟩).records = _ :=
        (after_deleteObject env.db env.fmt scan now t.records b key none).trans
          (run_vrmDeleteObject env.db scan now hlive key)
      rw [(current_eq_some (hshelf key) f).mpr ⟨hf, hfnormal⟩] at hnext
      simp only [hfnormal, reduceCtorEq, if_false] at hnext
      have hmarker : (markerRow env.db now t.records bucketId row.versioning key).name = key := rfl
      obtain ⟨g, hg, hdel, hsticky⟩ := getLast?_delete h.below hv rfl hmarker hf
      intro hholds
      have hagree := (hholds key).1
      rw [hnext] at hagree
      refine not_agree scan hname (hlive.of_buckets (delete_buckets _ _ _ _)) hg
        (by simp [hdel]) (mem_of_getLast? hg) ?_ hagree
      cases hvers : row.versioning with
      | disabled => exact absurd hvers hv
      | enabled => simp [visible, hdel, hsticky]
      | suspended => simp [visible, hdel, hsticky]
    | some version =>
      simp only [not_forall] at hbad
      obtain ⟨e, htarget, hlast, f, hf, hnorm, hne⟩ := hbad
      have hnext : (t.next env b ⟨scan, now, .deleteObject b key (some version)⟩).records = _ :=
        after_deleteVersion scan now hlive version
      rw [htarget] at hnext
      generalize (if version = "null".toList then none else some false : Option Bool) = sticky
        at hnext
      intro hholds
      have hagree := (hholds key).1
      rw [hnext] at hagree
      have hlive' : (t.records.markDeleted e.1 sticky).Live b bucketId row := hlive
      have hrows : (t.records.markDeleted e.1 sticky).rowsOf bucketId key =
          (t.records.rowsOf bucketId key).map (markRow e.1 sticky) := rowsOf_markDeleted _ _ _ _ _
      have hmarked : ((t.records.markDeleted e.1 sticky).rowsOf bucketId key).getLast? =
          some (markRow e.1 sticky e) := by
        rw [hrows, getLast?_map, hlast]
        rfl
      refine not_agree scan hname hlive' hmarked (fun hstat => ?_) ?_
        (((hshelf key).visible_iff hf).mpr hnorm) hagree
      · exact (status_markRow.mp hstat).1 rfl
      · rw [hrows]
        exact mem_map.mpr ⟨f, hf, markRow_of_ne hne⟩
  | putObject b obj => exact absurd trivial hbad
  | setBucketVersioning b v => exact absurd trivial hbad
  | collect => exact absurd trivial hbad
  | putBucket b => exact hcall.elim
  | deleteBucket b => exact hcall.elim
  | setBucketPolicy b policy => exact hcall.elim
  | setBucketCors b cors => exact hcall.elim

end Steps

section Main

variable {env : Env} {bucket : Text} {bucketId : Nat} {t : Tracked} {calls : List Call}

theorem slash_not_mem (h : validateBucketName bucket = .ok ()) : '/' ∉ bucket := by
  unfold validateBucketName at h
  split at h
  case isTrue => exact absurd h (by simp)
  case isFalse =>
    split at h
    case isFalse => exact absurd h (by simp)
    case isTrue hpat =>
      cases bucket with
      | nil => simp
      | cons first rest =>
        simp only [matchesBucketPattern, Bool.and_eq_true, List.all_eq_true] at hpat
        obtain ⟨_, ⟨⟨⟨hfirst, _⟩, _⟩, hrest⟩, _⟩ := hpat
        intro hmem
        rcases mem_cons.mp hmem with heq | hmem
        · exact absurd (heq ▸ hfirst) (by decide)
        · exact absurd (hrest '/' hmem) (by decide)

theorem Created.inv {r : Records} (h : Created bucket r bucketId) :
    Inv env bucket ⟨r, fun _ => false⟩ bucketId := by
  obtain ⟨row, hlive, _⟩ := h.live
  refine ⟨⟨row, hlive, fun key => ?_⟩, fun _ hgone => absurd hgone (by simp), h.below⟩
  rw [h.empty key]
  exact ⟨⟨by simp, by simp, by simp⟩, by simp, by simp⟩

theorem Always.head {P : Tracked → Prop} (h : Always env bucket P t calls) : P t := by
  cases calls with
  | nil => exact h
  | cons call calls => exact h.1

theorem Inv.always_iff (h : Inv env bucket t bucketId) (hname : '/' ∉ bucket)
    (hcalls : ∀ call ∈ calls, OnBucket bucket call.op) :
    Always env bucket (Holds env bucket) t calls ↔
      EveryStep env (StepOk env bucket) t.records calls := by
  induction calls generalizing t with
  | nil => exact ⟨fun _ => trivial, fun _ => h.holds⟩
  | cons call calls ih =>
    have hcall := hcalls call mem_cons_self
    have hrest : ∀ call ∈ calls, OnBucket bucket call.op :=
      fun c hc => hcalls c (mem_cons_of_mem _ hc)
    by_cases hok : StepOk env bucket t.records call
    · have hnext := ih (h.next hcall hok) hrest
      exact ⟨fun halways => ⟨hok, hnext.mp halways.2⟩,
        fun hsteps => ⟨h.holds, hnext.mpr hsteps.2⟩⟩
    · exact ⟨fun halways => absurd halways.2.head (h.not_holds hname hcall hok),
        fun hsteps => absurd hsteps.1 hok⟩

/-- Listing, GET and HEAD agree throughout a history of a new bucket, and have no
key that was deleted, exactly where no deletion hides another row. -/
theorem always_holds_iff {r : Records} {calls : List Call} (h : Created bucket r bucketId)
    (hcalls : ∀ call ∈ calls, OnBucket bucket call.op) :
    Always env bucket (Holds env bucket) ⟨r, fun _ => false⟩ calls ↔
      EveryStep env (StepOk env bucket) r calls :=
  h.inv.always_iff (slash_not_mem h.name) hcalls

section Sample

def sampleEnv : Env :=
  ⟨sampleDatabase, sampleFormat, ⟨fun _ => .ok 0⟩, fun _ => .ok 0, ⟨fun _ => [], fun _ => []⟩⟩

def sampleTables : Records := sampleCreate.after sampleDatabase sampleFormat empty

theorem created_sample : Created sampleBucket sampleTables 0 :=
  ⟨rfl, ⟨_, rfl, rfl⟩, fun _ => rfl, fun e he => absurd he not_mem_nil⟩

/-- A key that is put and deleted without versioning, and put twice with it. -/
theorem always_holds_iff_sample :
    Always sampleEnv sampleBucket (Holds sampleEnv sampleBucket) ⟨sampleTables, fun _ => false⟩
      [samplePut, sampleDelete, sampleSet .enabled, samplePut, samplePut] := by
  refine (always_holds_iff created_sample ?_).mpr ?_
  · simp [samplePut, sampleDelete, sampleSet, sampleObject, OnBucket]
  · refine ⟨fun _ _ _ => trivial, fun bucketId row hlive => Or.inl ?_, fun _ _ _ => trivial,
      fun _ _ _ => trivial, fun _ _ _ => trivial, trivial⟩
    have hrow : [(bucketId, row)] = [(0, ⟨sampleBucket, false, none, none, .disabled⟩)] :=
      hlive.symm.trans rfl
    simp only [cons.injEq, Prod.mk.injEq, and_true] at hrow
    rw [hrow.2]

/-- The tables with a delete marker on top of a version. -/
def sampleDeleted : Records :=
  sampleDelete.after sampleDatabase sampleFormat (samplePut.after sampleDatabase sampleFormat
    ((sampleSet .enabled).after sampleDatabase sampleFormat sampleTables))

theorem not_agree_sampleDeleted : ¬ Agree sampleEnv sampleBucket sampleDeleted ['k'] := by
  have hlive : sampleDeleted.Live sampleBucket 0 ⟨sampleBucket, false, none, none, .enabled⟩ := rfl
  have hlast : (sampleDeleted.rowsOf 0 ['k']).getLast? =
      some (1, ⟨0, ['k'], [], 0, 1, none, none, ['v', 'v'], .deleted, true⟩) := rfl
  exact not_agree sampleScan (by decide) hlive hlast (by decide) (mem_of_getLast? hlast) rfl

/-- A key that is put and deleted with versioning is still there for HEAD, and not
for the listing. -/
theorem head_finds_deleted :
    ¬ Always sampleEnv sampleBucket (Holds sampleEnv sampleBucket) ⟨sampleTables, fun _ => false⟩
      [sampleSet .enabled, samplePut, sampleDelete] :=
  fun h => not_agree_sampleDeleted (h.2.2.2 ['k']).1

end Sample

end Main

end UhCore.Entrypoint.Agreement
