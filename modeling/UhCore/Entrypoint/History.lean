import UhCore.Entrypoint.DirectoryCalls
import UhCore.Lib.Transition

/-!
Histories of the directory: calls of its functions and iterations of the
garbage collector, one after the other. Every call has its own order of rows
without `ORDER BY` and its own time. For a bucket that exists the procedures
are functions on the rows of one key, in the order of their ids.
-/

namespace UhCore.Entrypoint

open Directory (Versioning ObjectStatus)
open Effects List Option Catalog KeyMap Dir Records List

/-- The calls that change the directory. -/
inductive Op where
  | putBucket (bucket : Text)
  | deleteBucket (bucket : Text)
  | setBucketPolicy (bucket : Text) (policy : Option Text)
  | setBucketCors (bucket : Text) (cors : Option Text)
  | setBucketVersioning (bucket : Text) (versioning : Versioning)
  | putObject (bucket : Text) (obj : NewObject)
  | deleteObject (bucket object : Text) (version : Option Text)
  | collect

structure Call where
  scan : Scan
  now : Nat
  op : Op

/-- The database without tables. -/
def Records.empty : Records := ⟨⟨KeyMap.empty, KeyMap.empty⟩, 0, 0, 0⟩

section Calls

variable (db : Database) (fmt : AddressFormat)

def Call.perform (call : Call) : Dir PUnit :=
  match call.op with
  | .putBucket bucket => putBucket bucket
  | .deleteBucket bucket => deleteBucket bucket
  | .setBucketPolicy bucket policy => setBucketPolicy db bucket policy
  | .setBucketCors bucket cors => setBucketCors db bucket cors
  | .setBucketVersioning bucket versioning => setBucketVersioning bucket versioning
  | .putObject bucket obj => do
    let _ ← putObject db fmt call.scan call.now bucket obj
  | .deleteObject bucket object version => do
    let _ ← deleteObject db call.scan call.now bucket object version
  | .collect => collect fmt call.scan

/-- The tables behind a call, whether it returned or threw. -/
def Call.after (call : Call) (r : Records) : Records := (run (call.perform db fmt) r).2

/-- Calls on the directory as steps of a transition system. -/
def step (r : Records) (call : Call) : Option Records := some (call.after db fmt r)

end Calls

namespace Catalog

/-- The rows of a key, in the order of their ids. -/
def rowsOf (c : Catalog) (bucketId : Nat) (object : Text) : List (Nat × ObjectRow) :=
  c.objects.entries.filter fun e => decide (e.2.bucketId = bucketId) && decide (e.2.name = object)

/-- The rows that may be current. -/
def visible (versioning : Versioning) (e : Nat × ObjectRow) : Bool :=
  match versioning with
  | .disabled => decide (e.2.status = .normal)
  | _ => !(decide (e.2.status = .deleted) && !e.2.sticky)

def current (c : Catalog) (versioning : Versioning) (bucketId : Nat) (object : Text) :
    Option (Nat × ObjectRow) :=
  ((c.rowsOf bucketId object).filter (visible versioning)).getLast?

/-- There is one bucket of the name that is not deleted. -/
def Live (c : Catalog) (bucket : Text) (bucketId : Nat) (row : BucketRow) : Prop :=
  c.live bucket = [(bucketId, row)]

theorem Live.of_buckets {c c' : Catalog} {bucket : Text} {bucketId : Nat} {row : BucketRow}
    (h : c.Live bucket bucketId row) (hbuckets : c'.buckets = c.buckets) :
    c'.Live bucket bucketId row := by
  rw [Live, live, hbuckets]
  exact h

end Catalog

variable {β : Type} {rows : List (Nat × β)}

theorem Scan.first_singleton (scan : Scan) (e : Nat × β) : scan.first [e] = some e := by
  have hperm := scan.perm [e.1]
  rw [perm_singleton] at hperm
  simp [Scan.first, hperm]

theorem Scan.first_nil (scan : Scan) : scan.first ([] : List (Nat × β)) = none := by
  have hperm := scan.perm []
  simp [Scan.first, hperm]

theorem Scan.mem_of_first {scan : Scan} {e : Nat × β} (h : scan.first rows = some e) :
    e ∈ rows := by
  obtain ⟨id, _, hfind⟩ := bind_eq_some_iff.mp h
  exact mem_of_find?_eq_some hfind

theorem Scan.first_isSome (scan : Scan) (h : rows ≠ []) : ∃ e, scan.first rows = some e := by
  have hperm := scan.perm (rows.map Prod.fst)
  cases horder : scan.order (rows.map Prod.fst) with
  | nil =>
    rw [horder, nil_perm, map_eq_nil_iff] at hperm
    exact absurd hperm h
  | cons id ids =>
    have hid : id ∈ rows.map Prod.fst := hperm.mem_iff.mp (horder ▸ mem_cons_self)
    obtain ⟨e, he, rfl⟩ := mem_map.mp hid
    have hsome : (rows.find? fun f => decide (f.1 = e.1)).isSome := by
      rw [find?_isSome]
      exact ⟨e, he, by simp⟩
    obtain ⟨f, hf⟩ := isSome_iff_exists.mp hsome
    exact ⟨f, by simp [Scan.first, horder, hf]⟩

namespace Catalog

variable {c : Catalog} {bucket : Text} {bucketId : Nat} {row : BucketRow} {object : Text}
  {e : Nat × ObjectRow}

theorem Live.vrmGetBucketId (h : c.Live bucket bucketId row) :
    c.vrmGetBucketId bucket = some bucketId := by
  have hlive : (c.buckets.entries.filter fun e => !e.2.deleted && decide (e.2.name = bucket)) =
    [(bucketId, row)] := h
  rw [Catalog.vrmGetBucketId, findLast_eq, hlive]
  rfl

theorem Live.vrmGetBucketInfo (h : c.Live bucket bucketId row) (scan : Scan) :
    c.vrmGetBucketInfo scan bucket = some (bucketId, row.versioning) := by
  rw [Catalog.vrmGetBucketInfo, h, Scan.first_singleton]
  rfl

theorem Live.inBucket (h : c.Live bucket bucketId row) (p : Nat × ObjectRow → Bool) :
    c.inBucket bucket p = .ok (c.objects.entries.filter fun e =>
      p e && decide (e.2.bucketId = bucketId)) := by
  have hfilter : (c.objects.entries.filter fun e => p e && decide (e.2.bucketId = bucketId)) =
      (c.objects.entries.filter p).filter fun e => decide (e.2.bucketId = bucketId) := by
    rw [List.filter_filter]
    exact filter_congr fun e _ => Bool.and_comm _ _
  rw [hfilter, Catalog.inBucket]
  cases hrows : c.objects.entries.filter p with
  | nil => rfl
  | cons e rest => simp only [h.vrmGetBucketId]

def foundOf (versioning : Versioning) (e : Nat × ObjectRow) : Found :=
  ⟨e.1, e.2, match versioning with
    | .disabled => none
    | _ => some e.2.version⟩

theorem Live.vrmGetObject (h : c.Live bucket bucketId row) (scan : Scan) (object : Text) :
    c.vrmGetObject scan bucket object =
      .ok ((c.current row.versioning bucketId object).map (foundOf row.versioning)) := by
  have hrows : ∀ p : Nat × ObjectRow → Bool, ∀ v : Versioning,
      (∀ e, p e = (visible v e && decide (e.2.name = object))) →
      c.inBucket bucket p = .ok ((c.rowsOf bucketId object).filter (visible v)) := by
    intro p v hp
    rw [h.inBucket, rowsOf, List.filter_filter]
    congr 1
    apply filter_congr
    intro e _
    rw [hp, Bool.and_assoc, Bool.and_comm (decide (e.2.name = object))]
  rw [Catalog.vrmGetObject, h.vrmGetBucketInfo, map_some, current]
  cases row.versioning with
  | disabled =>
    simp only [hrows (plain object) .disabled fun _ => rfl]
    rfl
  | enabled =>
    simp only [hrows (kept object) .enabled fun _ => rfl]
    rfl
  | suspended =>
    simp only [hrows (kept object) .suspended fun _ => rfl]
    rfl

theorem mem_rowsOf :
    e ∈ c.rowsOf bucketId object ↔
      c.objects.lookup e.1 = some e.2 ∧ e.2.bucketId = bucketId ∧ e.2.name = object := by
  rw [rowsOf, mem_filter, ← mem_entries_iff]
  simp

theorem current_mem {versioning : Versioning} (h : c.current versioning bucketId object = some e) :
    e ∈ c.rowsOf bucketId object ∧ visible versioning e = true :=
  mem_filter.mp (mem_of_getLast? h)

end Catalog

namespace Records

def displaced (versioning : Versioning) (e : Option (Nat × ObjectRow)) : Option Nat :=
  match versioning with
  | .disabled => e.map Prod.fst
  | .enabled => none
  | .suspended => (e.filter fun e => !e.2.sticky).map Prod.fst

/-- A put displaces the current row, which is not kept as a version. -/
theorem displaced_spec {v : Versioning} {cur : Option (Nat × ObjectRow)} {id : Nat}
    (h : displaced v cur = some id) :
    ∃ e, cur = some e ∧ e.1 = id ∧ (v = .disabled ∨ e.2.sticky = false) := by
  cases v with
  | disabled =>
    obtain ⟨e, he, rfl⟩ := map_eq_some_iff.mp h
    exact ⟨e, he, rfl, Or.inl rfl⟩
  | enabled => exact absurd h (by simp [displaced])
  | suspended =>
    obtain ⟨e, he, rfl⟩ := map_eq_some_iff.mp h
    obtain ⟨hcur, hsticky⟩ := filter_eq_some_iff.mp he
    exact ⟨e, hcur, rfl, Or.inr (by simpa using hsticky)⟩

def displace (r : Records) : Option Nat → Records
  | none => r
  | some id => r.markDeleted id none

@[simp] theorem displace_nextObject (r : Records) (id : Option Nat) :
    (r.displace id).nextObject = r.nextObject := by
  cases id <;> rfl

@[simp] theorem displace_drawn (r : Records) (id : Option Nat) :
    (r.displace id).drawn = r.drawn := by
  cases id <;> rfl

@[simp] theorem displace_buckets (r : Records) (id : Option Nat) :
    (r.displace id).buckets = r.buckets := by
  cases id <;> rfl

/-- A put in a bucket that exists. -/
def put (r : Records) (versioning : Versioning) (row : ObjectRow) : Records :=
  (r.displace (displaced versioning (r.current versioning row.bucketId row.name))).insertObject row

@[simp] theorem put_buckets (r : Records) (versioning : Versioning) (row : ObjectRow) :
    (r.put versioning row).buckets = r.buckets := displace_buckets r _

/-- The tables with a delete marker. -/
def mark (r : Records) (versioning : Versioning) (row : ObjectRow) : Records :=
  (r.put versioning row).markDeleted r.nextObject (some true)

/-- A delete without version in a bucket that exists, where it has an effect. -/
def delete (r : Records) (versioning : Versioning) (marker : ObjectRow) :
    Nat × ObjectRow → Records
  | (id, row) =>
    match versioning with
    | .disabled => r.markDeleted id none
    | .enabled => r.mark .enabled marker
    | .suspended =>
      if row.sticky then r.mark .suspended marker else r.markDeleted id (some true)

end Records

section Runs

variable (db : Database) (scan : Scan) (now : Nat) {r : Records} {bucket : Text} {bucketId : Nat}
  {row : BucketRow}

def newRow (r : Records) (bucketId : Nat) (versioning : Versioning) (object : Text)
    (address : List UInt8) (size : Nat) (etag mime : Option Text) : ObjectRow :=
  ⟨bucketId, object, address, size, ceiledNow now, etag, mime, db.uuid r.drawn, .normal,
    decide (versioning = .enabled)⟩

def markerRow (r : Records) (bucketId : Nat) (versioning : Versioning) (object : Text) : ObjectRow :=
  newRow db now r bucketId versioning object [] 0 none none

theorem run_currentObject (h : r.Live bucket bucketId row) (object : Text) :
    run (currentObject scan bucket object) r =
      (.ok ((r.current row.versioning bucketId object).map fun e => ⟨e.1, e.2.sticky, e.2.status⟩),
        r) := by
  rw [currentObject, run_ask, h.vrmGetObject]
  simp only [Except.map, Option.map_map]
  rfl

theorem run_displace (found : Option Current) (r : Records) :
    run (displace found) r = (.ok ⟨⟩, r.displace (found.map Current.id)) := by
  cases found <;> rfl

theorem run_vrmPutObject (h : r.Live bucket bucketId row) (object : Text) (address : List UInt8)
    (size : Nat) (etag mime : Option Text) :
    run (vrmPutObject db scan now bucket object address size etag mime) r =
      (.ok (some ⟨r.nextObject,
          if row.versioning = .enabled then some (db.uuid r.drawn) else none⟩),
        r.put row.versioning
          (newRow db now r bucketId row.versioning object address size etag mime)) := by
  have hcur := run_currentObject scan h object
  simp only [vrmPutObject, run_bind, run_query, h.vrmGetBucketInfo]
  cases hvers : row.versioning with
  | disabled =>
    rw [hvers] at hcur
    simp only [run_bind, hcur, run_displace, Option.map_map, insertObject, run_act, run_pure,
      displace_nextObject, displace_drawn]
    rfl
  | enabled =>
    rfl
  | suspended =>
    rw [hvers] at hcur
    simp only [run_bind, hcur, run_displace, Option.filter_map, Option.map_map, insertObject,
      run_act, run_pure, displace_nextObject, displace_drawn]
    rfl

theorem run_putMarker (h : r.Live bucket bucketId row) (object : Text) :
    (run (putMarker db scan now bucket object) r).2 =
      r.mark row.versioning (markerRow db now r bucketId row.versioning object) := by
  simp only [putMarker, run_bind, run_vrmPutObject db scan now h, markDeleted, run_modify,
    deletedVersion, run_query]
  rfl

/-- A delete without version, which has no effect on a key without a current row
and on one whose current row is a delete marker. -/
theorem run_vrmDeleteObject (h : r.Live bucket bucketId row) (object : Text) :
    (run (vrmDeleteObject db scan now bucket object) r).2 =
      match r.current row.versioning bucketId object with
      | none => r
      | some e =>
        if e.2.status = .deleted then r
        else r.delete row.versioning (markerRow db now r bucketId row.versioning object) e := by
  have hcur := run_currentObject scan h object
  have hmarker := run_putMarker db scan now h object
  simp only [vrmDeleteObject, run_bind, run_query, h.vrmGetBucketInfo, hcur, map_some]
  cases hfound : r.current row.versioning bucketId object with
  | none => rfl
  | some e =>
    simp only [map_some]
    split
    case isTrue => rfl
    case isFalse =>
      cases hvers : row.versioning with
      | disabled => rfl
      | enabled => rw [hvers] at hmarker; exact hmarker
      | suspended =>
        rw [hvers] at hmarker
        simp only [delete]
        split
        case isTrue => exact hmarker
        case isFalse => rfl

def Catalog.byVersion (c : Catalog) (bucketId : Nat) (object version : Text) :
    Option (Nat × ObjectRow) :=
  ((c.rowsOf bucketId object).filter fun e => decide (e.2.version = version)).getLast?

def Catalog.nulls (c : Catalog) (bucketId : Nat) (object : Text) : List (Nat × ObjectRow) :=
  (c.rowsOf bucketId object).filter fun e => !e.2.sticky && decide (e.2.status = .normal)

theorem Catalog.Live.vrmGetObjectByVersion {c : Catalog} (h : c.Live bucket bucketId row)
    (object version : Text) : c.vrmGetObjectByVersion bucket object version =
      .ok ((c.byVersion bucketId object version).map fun e => ⟨e.1, e.2, some e.2.version⟩) := by
  have hrows : (c.objects.entries.filter fun e => (decide (e.2.name = object) &&
      decide (e.2.version = version)) && decide (e.2.bucketId = bucketId)) =
      (c.rowsOf bucketId object).filter fun e => decide (e.2.version = version) := by
    rw [rowsOf, List.filter_filter]
    apply filter_congr
    intro e _
    ac_rfl
  rw [Catalog.vrmGetObjectByVersion, h.inBucket, hrows]
  rfl

theorem run_vrmDeleteObjectVersion (h : r.Live bucket bucketId row) (object version : Text) :
    (run (vrmDeleteObjectVersion bucket object version) r).2 =
      match r.byVersion bucketId object version with
      | none => r
      | some e => r.markDeleted e.1 (some false) := by
  simp only [vrmDeleteObjectVersion, run_bind, run_ask, h.vrmGetObjectByVersion]
  cases r.byVersion bucketId object version <;> rfl

theorem run_vrmDeleteObjectNullVersion (h : r.Live bucket bucketId row) (object : Text) :
    (run (vrmDeleteObjectNullVersion scan bucket object) r).2 =
      match scan.first (r.nulls bucketId object) with
      | none => r
      | some e => r.markDeleted e.1 none := by
  have hrows : (r.objects.entries.filter fun e => (!e.2.sticky && plain object e) &&
      decide (e.2.bucketId = bucketId)) = r.nulls bucketId object := by
    rw [nulls, rowsOf, List.filter_filter]
    apply filter_congr
    intro e _
    ac_rfl
  simp only [vrmDeleteObjectNullVersion, run_bind, run_ask, h.inBucket, hrows, Except.map]
  cases scan.first (r.nulls bucketId object) <;> rfl

end Runs

theorem inBucket_of_no_live {c : Catalog} {bucket : Text} (h : c.live bucket = [])
    (p : Nat × ObjectRow → Bool) :
    c.inBucket bucket p = .ok [] ∨ c.inBucket bucket p = .error (noBucket bucket) := by
  have hid : c.vrmGetBucketId bucket = none := by
    rw [vrmGetBucketId, findLast_eq]
    exact congrArg (fun rows => (rows.getLast?).map Prod.fst) h
  rw [inBucket]
  cases c.objects.entries.filter p with
  | nil => exact Or.inl rfl
  | cons e rest => exact Or.inr (by simp only [hid])

section Rows

variable (bucketId : Nat) (object : Text) {r : Records}

/-- The ids of the rows are below the next one. -/
def Records.Below (r : Records) : Prop := ∀ e ∈ r.objects.entries, e.1 < r.nextObject

theorem rowsOf_insertObject (h : r.Below) (row : ObjectRow) :
    (r.insertObject row).rowsOf bucketId object = r.rowsOf bucketId object ++
      if row.bucketId = bucketId ∧ row.name = object then [(r.nextObject, row)] else [] := by
  simp only [rowsOf, Records.insertObject, KeyMap.entries_insert_of_lt h, filter_append]
  congr 1
  by_cases hb : row.bucketId = bucketId <;> by_cases ho : row.name = object <;> simp [hb, ho]

theorem rowsOf_modify {id : Nat} {f : ObjectRow → ObjectRow}
    (hf : ∀ row, (f row).bucketId = row.bucketId ∧ (f row).name = row.name) :
    ({ r with objects := r.objects.modify id f } : Records).rowsOf bucketId object =
      (r.rowsOf bucketId object).map fun e => (e.1, if e.1 = id then f e.2 else e.2) := by
  simp only [rowsOf, KeyMap.modify, List.filter_map]
  congr 1
  apply filter_congr
  intro e _
  by_cases he : e.1 = id <;> simp [he, hf]

theorem rowsOf_markDeleted (r : Records) (id : Nat) (sticky : Option Bool) :
    (r.markDeleted id sticky).rowsOf bucketId object = (r.rowsOf bucketId object).map fun e =>
      (e.1, if e.1 = id then
        { e.2 with status := .deleted, sticky := sticky.getD e.2.sticky } else e.2) :=
  rowsOf_modify bucketId object fun _ => ⟨rfl, rfl⟩

theorem rowsOf_erase (r : Records) (id : Nat) :
    ({ r with objects := r.objects.erase id } : Records).rowsOf bucketId object =
      (r.rowsOf bucketId object).filter fun e => e.1 ≠ id := by
  simp only [rowsOf, erase, List.filter_filter]
  exact filter_congr fun e _ => Bool.and_comm _ _

theorem rowsOf_congr {c c' : Catalog} (h : c.objects = c'.objects) :
    c.rowsOf bucketId object = c'.rowsOf bucketId object := by
  rw [rowsOf, h, rowsOf]

theorem Records.Below.insertObject (h : r.Below) (row : ObjectRow) :
    (r.insertObject row).Below := by
  intro e he
  rw [Records.insertObject, entries_insert_of_lt h] at he
  rcases mem_append.mp he with he | he
  · exact (h e he).trans (Nat.lt_succ_self _)
  · rw [mem_singleton.mp he]
    exact Nat.lt_succ_self _

theorem Records.Below.modify (h : r.Below) (id : Nat) (f : ObjectRow → ObjectRow) :
    ({ r with objects := r.objects.modify id f } : Records).Below := by
  intro e he
  obtain ⟨e', he', rfl⟩ := mem_map.mp he
  exact h e' he'

theorem Records.Below.erase (h : r.Below) (id : Nat) :
    ({ r with objects := r.objects.erase id } : Records).Below :=
  fun e he => h e (mem_of_mem_filter he)

end Rows

section Buckets

variable {f : BucketRow → BucketRow} {bucket : Text} {bucketId : Nat} {row : BucketRow}
  {r : Records}

theorem live_updateBuckets (r : Records) (bucket name : Text)
    (hf : ∀ row, (f row).deleted = row.deleted ∧ (f row).name = row.name) :
    (r.updateBuckets bucket f).live name =
      (r.live name).map fun e => (e.1, if e.2.name = bucket then f e.2 else e.2) := by
  simp only [live, updateBuckets, mapValues, List.filter_map]
  congr 1
  apply filter_congr
  intro e _
  by_cases he : e.2.name = bucket <;> simp [he, hf]

theorem Catalog.Live.name {c : Catalog} (h : c.Live bucket bucketId row) : row.name = bucket := by
  have hmem := h ▸ mem_singleton_self _
  have hrow := (mem_filter.mp hmem).2
  simp only [Bool.and_eq_true, decide_eq_true_eq] at hrow
  exact hrow.2

theorem Catalog.Live.updateBuckets (h : r.Live bucket bucketId row)
    (hf : ∀ row, (f row).deleted = row.deleted ∧ (f row).name = row.name) :
    (r.updateBuckets bucket f).Live bucket bucketId (f row) := by
  rw [Catalog.Live, live_updateBuckets r bucket bucket hf, h]
  simp [h.name]

theorem live_clearDeletedBuckets (r : Records) (name : Text) :
    (run vrmClearDeletedBuckets r).2.live name = r.live name := by
  simp only [vrmClearDeletedBuckets, run_modify, live, KeyMap.filter, List.filter_filter]
  apply filter_congr
  intro e _
  by_cases hd : e.2.deleted = true <;> simp [hd]

theorem run_bucketExists :
    run (Dir.bucketExists bucket) r =
      (if (r.live bucket).isEmpty then .error noSuchBucket else .ok (), r) := by
  rw [Dir.bucketExists, run_recover, run_ask, vrmCheckBucket]
  by_cases hlive : (r.live bucket).isEmpty <;> simp only [hlive] <;> rfl

theorem run_updateBucket (hlive : (r.live bucket).isEmpty = false) (f : BucketRow → BucketRow) :
    run (call (updateBucket bucket f)) r = (.ok ⟨⟩, r.updateBuckets bucket f) := by
  have hnamed : (r.named bucket).isEmpty = false := by
    rw [isEmpty_eq_false_iff_exists_mem] at hlive ⊢
    obtain ⟨e, he⟩ := hlive
    obtain ⟨hmem, hrow⟩ := mem_filter.mp he
    simp only [Bool.and_eq_true] at hrow
    exact ⟨e, mem_filter.mpr ⟨hmem, hrow.2⟩⟩
  simp only [call, run_rethrow, updateBucket, run_act, hnamed]
  rfl

end Buckets

section After

variable (db : Database) (fmt : AddressFormat) (scan : Scan) (now : Nat) (r : Records)

theorem after_eq (op : Op) : (Call.mk scan now op).after db fmt r =
    (run ((Call.mk scan now op).perform db fmt) r).2 := rfl

theorem after_putObject (bucket : Text) (obj : NewObject) :
    (Call.mk scan now (.putObject bucket obj)).after db fmt r =
      match obj.addr with
      | none => r
      | some addr => (run (vrmPutObject db scan now bucket obj.name (fmt.toBuffer addr)
          addr.dataSize obj.etag obj.mime) r).2 := by
  rw [after_eq, Call.perform, run_bind_reads fun _ => reads_pure _, putObject]
  cases obj.addr with
  | none => rfl
  | some addr =>
    rw [run_bind_reads, run_recover_reads fun _ => reads_throw _]
    intro row
    cases row with
    | none => exact reads_throw _
    | some row => exact reads_pure _

theorem after_deleteObject (bucket object : Text) (version : Option Text) :
    (Call.mk scan now (.deleteObject bucket object version)).after db fmt r =
      match version with
      | none => (run (vrmDeleteObject db scan now bucket object) r).2
      | some version =>
        if version = "null".toList then (run (vrmDeleteObjectNullVersion scan bucket object) r).2
        else match db.toUuid version with
          | .error _ => r
          | .ok version => (run (vrmDeleteObjectVersion bucket object version) r).2 := by
  rw [after_eq, Call.perform, run_bind_reads fun _ => reads_pure _]
  unfold deleteObject
  rw [run_bind_reads fun _ => reads_pure _, run_recover_reads fun _ => reads_pure _]
  cases version with
  | none => rfl
  | some version =>
    simp only
    split
    case isTrue => rfl
    case isFalse =>
      cases db.toUuid version <;> rfl

/-- The rows that the garbage collector takes. -/
def Catalog.collectable (c : Catalog) : List (Nat × ObjectRow) :=
  c.objects.entries.filter fun e => decide (e.2.status = .deleted) && !e.2.sticky

/-- A row whose address cannot be read stays. -/
theorem after_collect : (Call.mk scan now .collect).after db fmt r =
    match scan.first r.collectable with
    | none => (run vrmClearDeletedBuckets r).2
    | some e =>
      let marked : Records :=
        { r with objects := r.objects.modify e.1 fun row => { row with status := .collected } }
      match fmt.toAddress e.2.address with
      | .error _ => marked
      | .ok _ => { r with objects := marked.objects.erase e.1 } := by
  simp only [after_eq, Call.perform, collect, nextDeleted, run_bind, clearBuckets,
    removeObject, call, run_rethrow, vrmNextDeleted, run_act, collectable]
  cases scan.first (r.objects.entries.filter fun e =>
      decide (e.2.status = .deleted) && !e.2.sticky) with
  | none => rfl
  | some e =>
    simp only [run_bind]
    cases fmt.toAddress e.2.address <;> rfl

end After

section Sample

/-- A format that counts in units: `0` for the pointer, `1` for the size, `2` behind
a fragment. -/
def sampleBytes (addr : Address) : List UInt8 :=
  addr.flatMap fun f => replicate f.pointer 0 ++ (replicate f.size 1 ++ [2])

def readSampleBytes : Nat → Nat → List UInt8 → Address
  | _, _, [] => []
  | pointer, size, b :: rest =>
    if b = 0 then readSampleBytes (pointer + 1) size rest
    else if b = 1 then readSampleBytes pointer (size + 1) rest
    else ⟨pointer, size⟩ :: readSampleBytes 0 0 rest

theorem readSampleBytes_replicate (m n : Nat) (pointer size : Nat) (rest : List UInt8) :
    readSampleBytes pointer size (replicate m 0 ++ (replicate n 1 ++ rest)) =
      readSampleBytes (pointer + m) (size + n) rest := by
  induction m generalizing pointer with
  | zero =>
    induction n generalizing size with
    | zero => rfl
    | succ n ih =>
      have hn := ih (size + 1)
      rw [replicate_zero, nil_append] at hn ⊢
      rw [replicate_succ, cons_append, readSampleBytes, if_neg (by decide),
        if_pos rfl, hn, add_right_comm, add_assoc size n 1]
  | succ m ih =>
    rw [replicate_succ, cons_append, readSampleBytes, if_pos rfl, ih,
      add_right_comm, add_assoc pointer m 1]

theorem readSampleBytes_sampleBytes (addr : Address) :
    readSampleBytes 0 0 (sampleBytes addr) = addr := by
  induction addr with
  | nil => rfl
  | cons f rest ih =>
    rw [sampleBytes, flatMap_cons, append_assoc, append_assoc,
      readSampleBytes_replicate, singleton_append, readSampleBytes, if_neg (by decide),
      if_neg (by decide), zero_add, zero_add]
    exact congrArg (f :: ·) ih

def sampleFormat : AddressFormat where
  toBuffer addr := 0 :: sampleBytes addr
  toAddress
    | [] => .error (.runtimeError "message too short")
    | _ :: bytes => .ok (readSampleBytes 0 0 bytes)
  toAddress_toBuffer addr := congrArg Except.ok (readSampleBytes_sampleBytes addr)

/-- The number of a version is its length. -/
def sampleDatabase : Database where
  uuid n := replicate (n + 1) 'v'
  toUuid s := .ok s
  toJson s := .ok s
  toXml s := .ok s

def sampleScan : Scan := ⟨id, fun _ => List.Perm.refl _⟩

def sampleBucket : Text := ['a', 'b', 'c']

def sampleObject : NewObject := ⟨['k'], some [⟨0, 1⟩], none, none⟩

def sampleCreate : Call := ⟨sampleScan, 0, .putBucket sampleBucket⟩

def samplePut : Call := ⟨sampleScan, 0, .putObject sampleBucket sampleObject⟩

def sampleDelete : Call := ⟨sampleScan, 0, .deleteObject sampleBucket ['k'] none⟩

def sampleSet (versioning : Versioning) : Call :=
  ⟨sampleScan, 0, .setBucketVersioning sampleBucket versioning⟩

def sampleCollect : Call := ⟨sampleScan, 0, .collect⟩

end Sample

end UhCore.Entrypoint
