import UhCore.Entrypoint.Moves

/-!
Versions stay until they are deleted by their id. A row that a put with
versioning makes is sticky; as long as the bucket has versions no other call
marks such a row, and the garbage collector takes rows that are marked and not
sticky only.
-/

namespace UhCore.Entrypoint

open Directory (Versioning ObjectStatus)
open Effects Option KeyMap Catalog List Dir

theorem Records.Consistent.live_iff {db : Database} {r : Records} (h : r.Consistent db)
    {name : Text} {bucketId : Nat} {row : BucketRow} :
    r.Live name bucketId row ↔
      r.buckets.lookup bucketId = some row ∧ row.deleted = false ∧ row.name = name := by
  have hmem : (bucketId, row) ∈ r.live name ↔
      r.buckets.lookup bucketId = some row ∧ row.deleted = false ∧ row.name = name := by
    rw [live, mem_filter, mem_entries_iff]
    simp
  rw [← hmem]
  constructor
  · intro hlive
    rw [show r.live name = _ from hlive]
    exact mem_singleton_self _
  · intro hin
    rcases h.live_cases name with hnone | ⟨id, row', hlive⟩
    · rw [hnone] at hin
      exact absurd hin not_mem_nil
    · rw [show r.live name = _ from hlive, mem_singleton] at hin
      rw [Catalog.Live, show r.live name = _ from hlive, hin]

theorem Records.Consistent.live_of_vrmGetBucketId {db : Database} {r : Records}
    (h : r.Consistent db) {bucket : Text} {bucketId : Nat}
    (hid : r.vrmGetBucketId bucket = some bucketId) : ∃ row, r.Live bucket bucketId row := by
  rcases h.live_cases bucket with hnone | ⟨id, row, hlive⟩
  · have hnoid : r.vrmGetBucketId bucket = none := by
      rw [vrmGetBucketId, findLast_eq]
      exact congrArg (fun rows => (rows.getLast?).map Prod.fst) hnone
    rw [hnoid] at hid
    exact absurd hid (by simp)
  · rw [hlive.vrmGetBucketId, some.injEq] at hid
    exact ⟨row, hid ▸ hlive⟩

/-- The calls that leave a version: the versioning of its bucket is not turned off
and the version is not deleted by its id. -/
def Spares (db : Database) (bucket object uuid : Text) : Op → Prop
  | .setBucketVersioning b versioning => b = bucket → versioning ≠ .disabled
  | .deleteObject b o (some given) => b = bucket → o = object → given ≠ "null".toList →
      db.toUuid given ≠ .ok uuid
  | _ => True

section Kept

variable (db : Database) (bucket : Text) (bucketId id : Nat) (row : ObjectRow)

structure Kept (r : Records) : Prop where
  consistent : r.Consistent db
  bucketBelow : bucketId < r.nextBucket
  objectBelow : id < r.nextObject
  kept : ∀ b, r.buckets.lookup bucketId = some b → b.deleted = false →
    b.name = bucket ∧ b.versioning ≠ .disabled ∧ r.objects.lookup id = some row

variable {db bucket bucketId id row} {fmt : AddressFormat} {r r' : Records} {op : Op}
  {v : Versioning} {new : ObjectRow} {other : Nat} {e : Nat × ObjectRow}

theorem lookup_put_of_ne (hid : id < r.nextObject)
    (hne : Records.displaced v (r.current v new.bucketId new.name) ≠ some id) :
    (r.put v new).objects.lookup id = r.objects.lookup id := by
  have hinsert : ∀ r : Records, id < r.nextObject →
      (r.insertObject new).objects.lookup id = r.objects.lookup id := by
    intro r hid
    rw [Records.insertObject, lookup_insert, if_neg (ne_of_lt hid)]
  rw [Records.put, hinsert _ (by rwa [Records.displace_nextObject])]
  cases hdisplaced : Records.displaced v (r.current v new.bucketId new.name) with
  | none => rfl
  | some other =>
    rw [hdisplaced, ne_eq, some.injEq] at hne
    simp [Records.displace, Records.markDeleted, Ne.symm hne]

theorem Kept.put (h : Kept db bucket bucketId id row r) (hsticky : row.sticky = true)
    (howner : row.bucketId = bucketId) {name : Text} {b : BucketRow} (hlive : r.Live name other b)
    (hnew : new.bucketId = other) (hver : new.version = db.uuid r.drawn) :
    Kept db bucket bucketId id row (r.put b.versioning new) := by
  have hcons := h.consistent.put hlive hnew hver
  refine ⟨hcons, ?_, ?_, fun b' hb' hdel => ?_⟩
  · refine h.bucketBelow.trans_le (le_of_eq ?_)
    simp only [Records.put, Records.insertObject]
    cases Records.displaced b.versioning
      (r.current b.versioning new.bucketId new.name) <;> rfl
  · apply h.objectBelow.trans
    simp [Records.put, Records.insertObject]
  · rw [Records.put_buckets] at hb'
    obtain ⟨hname, hv, hlook⟩ := h.kept b' hb' hdel
    refine ⟨hname, hv, ?_⟩
    rw [lookup_put_of_ne h.objectBelow, hlook]
    intro hdisplaced
    obtain ⟨e, hcur, rfl, hkept⟩ := Records.displaced_spec hdisplaced
    obtain ⟨hlook', hbucket, _⟩ := mem_rowsOf.mp (current_mem hcur).1
    rw [hlook, some.injEq] at hlook'
    have hsame : other = bucketId := by rw [← hnew, ← hbucket, ← hlook', howner]
    subst hsame
    rw [(h.consistent.live_iff.mp hlive).1, some.injEq] at hb'
    rcases hkept with hdis | hunsticky
    · exact hv (hb' ▸ hdis)
    · rw [← hlook', hsticky] at hunsticky
      exact absurd hunsticky (by simp)

theorem Kept.of_objects (h : Kept db bucket bucketId id row r) (hcons : r'.Consistent db)
    (hbuckets : r'.buckets = r.buckets) (hbucket : r'.nextBucket = r.nextBucket)
    (hobj : r'.nextObject = r.nextObject)
    (hlook : ∀ b, r.buckets.lookup bucketId = some b → b.name = bucket → b.versioning ≠ .disabled →
      r.objects.lookup id = some row → r'.objects.lookup id = some row) :
    Kept db bucket bucketId id row r' := by
  refine ⟨hcons, hbucket ▸ h.bucketBelow, hobj ▸ h.objectBelow, fun b hb hdel => ?_⟩
  rw [hbuckets] at hb
  obtain ⟨hname, hv, hrow⟩ := h.kept b hb hdel
  exact ⟨hname, hv, hlook b hb hname hv hrow⟩

theorem Kept.markDeleted (h : Kept db bucket bucketId id row r) (hne : other ≠ id)
    (sticky : Option Bool) : Kept db bucket bucketId id row (r.markDeleted other sticky) :=
  h.of_objects (h.consistent.markDeleted _ _) rfl rfl rfl fun _ _ _ _ hrow => by
    simp [Records.markDeleted, hrow, Ne.symm hne]

/-- Where there are versions a sticky row is marked by its id only. -/
theorem Marks.byId {version : Option Text} {sticky : Option Bool} (h : Marks db e v version sticky)
    (hv : v ≠ .disabled) (hsticky : e.2.sticky = true) :
    ∃ given, version = some given ∧ given ≠ "null".toList ∧ db.toUuid given = .ok e.2.version := by
  cases h with
  | current => exact absurd rfl hv
  | currentNull hunsticky => exact absurd (hsticky.symm.trans hunsticky) (by simp)
  | @version _ given hnull huuid => exact ⟨given, rfl, hnull, huuid⟩
  | nullVersion hunsticky _ => exact absurd (hsticky.symm.trans hunsticky) (by simp)

theorem ne_of_collectable (he : e ∈ r.collectable) (hrow : r.objects.lookup id = some row)
    (hnorm : row.status = .normal) : e.1 ≠ id := by
  rintro rfl
  obtain ⟨hmem, hstat⟩ := mem_filter.mp he
  rw [(r.objects.mem_entries_iff e.1 e.2).mp hmem, some.injEq] at hrow
  simp [hrow, hnorm] at hstat

theorem Kept.move (h : Kept db bucket bucketId id row r) (hmove : Move db fmt r op r')
    (hspares : Spares db bucket row.name row.version op) (hnorm : row.status = .normal)
    (hsticky : row.sticky = true) (howner : row.bucketId = bucketId) :
    Kept db bucket bucketId id row r' := by
  have hcons := hmove.consistent h.consistent
  cases hmove with
  | stay => exact h
  | create hlive =>
    refine ⟨hcons, h.bucketBelow.trans (Nat.lt_succ_self _), h.objectBelow, fun b hb => ?_⟩
    rw [Records.createBucket, lookup_insert, if_neg (ne_of_lt h.bucketBelow)] at hb
    exact h.kept b hb
  | drop hlive =>
    refine ⟨hcons, h.bucketBelow, h.objectBelow, fun b hb hdel => ?_⟩
    rw [Records.dropBucket, lookup_modify, map_eq_some_iff] at hb
    obtain ⟨b', hb', rfl⟩ := hb
    split at hdel
    case isTrue => exact absurd hdel (by simp)
    case isFalse hne =>
      rw [if_neg hne]
      exact h.kept b' hb' hdel
  | configure hlive hconf =>
    refine ⟨hcons, h.bucketBelow, h.objectBelow, fun b hb hdel => ?_⟩
    rw [Records.updateBuckets, lookup_mapValues, map_eq_some_iff] at hb
    obtain ⟨b', hb', rfl⟩ := hb
    split at hdel
    case isTrue hname =>
      rw [(hconf.keeps b').1] at hdel
      obtain ⟨hbucket, hv, hrow⟩ := h.kept b' hb' hdel
      rw [if_pos hname, (hconf.keeps b').2]
      refine ⟨hbucket, ?_, hrow⟩
      cases hconf with
      | policy _ => exact hv
      | cors _ => exact hv
      | versioning v => exact hspares (hname.symm.trans hbucket)
    case isFalse hname =>
      rw [if_neg hname]
      exact h.kept b' hb' hdel
  | put now hlive haddr => exact h.put hsticky howner hlive rfl rfl
  | marker now hlive hv =>
    exact (h.put hsticky howner hlive rfl rfl).markDeleted (ne_of_gt h.objectBelow) _
  | @mark name object other b version e sticky hlive he hmarks =>
    refine h.of_objects hcons rfl rfl rfl fun b' hb' hname hv hrow => ?_
    obtain ⟨hlook, hbucket, hobj⟩ := mem_rowsOf.mp he
    have hne : e.1 ≠ id := by
      rintro rfl
      rw [hrow, some.injEq] at hlook
      subst hlook
      rw [howner] at hbucket
      subst hbucket
      obtain ⟨hb, _, hbname⟩ := h.consistent.live_iff.mp hlive
      rw [hb', some.injEq] at hb
      subst hb
      obtain ⟨given, rfl, hnull, huuid⟩ := hmarks.byId hv hsticky
      exact hspares (hbname.symm.trans hname) hobj.symm hnull huuid
    simp [Records.markDeleted, hrow, Ne.symm hne]
  | clear =>
    refine ⟨hcons, h.bucketBelow, h.objectBelow, fun b hb => ?_⟩
    rw [Records.clearBuckets, lookup_filter, filter_eq_some_iff] at hb
    exact h.kept b hb.1
  | @stuck e he =>
    refine h.of_objects hcons rfl rfl rfl fun b _ _ _ hrow => ?_
    simp [Records.markCollected, hrow, Ne.symm (ne_of_collectable he hrow hnorm)]
  | @erase e he =>
    refine h.of_objects hcons rfl rfl rfl fun b _ _ _ hrow => ?_
    simp [Records.eraseObject, hrow, Ne.symm (ne_of_collectable he hrow hnorm)]

theorem Kept.performAll (h : Kept db bucket bucketId id row r) {calls : List Call}
    (hcalls : ∀ call ∈ calls, Spares db bucket row.name row.version call.op)
    (hnorm : row.status = .normal) (hsticky : row.sticky = true)
    (howner : row.bucketId = bucketId) :
    Kept db bucket bucketId id row (performAll db fmt calls r) := by
  induction calls generalizing r with
  | nil => exact h
  | cons call calls ih =>
    exact ih (h.move (h.consistent.move call) (hcalls call mem_cons_self) hnorm hsticky
      howner) fun c hc => hcalls c (mem_cons_of_mem _ hc)

end Kept

section Versions

variable {db : Database} {fmt : AddressFormat} {bucket : Text} {bucketId id : Nat} {row : ObjectRow}
  {r : Records} {b : BucketRow}

theorem kept_of_put (h : r.Consistent db) (hlive : r.Live bucket bucketId b) {scan : Scan}
    {now : Nat} {obj : NewObject} {uuid : Text}
    (hput : (run (putObject db fmt scan now bucket obj) r).1 = .ok (some uuid)) :
    ∃ addr, obj.addr = some addr ∧ uuid = db.uuid r.drawn ∧
      Kept db bucket bucketId r.nextObject (newRow db now r bucketId .enabled obj.name
        (fmt.toBuffer addr) addr.dataSize obj.etag obj.mime)
        (run (putObject db fmt scan now bucket obj) r).2 := by
  cases haddr : obj.addr with
  | none =>
    rw [putObject, haddr] at hput
    exact absurd hput (by simp [run_throw])
  | some addr =>
    have hrun : run (putObject db fmt scan now bucket obj) r = (.ok
        (if b.versioning = .enabled then some (db.uuid r.drawn) else none),
        r.put b.versioning (newRow db now r bucketId b.versioning obj.name (fmt.toBuffer addr)
          addr.dataSize obj.etag obj.mime)) := by
      simp only [putObject, haddr, run_bind, run_recover,
        run_vrmPutObject db scan now hlive, run_pure]
    rw [hrun] at hput ⊢
    by_cases hv : b.versioning = .enabled
    · rw [if_pos hv, Except.ok.injEq, some.injEq] at hput
      have hcons : (r.put b.versioning (newRow db now r bucketId b.versioning obj.name
          (fmt.toBuffer addr) addr.dataSize obj.etag obj.mime)).Consistent db :=
        h.put hlive rfl rfl
      rw [hv] at hcons ⊢
      refine ⟨addr, rfl, hput.symm, hcons, h.bucketsBelow _ hlive.mem,
        Nat.lt_succ_self _, fun b' hb' _ => ?_⟩
      rw [Records.put_buckets, (h.live_iff.mp hlive).1, some.injEq] at hb'
      subst hb'
      refine ⟨hlive.name, by simp [hv], ?_⟩
      simp [Records.put, Records.displaced, Records.displace, Records.insertObject,
        lookup_insert]
    · rw [if_neg hv] at hput
      exact absurd hput (by simp)

theorem Kept.byVersion (huuid : Function.Injective db.uuid) (h : Kept db bucket bucketId id row r)
    (hlive : r.Live bucket bucketId b) (howner : row.bucketId = bucketId) :
    r.byVersion bucketId row.name row.version = some (id, row) := by
  obtain ⟨hlook, hdel, _⟩ := h.consistent.live_iff.mp hlive
  obtain ⟨_, _, hrow⟩ := h.kept b hlook hdel
  have hver : ∀ k v, r.objects.lookup k = some v → v.version = db.uuid k :=
    fun k v hk => h.consistent.version (k, v) ((r.objects.mem_entries_iff k v).mpr hk)
  rw [Catalog.byVersion, Catalog.rowsOf, List.filter_filter, getLast_filter_iff]
  refine ⟨hrow, by simp [howner], fun k v hk hp => le_of_eq ?_⟩
  simp only [Bool.and_eq_true, decide_eq_true_eq] at hp
  rw [hver k v hk, hver id row hrow] at hp
  exact huuid hp.1

/-- A version that a put returned is found with the data of the put, and is not
given to the garbage collector, as long as its bucket is there. -/
theorem version_kept (huuid : Function.Injective db.uuid) {before calls : List Call}
    {r' : Records} (hr : r = performAll db fmt before Records.empty)
    (hbucket : r.vrmGetBucketId bucket = some bucketId)
    {scan : Scan} {now : Nat} {obj : NewObject} {uuid : Text}
    (hput : (run (putObject db fmt scan now bucket obj) r).1 = .ok (some uuid))
    (hcalls : ∀ call ∈ calls, Spares db bucket obj.name uuid call.op)
    (hr' : r' = performAll db fmt calls (run (putObject db fmt scan now bucket obj) r).2)
    (hexists : r'.vrmGetBucketId bucket = some bucketId) :
    ∃ id row addr, r'.vrmGetObjectByVersion bucket obj.name uuid = .ok (some ⟨id, row, some uuid⟩) ∧
      row.status = .normal ∧ obj.addr = some addr ∧ row.address = fmt.toBuffer addr ∧
      row.size = addr.dataSize ∧ row.etag = obj.etag ∧
      ∀ scan deleted, (run (vrmNextDeleted scan) r').1 = .ok (some deleted) → deleted.id ≠ id := by
  have hconsistent : r.Consistent db := hr ▸ (consistent_empty db).performAll before
  obtain ⟨b, hlive⟩ := hconsistent.live_of_vrmGetBucketId hbucket
  obtain ⟨addr, haddr, rfl, hkept⟩ := kept_of_put hconsistent hlive hput
  have hlater := hr' ▸ hkept.performAll hcalls rfl rfl rfl
  obtain ⟨b', hlive'⟩ := hlater.consistent.live_of_vrmGetBucketId hexists
  have hfound := hlater.byVersion huuid hlive' rfl
  refine ⟨r.nextObject, newRow db now r bucketId .enabled obj.name (fmt.toBuffer addr)
    addr.dataSize obj.etag obj.mime, addr, ?_, rfl, haddr, rfl, rfl, rfl,
    fun scan deleted hdeleted => ?_⟩
  · rw [hlive'.vrmGetObjectByVersion]
    exact congrArg (fun e => Except.ok (Option.map _ e)) hfound
  · obtain ⟨hlookup, hnot, _⟩ := hlater.consistent.live_iff.mp hlive'
    obtain ⟨_, _, hrow⟩ := hlater.kept b' hlookup hnot
    rw [vrmNextDeleted, run_act] at hdeleted
    cases hfirst : scan.first r'.collectable with
    | none => simp [show scan.first (r'.objects.entries.filter _) = _ from hfirst] at hdeleted
    | some e =>
      simp only [show scan.first (r'.objects.entries.filter _) = _ from hfirst, Except.ok.injEq,
        some.injEq] at hdeleted
      rw [← hdeleted]
      exact ne_of_collectable (Scan.mem_of_first hfirst) hrow rfl

/-- The tables with a bucket that has versioning. -/
def sampleVersioned : Records :=
  performAll sampleDatabase sampleFormat [sampleCreate, sampleSet .enabled] Records.empty

/-- A newer version, a delete marker and deletions of the null version. -/
def sampleLater : List Call :=
  [samplePut, sampleDelete, sampleSet .suspended, samplePut, sampleDelete, samplePut,
    ⟨sampleScan, 0, .deleteObject sampleBucket ['k'] (some "null".toList)⟩, sampleCollect]

theorem version_kept_sample : ∃ id row addr,
    (performAll sampleDatabase sampleFormat sampleLater
      (run (putObject sampleDatabase sampleFormat sampleScan 0 sampleBucket sampleObject)
        sampleVersioned).2).vrmGetObjectByVersion sampleBucket ['k'] ['v'] =
        .ok (some ⟨id, row, some ['v']⟩) ∧
      row.status = .normal ∧ sampleObject.addr = some addr ∧
      row.address = sampleFormat.toBuffer addr := by
  have huuid : Function.Injective sampleDatabase.uuid := by
    intro m n h
    simpa [sampleDatabase] using congrArg length h
  have hbucket : sampleVersioned.vrmGetBucketId sampleBucket = some 0 := rfl
  have hput : (run (putObject sampleDatabase sampleFormat sampleScan 0 sampleBucket
      sampleObject) sampleVersioned).1 = .ok (some ['v']) := rfl
  have hcalls : ∀ call ∈ sampleLater,
      Spares sampleDatabase sampleBucket sampleObject.name ['v'] call.op := by
    simp [sampleLater, samplePut, sampleDelete, sampleSet, sampleCollect, Spares]
  have hexists : (performAll sampleDatabase sampleFormat sampleLater
      (run (putObject sampleDatabase sampleFormat sampleScan 0 sampleBucket sampleObject)
        sampleVersioned).2).vrmGetBucketId sampleBucket = some 0 := by decide +kernel
  obtain ⟨id, row, addr, hfound, hstatus, haddr, haddress, _⟩ :=
    version_kept huuid rfl hbucket hput hcalls rfl hexists
  exact ⟨id, row, addr, hfound, hstatus, haddr, haddress⟩

end Versions

end UhCore.Entrypoint
