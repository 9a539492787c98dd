import UhCore.Entrypoint.History
import UhCore.Entrypoint.ReadCommands

/-!
What a listing, GET and HEAD say about a key of a bucket, along histories of
puts, deletes, changes of the versioning mode and iterations of the garbage
collector. The listing goes by the newest row of a key, GET and HEAD by the
newest row that is not hidden in the mode of the bucket.
-/

namespace UhCore.Entrypoint.Agreement

open Directory (Versioning ObjectStatus)
open Effects Http Commands List Catalog Response

/-- A GET or HEAD request for a key, without version and range. -/
structure Asks (bucket key : Text) (req : Request) : Prop where
  bucket : req.bucket = bucket
  key : req.objectKey = key
  version : req.query "versionId".toList = none
  range : req.header "Range".toList = none

section Views

variable (env : Env) (bucket : Text) (r : Records)

def Lists (key : Text) (o : Object) : Prop :=
  ∃ objects, r.listObjects bucket none none = .ok objects ∧ o ∈ objects ∧ o.name = key

def Gets (scan : Scan) (req : Request) (addr : Address) : Prop :=
  ∃ res, (run (getObject env scan req) r).1 = .ok res ∧ res.status = .ok ∧ res.body = .stored addr

def Heads (scan : Scan) (req : Request) : Prop :=
  ∃ res, (run (headObject env scan req) r).1 = .ok res ∧ res.status = .ok

def HasData (o : Object) (addr : Address) : Prop :=
  ∃ row, r.objects.lookup o.id = some row ∧ env.fmt.toAddress row.address = .ok addr

/-- All three have the key, with the same data, or none of them has. -/
structure Agree (key : Text) : Prop where
  get : ∀ scan req, Asks bucket key req →
    ((∃ o, Lists bucket r key o) ↔ ∃ addr, Gets env r scan req addr)
  data : ∀ scan req, Asks bucket key req → ∀ o addr,
    Lists bucket r key o → Gets env r scan req addr → HasData env r o addr
  head : ∀ scan req, Asks bucket key req → ((∃ o, Lists bucket r key o) ↔ Heads env r scan req)

structure Absent (key : Text) : Prop where
  list : ∀ o, ¬ Lists bucket r key o
  get : ∀ scan req, Asks bucket key req → ∀ addr, ¬ Gets env r scan req addr
  head : ∀ scan req, Asks bucket key req → ¬ Heads env r scan req

end Views

section ViewsOfRows

variable {env : Env} {bucket key : Text} {r : Records} {bucketId : Nat} {row : BucketRow}
  {scan : Scan} {req : Request}

theorem run_find (hlive : r.Live bucket bucketId row) : run (Dir.find env.db scan bucket key none) r =
    (.ok ((r.current row.versioning bucketId key).map (foundOf row.versioning)), r) := by
  rw [Dir.find, call, run_rethrow, run_ask, hlive.vrmGetObject]

theorem gets_iff (hlive : r.Live bucket bucketId row) (hreq : Asks bucket key req)
    (addr : Address) : Gets env r scan req addr ↔
      ∃ e, r.current row.versioning bucketId key = some e ∧
        env.fmt.toAddress e.2.address = .ok addr := by
  simp only [Gets, getObject, hreq.bucket, hreq.key, hreq.version, hreq.range, Dir.getObject,
    run_bind, run_find hlive]
  cases r.current row.versioning bucketId key with
  | none => simp [run_throw]
  | some e =>
    simp only [Option.map_some, run_bind, Option.some.injEq, exists_eq_left', foundOf]
    cases env.fmt.toAddress e.2.address with
    | error x => simp [Except.mapError, computed, run_throw]
    | ok found => simp [Except.mapError, computed, run_pure, withBody, ok,
        ofStatus]

theorem heads_iff (hlive : r.Live bucket bucketId row) (hreq : Asks bucket key req) :
    Heads env r scan req ↔ ∃ e, r.current row.versioning bucketId key = some e := by
  simp only [Heads, headObject, hreq.bucket, hreq.key, hreq.version, Dir.headObject, run_recover,
    run_bind, run_find hlive]
  cases r.current row.versioning bucketId key with
  | none => simp [run_throw]
  | some e => simp [run_pure, ok, ofStatus]

theorem mem_listObjects (hlive : r.Live bucket bucketId row) (o : Object) :
    (∃ objects, r.listObjects bucket none none = .ok objects ∧ o ∈ objects) ↔
      ∃ e ∈ r.objects.entries, r.newest e = true ∧ e.2.bucketId = bucketId ∧
        e.2.status = .normal ∧ o = rowToObject (some e.2.version) e := by
  simp only [Catalog.listObjects, Catalog.bucketExists, Catalog.vrmListObjects,
    hlive.vrmGetBucketId, bind, Except.bind, Option.getD_none, Except.ok.injEq,
    exists_eq_left', List.mem_map, Catalog.byName, mem_insertionSort, mem_filter,
    Catalog.listed, Catalog.aboveBound, nil_append, like_percent]
  constructor
  · rintro ⟨e, ⟨hmem, he⟩, rfl⟩
    simp only [Bool.and_true, decide_true, Bool.true_or, Bool.and_eq_true, decide_eq_true_eq] at he
    exact ⟨e, hmem, he.1.1, he.1.2, he.2, rfl⟩
  · rintro ⟨e, hmem, hnewest, hbucket, hstat, rfl⟩
    exact ⟨e, ⟨hmem, by simp [hnewest, hbucket, hstat]⟩, rfl⟩

theorem newest_iff {e : Nat × ObjectRow} (he : e ∈ r.objects.entries) :
    r.newest e = true ↔ (r.rowsOf e.2.bucketId e.2.name).getLast? = some e := by
  rw [rowsOf, KeyMap.getLast_filter_iff, newest, List.all_eq_true]
  constructor
  · intro h
    refine ⟨(r.objects.mem_entries_iff e.1 e.2).mp he, by simp, fun k v hk hp => ?_⟩
    have hkv := h (k, v) ((r.objects.mem_entries_iff k v).mpr hk)
    simp only [Bool.and_eq_true, decide_eq_true_eq] at hp
    simpa [hp.1, hp.2] using hkv
  · rintro ⟨_, _, hmax⟩ ⟨k, v⟩ hkv
    by_cases hsame : v.bucketId = e.2.bucketId ∧ v.name = e.2.name
    · have hle := hmax k v ((r.objects.mem_entries_iff k v).mp hkv) (by simp [hsame])
      simp [hle]
    · by_cases hb : v.bucketId = e.2.bucketId <;> by_cases hn : v.name = e.2.name <;>
        simp_all

theorem lists_iff (hlive : r.Live bucket bucketId row) (o : Object) :
    Lists bucket r key o ↔ ∃ e, (r.rowsOf bucketId key).getLast? = some e ∧
      e.2.status = .normal ∧ o = rowToObject (some e.2.version) e := by
  have hlists : Lists bucket r key o ↔
      (∃ objects, r.listObjects bucket none none = .ok objects ∧ o ∈ objects) ∧ o.name = key := by
    simp only [Lists, ← and_assoc, exists_and_right]
  rw [hlists, mem_listObjects hlive]
  constructor
  · rintro ⟨⟨e, hmem, hnewest, rfl, hstat, rfl⟩, rfl⟩
    exact ⟨e, (newest_iff hmem).mp hnewest, hstat, rfl⟩
  · rintro ⟨e, hlast, hstat, rfl⟩
    obtain ⟨hlook, rfl, rfl⟩ := mem_rowsOf.mp (mem_of_getLast? hlast)
    have hmem := (r.objects.mem_entries_iff e.1 e.2).mpr hlook
    exact ⟨⟨e, hmem, (newest_iff hmem).mpr hlast, rfl, hstat, rfl⟩, rfl⟩

end ViewsOfRows

section Requests

def pathOf (bucket key : Text) : Text := '/' :: bucket ++ '/' :: key

theorem split_pathOf {bucket : Text} (h : '/' ∉ bucket) (key : Text) :
    split (pathOf bucket key) '/' = [] :: bucket :: key.splitOn '/' := by
  have hbucket : bucket.splitOn '/' = [bucket] := by
    have hsplit : (['/'].intercalate [bucket]).splitOn '/' = [bucket] :=
      splitOn_intercalate '/' (by simpa using h) (by simp)
    simpa using hsplit
  have hkey : (bucket ++ '/' :: key).splitOn '/' = bucket :: key.splitOn '/' := by
    rw [List.splitOn, splitOnP_append_cons _ _ (by simp), ← List.splitOn, hbucket]
    rfl
  have hpath : (pathOf bucket key).splitOn '/' = [] :: bucket :: key.splitOn '/' := by
    have hcons : pathOf bucket key = [] ++ '/' :: (bucket ++ '/' :: key) := rfl
    rw [hcons, List.splitOn, splitOnP_append_cons _ _ (by simp), ← List.splitOn,
      ← List.splitOn, hkey]
    rfl
  rw [split, if_neg (by simp [pathOf]), hpath]

theorem exists_asks {bucket : Text} (h : '/' ∉ bucket) (key : Text) :
    ∃ req, Asks bucket key req := by
  refine ⟨⟨⟨[], pathOf bucket key, [], [], [], []⟩, ⟨[], [], none, false⟩⟩, ?_, ?_, rfl, rfl⟩
  · simp [Request.bucket, getBucketId, split_pathOf h]
  · simp only [Request.objectKey, getObjectKey, split_pathOf h, join, drop_succ_cons, drop_zero]
    exact intercalate_splitOn '/'

end Requests

section Histories

variable (env : Env) (bucket : Text)

/-- The calls of a history of one bucket. Its versioning is not turned off. -/
def OnBucket : Op → Prop
  | .putObject b obj => b = bucket ∧ obj.addr.isSome
  | .deleteObject b _ _ => b = bucket
  | .setBucketVersioning b versioning => b = bucket ∧ versioning ≠ .disabled
  | .collect => True
  | _ => False

structure Created (r : Records) (bucketId : Nat) : Prop where
  name : validateBucketName bucket = .ok ()
  live : ∃ row, r.Live bucket bucketId row ∧ row.versioning = .disabled
  empty : ∀ key, r.rowsOf bucketId key = []
  below : r.Below

def versionTarget (r : Records) (bucketId : Nat) (scan : Scan) (key version : Text) :
    Option (Nat × ObjectRow) :=
  if version = "null".toList then scan.first (r.nulls bucketId key)
  else match env.db.toUuid version with
    | .error _ => none
    | .ok version => r.byVersion bucketId key version

def deletesVersion (r : Records) (scan : Scan) (key version : Text) : Bool :=
  match r.vrmGetBucketId bucket with
  | none => false
  | some bucketId => (versionTarget env r bucketId scan key version).isSome

/-- The tables with the keys that were deleted without version, since when they
were not put and no version of them was deleted. -/
structure Tracked where
  records : Records
  gone : Text → Bool

def Tracked.goneAfter (t : Tracked) (call : Call) (key : Text) : Bool :=
  match call.op with
  | .putObject _ obj => if obj.name = key then false else t.gone key
  | .deleteObject _ object none => if object = key then true else t.gone key
  | .deleteObject _ object (some version) =>
    if object = key ∧ deletesVersion env bucket t.records call.scan object version then false
    else t.gone key
  | _ => t.gone key

def Tracked.next (t : Tracked) (call : Call) : Tracked :=
  ⟨call.after env.db env.fmt t.records, t.goneAfter env bucket call⟩

def Holds (t : Tracked) : Prop :=
  ∀ key, Agree env bucket t.records key ∧ (t.gone key = true → Absent env bucket t.records key)

/-- Every state of the history has the property. -/
def Always (P : Tracked → Prop) : Tracked → List Call → Prop
  | t, [] => P t
  | t, call :: calls => P t ∧ Always P (t.next env bucket call) calls

/-- Every call meets the condition in the tables it is made on. -/
def EveryStep (Q : Records → Call → Prop) : Records → List Call → Prop
  | _, [] => True
  | r, call :: calls => Q r call ∧ EveryStep Q (call.after env.db env.fmt r) calls

/-- The condition on a call: a key is deleted without version only in a bucket
without versioning or where no row of it is normal, and a delete of a version
takes the newest row of a key only where no other one is normal. -/
def StepOk (r : Records) (call : Call) : Prop :=
  ∀ bucketId row, r.Live bucket bucketId row →
    match call.op with
    | .deleteObject _ key none => row.versioning = .disabled ∨
        ∀ e ∈ r.rowsOf bucketId key, e.2.status ≠ .normal
    | .deleteObject _ key (some version) =>
      ∀ e, versionTarget env r bucketId call.scan key version = some e →
        (r.rowsOf bucketId key).getLast? = some e →
        ∀ f ∈ r.rowsOf bucketId key, f.2.status = .normal → f.1 = e.1
    | _ => True

end Histories

end UhCore.Entrypoint.Agreement
