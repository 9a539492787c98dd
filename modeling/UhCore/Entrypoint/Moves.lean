import UhCore.Entrypoint.History

/-!
What a call on the directory does to the tables, and the facts about the tables
that every call keeps: ids are below the next ones, there is at most one bucket
of a name that is not deleted, and a row has the version that was drawn with its
id.
-/

namespace UhCore.Entrypoint

open Directory (Versioning ObjectStatus)
open Effects List Catalog Call Dir

structure Records.Consistent (db : Database) (r : Records) : Prop where
  below : r.Below
  bucketsBelow : ∀ e ∈ r.buckets.entries, e.1 < r.nextBucket
  owner : ∀ e ∈ r.objects.entries, e.2.bucketId < r.nextBucket
  unique : ∀ name, (r.live name).length ≤ 1
  drawn : r.drawn = r.nextObject
  version : ∀ e ∈ r.objects.entries, e.2.version = db.uuid e.1

namespace Records

def createBucket (r : Records) (bucket : Text) : Records :=
  { r with
    buckets := r.buckets.insert r.nextBucket ⟨bucket, false, none, none, .disabled⟩
    nextBucket := r.nextBucket + 1 }

def dropBucket (r : Records) (bucketId : Nat) : Records :=
  { r with buckets := r.buckets.modify bucketId fun row => { row with deleted := true } }

def clearBuckets (r : Records) : Records :=
  { r with buckets := r.buckets.filter fun e =>
      !e.2.deleted || r.objects.entries.any fun o => decide (o.2.bucketId = e.1) }

def markCollected (r : Records) (id : Nat) : Records :=
  { r with objects := r.objects.modify id fun row => { row with status := .collected } }

def eraseObject (r : Records) (id : Nat) : Records := { r with objects := r.objects.erase id }

theorem Consistent.live_cases {db : Database} {r : Records} (h : r.Consistent db) (name : Text) :
    r.live name = [] ∨ ∃ bucketId row, r.Live name bucketId row := by
  match hlive : r.live name, h.unique name with
  | [], _ => exact Or.inl rfl
  | [e], _ => exact Or.inr ⟨e.1, e.2, hlive⟩

end Records

section Moves

variable (db : Database) (fmt : AddressFormat)

/-- The change of a configuration. -/
inductive Configures (bucket : Text) : Op → (BucketRow → BucketRow) → Prop where
  | policy {given stored : Option Text} : given.mapM db.toJson = .ok stored →
      Configures bucket (.setBucketPolicy bucket given) fun row => { row with policy := stored }
  | cors {given stored : Option Text} : given.mapM db.toXml = .ok stored →
      Configures bucket (.setBucketCors bucket given) fun row => { row with cors := stored }
  | versioning (v : Versioning) :
      Configures bucket (.setBucketVersioning bucket v) fun row => { row with versioning := v }

/-- The rows that a deletion marks, with what becomes of `sticky`. -/
inductive Marks (e : Nat × ObjectRow) : Versioning → Option Text → Option Bool → Prop where
  | current : Marks e .disabled none none
  | currentNull : e.2.sticky = false → Marks e .suspended none (some true)
  | version {v : Versioning} {given : Text} : given ≠ "null".toList →
      db.toUuid given = .ok e.2.version → Marks e v (some given) (some false)
  | nullVersion {v : Versioning} : e.2.sticky = false → e.2.status = .normal →
      Marks e v (some "null".toList) none

/-- What a call makes of the tables. -/
inductive Move (r : Records) : Op → Records → Prop where
  | stay (op : Op) : Move r op r
  | create {bucket : Text} : r.live bucket = [] → Move r (.putBucket bucket) (r.createBucket bucket)
  | drop {bucket : Text} {bucketId : Nat} {row : BucketRow} : r.Live bucket bucketId row →
      Move r (.deleteBucket bucket) (r.dropBucket bucketId)
  | configure {bucket : Text} {bucketId : Nat} {row : BucketRow} {op : Op}
      {f : BucketRow → BucketRow} : r.Live bucket bucketId row → Configures db bucket op f →
      Move r op (r.updateBuckets bucket f)
  | put {bucket : Text} {bucketId : Nat} {row : BucketRow} {obj : NewObject} {addr : Address}
      (now : Nat) : r.Live bucket bucketId row → obj.addr = some addr →
      Move r (.putObject bucket obj) (r.put row.versioning (newRow db now r bucketId
        row.versioning obj.name (fmt.toBuffer addr) addr.dataSize obj.etag obj.mime))
  | marker {bucket object : Text} {bucketId : Nat} {row : BucketRow} (now : Nat) :
      r.Live bucket bucketId row → row.versioning ≠ .disabled →
      Move r (.deleteObject bucket object none) (r.mark row.versioning
        (markerRow db now r bucketId row.versioning object))
  | mark {bucket object : Text} {bucketId : Nat} {row : BucketRow} {version : Option Text}
      {e : Nat × ObjectRow} {sticky : Option Bool} : r.Live bucket bucketId row →
      e ∈ r.rowsOf bucketId object → Marks db e row.versioning version sticky →
      Move r (.deleteObject bucket object version) (r.markDeleted e.1 sticky)
  | clear : Move r .collect r.clearBuckets
  | stuck {e : Nat × ObjectRow} : e ∈ r.collectable → Move r .collect (r.markCollected e.1)
  | erase {e : Nat × ObjectRow} : e ∈ r.collectable → Move r .collect (r.eraseObject e.1)

variable {db fmt} {r : Records} (scan : Scan) (now : Nat) {bucket : Text} {op : Op}

theorem Configures.keeps {f : BucketRow → BucketRow} (h : Configures db bucket op f)
    (row : BucketRow) : (f row).deleted = row.deleted ∧ (f row).name = row.name := by
  cases h <;> exact ⟨rfl, rfl⟩

theorem run_putBucket (bucket : Text) : run (putBucket bucket) r =
    match validateBucketName bucket with
    | .error e => (.error e, r)
    | .ok _ =>
      if (r.live bucket).isEmpty then (.ok ⟨⟩, r.createBucket bucket)
      else (.error bucketNameTaken, r) := by
  simp only [putBucket, run_bind]
  cases validateBucketName bucket with
  | error e => rfl
  | ok u =>
    simp only [computed, run_pure, run_recover, vrmCreateBucket, run_act]
    by_cases hlive : (r.live bucket).isEmpty <;> simp only [hlive] <;> rfl

theorem move_putBucket (bucket : Text) : Move db fmt r (.putBucket bucket)
    ((mk scan now (.putBucket bucket)).after db fmt r) := by
  simp only [after_eq, perform, run_putBucket]
  cases validateBucketName bucket with
  | error e => exact Move.stay _
  | ok u =>
    by_cases hlive : (r.live bucket).isEmpty
    · simp only [hlive, if_true]
      exact Move.create (List.isEmpty_iff.mp hlive)
    · simp only [hlive]
      exact Move.stay _

theorem run_deleteBucket {bucketId : Nat} {row : BucketRow} (hlive : r.Live bucket bucketId row) :
    run (deleteBucket bucket) r =
      if 0 < (byName (r.objects.entries.filter fun e =>
        r.listed bucketId [] e && aboveBound [] e)).length then (.error bucketNotEmpty, r)
      else (.ok ⟨⟩, r.dropBucket bucketId) := by
  unfold deleteBucket
  rw [run_bind, run_bucketExists, if_neg (by simp [show r.live bucket = _ from hlive])]
  simp only [call, run_bind, run_rethrow, run_ask, vrmListObjects, hlive.vrmGetBucketId]
  split
  · rfl
  · simp only [run_rethrow, vrmDeleteBucket, run_act, hlive.vrmGetBucketId]
    rfl

theorem move_deleteBucket (h : r.Consistent db) (bucket : Text) : Move db fmt r (.deleteBucket bucket)
    ((mk scan now (.deleteBucket bucket)).after db fmt r) := by
  rw [after_eq, perform]
  rcases h.live_cases bucket with hlive | ⟨bucketId, row, hlive⟩
  · unfold deleteBucket
    rw [run_bind, run_bucketExists]
    simp only [hlive, isEmpty_nil, if_true]
    exact Move.stay _
  · simp only [run_deleteBucket hlive]
    split
    · exact Move.stay _
    · exact Move.drop hlive

/-- What a function that changes a configuration returns and leaves. -/
def configured (r : Records) (bucket : Text) (stored : Except Exn (Option Text))
    (f : Option Text → BucketRow → BucketRow) : Except Failure PUnit × Records :=
  if (r.live bucket).isEmpty then (.error noSuchBucket, r)
  else match stored with
    | .error e => (.error (.exception e), r)
    | .ok stored => (.ok ⟨⟩, r.updateBuckets bucket (f stored))

theorem run_configure (stored : Except Exn (Option Text)) (bucket : Text)
    (f : Option Text → BucketRow → BucketRow) :
    run (do
      bucketExists bucket
      let stored ← computed (stored.mapError .exception)
      call (updateBucket bucket (f stored)) : Dir PUnit) r = configured r bucket stored f := by
  unfold configured
  rw [run_bind, run_bucketExists]
  by_cases hlive : (r.live bucket).isEmpty
  · rw [if_pos hlive, if_pos hlive]
  · rw [if_neg hlive, if_neg hlive]
    simp only [run_bind]
    cases stored with
    | error e => rfl
    | ok stored =>
      simp only [Except.mapError, computed, run_pure,
        run_updateBucket (Bool.eq_false_iff.mpr hlive)]

theorem run_setBucketPolicy (bucket : Text) (policy : Option Text) :
    run (setBucketPolicy db bucket policy) r =
      configured r bucket (policy.mapM db.toJson) fun stored row => { row with policy := stored } :=
  run_configure _ bucket _

theorem run_setBucketCors (bucket : Text) (cors : Option Text) :
    run (setBucketCors db bucket cors) r =
      configured r bucket (cors.mapM db.toXml) fun stored row => { row with cors := stored } :=
  run_configure _ bucket _

theorem run_setBucketVersioning (bucket : Text) (v : Versioning) :
    run (setBucketVersioning bucket v) r =
      if (r.live bucket).isEmpty then (.error noSuchBucket, r)
      else (.ok ⟨⟩, r.updateBuckets bucket fun row => { row with versioning := v }) := by
  rw [setBucketVersioning, run_bind, run_bucketExists]
  by_cases hlive : (r.live bucket).isEmpty
  · rw [if_pos hlive, if_pos hlive]
  · rw [if_neg hlive, if_neg hlive]
    simp only [vrmBucketSetVersioning, run_updateBucket (Bool.eq_false_iff.mpr hlive)]

theorem move_configure (h : r.Consistent db) {stored : Except Exn (Option Text)}
    {f : Option Text → BucketRow → BucketRow}
    (hf : ∀ value, stored = .ok value → Configures db bucket op (f value)) :
    Move db fmt r op (configured r bucket stored f).2 := by
  unfold configured
  rcases h.live_cases bucket with hlive | ⟨bucketId, row, hlive⟩
  · rw [if_pos (by simp [hlive])]
    exact Move.stay _
  · rw [if_neg (by simp [show r.live bucket = _ from hlive])]
    cases stored with
    | error e => exact Move.stay _
    | ok value => exact Move.configure hlive (hf value rfl)

theorem move_setBucketPolicy (h : r.Consistent db) (bucket : Text) (policy : Option Text) :
    Move db fmt r (.setBucketPolicy bucket policy)
      ((mk scan now (.setBucketPolicy bucket policy)).after db fmt r) := by
  rw [after_eq, perform, run_setBucketPolicy]
  exact move_configure h fun _ => Configures.policy

theorem move_setBucketCors (h : r.Consistent db) (bucket : Text) (cors : Option Text) :
    Move db fmt r (.setBucketCors bucket cors)
      ((mk scan now (.setBucketCors bucket cors)).after db fmt r) := by
  rw [after_eq, perform, run_setBucketCors]
  exact move_configure h fun _ => Configures.cors

theorem move_setBucketVersioning (h : r.Consistent db) (bucket : Text) (v : Versioning) :
    Move db fmt r (.setBucketVersioning bucket v)
      ((mk scan now (.setBucketVersioning bucket v)).after db fmt r) := by
  rw [after_eq, perform, run_setBucketVersioning]
  rcases h.live_cases bucket with hlive | ⟨bucketId, row, hlive⟩
  · rw [if_pos (by simp [hlive])]
    exact Move.stay _
  · rw [if_neg (by simp [show r.live bucket = _ from hlive])]
    exact Move.configure hlive (Configures.versioning v)

theorem move_putObject (h : r.Consistent db) (bucket : Text) (obj : NewObject) :
    Move db fmt r (.putObject bucket obj)
      ((mk scan now (.putObject bucket obj)).after db fmt r) := by
  rw [after_putObject]
  cases haddr : obj.addr with
  | none => exact Move.stay _
  | some addr =>
    rcases h.live_cases bucket with hlive | ⟨bucketId, row, hlive⟩
    · simp only [vrmPutObject, run_bind, run_query, vrmGetBucketInfo, hlive,
        Scan.first_nil, Option.map_none]
      exact Move.stay _
    · simp only [run_vrmPutObject db scan now hlive]
      exact Move.put now hlive haddr

theorem after_deleteObject_of_no_live (hlive : r.live bucket = []) (object : Text)
    (version : Option Text) :
    (mk scan now (.deleteObject bucket object version)).after db fmt r = r := by
  have hrows := inBucket_of_no_live hlive
  rw [after_deleteObject]
  cases version with
  | none =>
    simp only [vrmDeleteObject, run_bind, run_query, currentObject, run_ask,
      vrmGetObject, vrmGetBucketInfo, hlive, Scan.first_nil, Option.map_none]
    rcases hrows (kept object) with h | h <;> rw [h] <;> rfl
  | some version =>
    simp only
    split
    case isTrue =>
      simp only [vrmDeleteObjectNullVersion, run_bind, run_ask]
      rcases hrows fun e => !e.2.sticky && plain object e with h | h
      · simp only [h, Except.map, Scan.first_nil, Option.map_none]
        rfl
      · rw [h]
        rfl
    case isFalse =>
      cases db.toUuid version with
      | error x => rfl
      | ok uuid =>
        simp only [vrmDeleteObjectVersion, run_bind, run_ask, vrmGetObjectByVersion]
        rcases hrows fun e => decide (e.2.name = object) && decide (e.2.version = uuid)
          with h | h <;> rw [h] <;> rfl

theorem move_deleteObject (h : r.Consistent db) (bucket object : Text) (version : Option Text) :
    Move db fmt r (.deleteObject bucket object version)
      ((mk scan now (.deleteObject bucket object version)).after db fmt r) := by
  rcases h.live_cases bucket with hlive | ⟨bucketId, row, hlive⟩
  · rw [after_deleteObject_of_no_live scan now hlive]
    exact Move.stay _
  · rw [after_deleteObject]
    cases version with
    | none =>
      simp only [run_vrmDeleteObject db scan now hlive]
      cases hcur : r.current row.versioning bucketId object with
      | none => exact Move.stay _
      | some e =>
        have hmem := (current_mem hcur).1
        simp only
        split
        case isTrue => exact Move.stay _
        case isFalse =>
          have hmarker : row.versioning ≠ .disabled → Move db fmt r
              (.deleteObject bucket object none) (r.mark row.versioning
                (markerRow db now r bucketId row.versioning object)) := Move.marker now hlive
          have hmark : ∀ sticky, Marks db e row.versioning none sticky → Move db fmt r
              (.deleteObject bucket object none) (r.markDeleted e.1 sticky) :=
            fun _ => Move.mark hlive hmem
          cases hv : row.versioning with
          | disabled => exact hmark none (hv ▸ Marks.current)
          | enabled =>
            rw [hv] at hmarker
            exact hmarker (by simp)
          | suspended =>
            simp only [Records.delete]
            split
            case isTrue => exact hv ▸ hmarker (by simp [hv])
            case isFalse hsticky =>
              exact hmark _ (hv ▸ Marks.currentNull (Bool.eq_false_iff.mpr hsticky))
    | some version =>
      simp only
      split
      case isTrue hnull =>
        subst hnull
        rw [run_vrmDeleteObjectNullVersion scan hlive]
        cases hfirst : scan.first (r.nulls bucketId object) with
        | none => exact Move.stay _
        | some e =>
          obtain ⟨hmem, he⟩ := mem_filter.mp (Scan.mem_of_first hfirst)
          simp only [Bool.and_eq_true, Bool.not_eq_true', decide_eq_true_eq] at he
          exact Move.mark hlive hmem (Marks.nullVersion he.1 he.2)
      case isFalse hnull =>
        cases huuid : db.toUuid version with
        | error x => exact Move.stay _
        | ok uuid =>
          simp only [run_vrmDeleteObjectVersion hlive]
          cases hfound : r.byVersion bucketId object uuid with
          | none => exact Move.stay _
          | some e =>
            obtain ⟨hmem, he⟩ := mem_filter.mp (mem_of_getLast? hfound)
            refine Move.mark hlive hmem (Marks.version hnull ?_)
            rw [huuid, of_decide_eq_true he]

theorem move_collect : Move db fmt r .collect ((mk scan now .collect).after db fmt r) := by
  rw [after_collect]
  cases hfirst : scan.first r.collectable with
  | none => exact Move.clear
  | some e =>
    have hmem := Scan.mem_of_first hfirst
    simp only
    cases fmt.toAddress e.2.address with
    | error x => exact Move.stuck hmem
    | ok addr =>
      simp only [KeyMap.erase_modify]
      exact Move.erase hmem

theorem Records.Consistent.move (h : r.Consistent db) (call : Call) :
    Move db fmt r call.op (call.after db fmt r) := by
  obtain ⟨scan, now, op⟩ := call
  cases op with
  | putBucket bucket => exact move_putBucket scan now bucket
  | deleteBucket bucket => exact move_deleteBucket scan now h bucket
  | setBucketPolicy bucket policy => exact move_setBucketPolicy scan now h bucket policy
  | setBucketCors bucket cors => exact move_setBucketCors scan now h bucket cors
  | setBucketVersioning bucket v => exact move_setBucketVersioning scan now h bucket v
  | putObject bucket obj => exact move_putObject scan now h bucket obj
  | deleteObject bucket object version => exact move_deleteObject scan now h bucket object version
  | collect => exact move_collect scan now

end Moves

section Consistency

variable {db : Database} {fmt : AddressFormat} {r : Records} {bucket : Text} {bucketId : Nat}
  {row : BucketRow}

theorem consistent_empty (db : Database) : Records.empty.Consistent db :=
  ⟨fun _ he => absurd he not_mem_nil, fun _ he => absurd he not_mem_nil,
    fun _ he => absurd he not_mem_nil, fun _ => Nat.zero_le _, rfl,
    fun _ he => absurd he not_mem_nil⟩

theorem Records.Consistent.modifyObject (h : r.Consistent db) (id : Nat)
    {f : ObjectRow → ObjectRow}
    (hf : ∀ row, (f row).bucketId = row.bucketId ∧ (f row).version = row.version) :
    ({ r with objects := r.objects.modify id f } : Records).Consistent db := by
  have hrow : ∀ e ∈ (r.objects.modify id f).entries, ∃ g ∈ r.objects.entries,
      g.1 = e.1 ∧ g.2.bucketId = e.2.bucketId ∧ g.2.version = e.2.version := by
    intro e he
    obtain ⟨g, hg, rfl⟩ := List.mem_map.mp he
    refine ⟨g, hg, rfl, ?_⟩
    by_cases hid : g.1 = id <;> simp [hid, hf]
  refine ⟨h.below.modify id f, h.bucketsBelow, fun e he => ?_, h.unique, h.drawn, fun e he => ?_⟩
  · obtain ⟨g, hg, _, hb, _⟩ := hrow e he
    exact hb ▸ h.owner g hg
  · obtain ⟨g, hg, hid, _, hv⟩ := hrow e he
    rw [← hv, h.version g hg, hid]

theorem Records.Consistent.markDeleted (h : r.Consistent db) (id : Nat) (sticky : Option Bool) :
    (r.markDeleted id sticky).Consistent db := h.modifyObject id fun _ => ⟨rfl, rfl⟩

theorem Records.Consistent.eraseObject (h : r.Consistent db) (id : Nat) :
    (r.eraseObject id).Consistent db :=
  ⟨h.below.erase id, h.bucketsBelow, fun e he => h.owner e (mem_of_mem_filter he), h.unique,
    h.drawn, fun e he => h.version e (mem_of_mem_filter he)⟩

theorem Records.Consistent.insertObject (h : r.Consistent db) {row : ObjectRow}
    (howner : row.bucketId < r.nextBucket) (hver : row.version = db.uuid r.nextObject) :
    (r.insertObject row).Consistent db := by
  have hents : (r.insertObject row).objects.entries =
      r.objects.entries ++ [(r.nextObject, row)] := KeyMap.entries_insert_of_lt h.below row
  refine ⟨h.below.insertObject row, h.bucketsBelow, fun e he => ?_, h.unique,
    congrArg (· + 1) h.drawn, fun e he => ?_⟩
  all_goals
    rw [hents] at he
    rcases mem_append.mp he with he | he
  · exact h.owner e he
  · rwa [mem_singleton.mp he]
  · exact h.version e he
  · rwa [mem_singleton.mp he]

theorem Catalog.Live.mem {c : Catalog} (h : c.Live bucket bucketId row) :
    (bucketId, row) ∈ c.buckets.entries := by
  have hmem := h ▸ mem_singleton_self _
  exact mem_of_mem_filter hmem

theorem Records.Consistent.put (h : r.Consistent db) (hlive : r.Live bucket bucketId row)
    {new : ObjectRow} (hbucket : new.bucketId = bucketId) (hver : new.version = db.uuid r.drawn) :
    (r.put row.versioning new).Consistent db := by
  have hdisplace : ∀ id, (r.displace id).Consistent db ∧ (r.displace id).nextBucket = r.nextBucket := by
    intro id
    cases id with
    | none => exact ⟨h, rfl⟩
    | some id => exact ⟨h.markDeleted id none, rfl⟩
  obtain ⟨hcons, hnext⟩ := hdisplace
    (Records.displaced row.versioning (r.current row.versioning new.bucketId new.name))
  refine hcons.insertObject ?_ ?_
  · rw [hnext, hbucket]
    exact h.bucketsBelow _ hlive.mem
  · rw [hver, Records.displace_nextObject, h.drawn]

theorem Records.Consistent.createBucket (h : r.Consistent db) (hlive : r.live bucket = []) :
    (r.createBucket bucket).Consistent db := by
  have hents : (r.createBucket bucket).buckets.entries = r.buckets.entries ++
      [(r.nextBucket, ⟨bucket, false, none, none, .disabled⟩)] :=
    KeyMap.entries_insert_of_lt h.bucketsBelow _
  refine ⟨h.below, fun e he => ?_, fun e he => (h.owner e he).trans (Nat.lt_succ_self _),
    fun name => ?_, h.drawn, h.version⟩
  · rw [hents] at he
    rcases mem_append.mp he with he | he
    · exact (h.bucketsBelow e he).trans (Nat.lt_succ_self _)
    · rw [mem_singleton.mp he]
      exact Nat.lt_succ_self _
  · rw [live, hents, filter_append]
    by_cases hname : bucket = name
    · subst hname
      rw [show (r.buckets.entries.filter fun e => !e.2.deleted && decide (e.2.name = bucket)) = []
        from hlive]
      simp
    · simpa [hname, live] using h.unique name

theorem Records.Consistent.dropBucket (h : r.Consistent db) (bucketId : Nat) :
    (r.dropBucket bucketId).Consistent db := by
  refine ⟨h.below, fun e he => ?_, h.owner, fun name => ?_, h.drawn, h.version⟩
  · obtain ⟨g, hg, rfl⟩ := List.mem_map.mp he
    exact h.bucketsBelow g hg
  · refine le_trans ?_ (h.unique name)
    simp only [live, Records.dropBucket, KeyMap.modify, List.filter_map, length_map,
      Function.comp_def]
    refine List.Sublist.length_le (monotone_filter_right _ fun e he => ?_)
    by_cases hid : e.1 = bucketId <;> simp_all

theorem Records.Consistent.updateBuckets (h : r.Consistent db) (bucket : Text)
    {f : BucketRow → BucketRow}
    (hf : ∀ row, (f row).deleted = row.deleted ∧ (f row).name = row.name) :
    (r.updateBuckets bucket f).Consistent db := by
  refine ⟨h.below, fun e he => ?_, h.owner, fun name => ?_, h.drawn, h.version⟩
  · obtain ⟨g, hg, rfl⟩ := List.mem_map.mp he
    exact h.bucketsBelow g hg
  · rw [live_updateBuckets r bucket name hf, length_map]
    exact h.unique name

theorem Records.Consistent.clearBuckets (h : r.Consistent db) : r.clearBuckets.Consistent db :=
  ⟨h.below, fun e he => h.bucketsBelow e (mem_of_mem_filter he), h.owner,
    fun name => (live_clearDeletedBuckets r name) ▸ h.unique name, h.drawn, h.version⟩

theorem Move.consistent {op : Op} {r' : Records} (hmove : Move db fmt r op r')
    (h : r.Consistent db) : r'.Consistent db := by
  cases hmove with
  | stay => exact h
  | create hlive => exact h.createBucket hlive
  | drop hlive => exact h.dropBucket _
  | configure hlive hconf => exact h.updateBuckets _ hconf.keeps
  | put now hlive haddr => exact h.put hlive rfl rfl
  | marker now hlive hv => exact (h.put hlive rfl rfl).markDeleted _ _
  | mark hlive he hmarks => exact h.markDeleted _ _
  | clear => exact h.clearBuckets
  | stuck he => exact h.modifyObject _ fun _ => ⟨rfl, rfl⟩
  | erase he => exact h.eraseObject _

def performAll (db : Database) (fmt : AddressFormat) (calls : List Call) (r : Records) : Records :=
  calls.foldl (fun r call => call.after db fmt r) r

theorem Records.Consistent.performAll (h : r.Consistent db) (calls : List Call) :
    (performAll db fmt calls r).Consistent db := by
  induction calls generalizing r with
  | nil => exact h
  | cons call calls ih => exact ih ((h.move call).consistent h)

end Consistency

end UhCore.Entrypoint
