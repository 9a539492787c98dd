import UhCore.Entrypoint.KeptVersions

/-!
What a bucket that was created again has from earlier ones of its name. The
rows of deleted buckets stay until their objects are gone, and the queries for
the configuration and for the versions go by the name alone.
-/

namespace UhCore.Entrypoint

open Directory (Versioning ObjectStatus)
open Effects List Option Catalog Scan

structure Config where
  policy : Option Text
  cors : Option Text
  versioning : Versioning

def Config.initial : Config := ⟨none, none, .disabled⟩

def BucketRow.config (row : BucketRow) : Config := ⟨row.policy, row.cors, row.versioning⟩

/-- The tables with what was set and put for every name since its last bucket was
created. -/
structure Ledger where
  records : Records
  config : Text → Config
  rows : Text → List Nat

section Ledgers

variable (db : Database) (fmt : AddressFormat)

/-- The stored form of a document. -/
def storedAs (convert : Text → Except Exn Text) (given : Option Text) : Option Text :=
  match given.mapM convert with
  | .error _ => none
  | .ok stored => stored

def Config.after (name : Text) (config : Config) : Op → Config
  | .putBucket b => if b = name then .initial else config
  | .setBucketPolicy b policy =>
    if b = name then { config with policy := storedAs db.toJson policy } else config
  | .setBucketCors b cors =>
    if b = name then { config with cors := storedAs db.toXml cors } else config
  | .setBucketVersioning b versioning =>
    if b = name then { config with versioning := versioning } else config
  | _ => config

/-- The rows that a call puts for a name are those with the new ids. -/
def rowsAfter (name : Text) (rows : List Nat) (r r' : Records) (returned : Bool) : Op → List Nat
  | .putBucket b => if returned ∧ b = name then [] else rows
  | .putObject b _ | .deleteObject b _ _ =>
    if b = name then rows ++ List.range' r.nextObject (r'.nextObject - r.nextObject) else rows
  | _ => rows

/-- The ledger behind a call, given what it returned and left. -/
def Ledger.record (l : Ledger) (op : Op) (done : Except Failure Unit × Records) : Ledger where
  records := done.2
  config name := if done.1.isOk then (l.config name).after db name op else l.config name
  rows name := rowsAfter name (l.rows name) l.records done.2 done.1.isOk op

def Ledger.next (l : Ledger) (call : Call) : Ledger :=
  l.record db call.op (run (call.perform db fmt) l.records)

def Ledger.empty : Ledger := ⟨Records.empty, fun _ => .initial, fun _ => []⟩

def Ledger.nextAll (l : Ledger) (calls : List Call) : Ledger := calls.foldl (Ledger.next db fmt) l

/-- For a name the configuration is the one that was set, and the versions that are
listed are those that were put, since its last bucket was created, in whatever
order rows are found. -/
structure Fresh (l : Ledger) (name : Text) : Prop where
  policy : ∀ scan, l.records.vrmBucketPolicy scan name = .ok (l.config name).policy
  cors : ∀ scan, l.records.vrmBucketCors scan name = .ok (l.config name).cors
  versioning : ∀ scan, l.records.vrmBucketVersioning scan name = .ok (l.config name).versioning
  versions : ∀ scan pfx keyMarker version maxKeys,
    ∀ e ∈ l.records.vrmListObjectVersions scan name pfx keyMarker version maxKeys, e.1 ∈ l.rows name

/-- The rows that deleted buckets of the name left say nothing else: their
configurations are that of the bucket, and they have no object that is normal
or sticky. -/
structure Cleared (r : Records) (name : Text) (bucketId : Nat) (row : BucketRow) : Prop where
  config : ∀ e ∈ r.named name, e.2.config = row.config
  objects : ∀ e ∈ r.inNamed name, e.2.status = .normal ∨ e.2.sticky = true → e.2.bucketId = bucketId

structure LedgerInv (l : Ledger) : Prop where
  consistent : l.records.Consistent db
  config : ∀ name bucketId row, l.records.Live name bucketId row → row.config = l.config name
  rows : ∀ name bucketId row, l.records.Live name bucketId row →
    ∀ e ∈ l.records.objects.entries, e.1 ∈ l.rows name ↔ e.2.bucketId = bucketId
  rowsBelow : ∀ name, ∀ id ∈ l.rows name, id < l.records.nextObject

end Ledgers

section Reads

variable {db : Database} {fmt : AddressFormat} {l : Ledger} {name : Text} {bucketId : Nat}
  {row : BucketRow} {c : Catalog}

/-- The order in which a row is found first. -/
def Scan.leading (id : Nat) : Scan where
  order ids := if id ∈ ids then id :: ids.erase id else ids
  perm ids := by
    split
    case isTrue h => exact (perm_cons_erase h).symm
    case isFalse => exact List.Perm.refl _

theorem Scan.first_leading {β : Type} {m : KeyMap β} {p : Nat × β → Bool} {e : Nat × β}
    (he : e ∈ m.entries.filter p) : (leading e.1).first (m.entries.filter p) = some e := by
  have hid : e.1 ∈ (m.entries.filter p).map Prod.fst := List.mem_map_of_mem he
  have hfind : (m.entries.filter p).find? (fun f => decide (f.1 = e.1)) = some e := by
    cases hfound : (m.entries.filter p).find? fun f => decide (f.1 = e.1) with
    | none =>
      rw [find?_eq_none] at hfound
      exact absurd (hfound e he) (by simp)
    | some f =>
      have hf := (m.mem_entries_iff f.1 f.2).mp (mem_of_mem_filter (mem_of_find?_eq_some hfound))
      have hfe : f.1 = e.1 := by simpa using find?_some hfound
      rw [hfe, (m.mem_entries_iff e.1 e.2).mp (mem_of_mem_filter he)] at hf
      rw [Prod.ext hfe (some.inj hf).symm]
  simp only [first, leading, if_pos hid, head?_cons, bind_some, hfind]

theorem Catalog.Live.mem_named (h : c.Live name bucketId row) : (bucketId, row) ∈ c.named name :=
  mem_filter.mpr ⟨h.mem, by simp [h.name]⟩

theorem Catalog.Live.first_named (h : c.Live name bucketId row) (scan : Scan) :
    ∃ e ∈ c.named name, scan.first (c.named name) = some e := by
  obtain ⟨e, he⟩ := scan.first_isSome (ne_nil_of_mem h.mem_named)
  exact ⟨e, mem_of_first he, he⟩

theorem fresh_of_cleared (h : LedgerInv db l) (hlive : l.records.Live name bucketId row)
    (hcleared : Cleared l.records name bucketId row) : Fresh l name := by
  have hread : ∀ scan : Scan, ∃ e, scan.first (l.records.named name) = some e ∧
      e.2.config = l.config name := by
    intro scan
    obtain ⟨e, he, hfirst⟩ := hlive.first_named scan
    exact ⟨e, hfirst, (hcleared.config e he).trans (h.config name bucketId row hlive)⟩
  refine ⟨fun scan => ?_, fun scan => ?_, fun scan => ?_,
    fun scan pfx keyMarker version maxKeys e he => ?_⟩
  · obtain ⟨e, hfirst, hconfig⟩ := hread scan
    simp only [vrmBucketPolicy, hfirst, ← hconfig]
    rfl
  · obtain ⟨e, hfirst, hconfig⟩ := hread scan
    simp only [vrmBucketCors, hfirst, ← hconfig]
    rfl
  · obtain ⟨e, hfirst, hconfig⟩ := hread scan
    simp only [vrmBucketVersioning, hfirst, ← hconfig]
    rfl
  · have hmem := mem_of_mem_take he
    rw [byNameNewest, mem_insertionSort, mem_filter] at hmem
    obtain ⟨hnamed, hlisted⟩ := hmem
    simp only [Bool.and_eq_true, Bool.or_eq_true, decide_eq_true_eq] at hlisted
    have hentry := mem_of_mem_filter hnamed
    exact (h.rows name bucketId row hlive e hentry).mpr (hcleared.objects e hnamed hlisted.1.1)

theorem cleared_of_fresh (h : LedgerInv db l) (hlive : l.records.Live name bucketId row)
    (hfresh : Fresh l name) : Cleared l.records name bucketId row := by
  have hconfig := h.config name bucketId row hlive
  constructor
  case config =>
    intro e he
    have hfirst : (leading e.1).first (l.records.named name) = some e := first_leading he
    have hpolicy := hfresh.policy (leading e.1)
    have hcors := hfresh.cors (leading e.1)
    have hvers := hfresh.versioning (leading e.1)
    simp only [vrmBucketPolicy, vrmBucketCors, vrmBucketVersioning, hfirst,
      Except.ok.injEq, ← hconfig] at hpolicy hcors hvers
    rw [BucketRow.config, hpolicy, hcors, hvers]
  case objects =>
    intro e he hkept
    have hentry := mem_of_mem_filter he
    refine (h.rows name bucketId row hlive e hentry).mp ?_
    refine hfresh.versions sampleScan none none none (l.records.inNamed name).length e ?_
    have hsub : ∀ rows : List (Nat × ObjectRow), rows.length ≤ (l.records.inNamed name).length →
        (byNameNewest rows).take (l.records.inNamed name).length =
          byNameNewest rows := by
      intro rows hrows
      exact take_of_length_le (by rwa [byNameNewest, length_insertionSort])
    rw [vrmListObjectVersions, hsub _ (length_filter_le _ _), byNameNewest,
      mem_insertionSort, mem_filter]
    exact ⟨he, by simpa [versionMarker] using hkept⟩

end Reads

section Steps

variable {db : Database} {fmt : AddressFormat} {l : Ledger} {r' : Records} {op : Op}

/-- The row was there, in the same bucket. -/
def WasIn (r : Records) (e : Nat × ObjectRow) : Prop :=
  ∃ g ∈ r.objects.entries, g.1 = e.1 ∧ g.2.bucketId = e.2.bucketId

variable {r : Records} {e : Nat × ObjectRow} {b : Text} {id : Nat}

theorem wasIn_modify {f : ObjectRow → ObjectRow} (hf : ∀ row, (f row).bucketId = row.bucketId)
    (he : e ∈ (r.objects.modify id f).entries) : WasIn r e := by
  obtain ⟨g, hg, rfl⟩ := List.mem_map.mp he
  refine ⟨g, hg, rfl, ?_⟩
  by_cases hid : g.1 = id <;> simp [hid, hf]

theorem wasIn_markDeleted {sticky : Option Bool}
    (he : e ∈ (r.markDeleted id sticky).objects.entries) : WasIn r e := by
  refine wasIn_modify ?_ he
  exact fun _ => rfl

theorem wasIn_displace {id : Option Nat} (he : e ∈ (r.displace id).objects.entries) :
    WasIn r e := by
  cases id with
  | none => exact ⟨e, he, rfl, rfl⟩
  | some id => exact wasIn_markDeleted he

theorem wasIn_put (h : r.Below) {v : Versioning} {new : ObjectRow}
    (he : e ∈ (r.put v new).objects.entries) : WasIn r e ∨ e = (r.nextObject, new) := by
  have hbelow : ∀ id, (r.displace id).Below := by
    intro id
    cases id with
    | none => exact h
    | some id => exact h.modify id _
  rw [Records.put, Records.insertObject, KeyMap.entries_insert_of_lt (hbelow _),
    Records.displace_nextObject] at he
  rcases mem_append.mp he with he | he
  · exact Or.inl (wasIn_displace he)
  · exact Or.inr (mem_singleton.mp he)

theorem LedgerInv.objects (h : LedgerInv db l) (hcons : r'.Consistent db)
    (hbuckets : ∀ name bucketId row, r'.Live name bucketId row → l.records.Live name bucketId row)
    (hnext : r'.nextObject = l.records.nextObject)
    (hrows : ∀ e ∈ r'.objects.entries, WasIn l.records e) :
    LedgerInv db ⟨r', l.config, l.rows⟩ := by
  refine ⟨hcons, fun name bucketId row hlive => h.config name bucketId row
    (hbuckets name bucketId row hlive), fun name bucketId row hlive e he => ?_, ?_⟩
  · obtain ⟨g, hg, hid, hbucket⟩ := hrows e he
    rw [← hid, ← hbucket]
    exact h.rows name bucketId row (hbuckets name bucketId row hlive) g hg
  · simp only [hnext]
    exact h.rowsBelow

theorem LedgerInv.insert (h : LedgerInv db l) (hcons : r'.Consistent db)
    (hbuckets : r'.buckets = l.records.buckets) {owner : Nat} {row : BucketRow}
    (hlive : l.records.Live b owner row) (hnext : r'.nextObject = l.records.nextObject + 1)
    (hrows : ∀ e ∈ r'.objects.entries, WasIn l.records e ∨ e.1 = l.records.nextObject ∧ e.2.bucketId = owner)
    : LedgerInv db ⟨r', l.config, fun name =>
      if b = name then l.rows name ++ [l.records.nextObject] else l.rows name⟩ := by
  have hback : ∀ name bucketId row, r'.Live name bucketId row →
      l.records.Live name bucketId row := fun _ _ _ hlive' => hlive'.of_buckets hbuckets.symm
  refine ⟨hcons, fun name bucketId row hlive' => h.config name bucketId row
    (hback name bucketId row hlive'), fun name bucketId row' hlive' e he => ?_,
    fun name id hid => ?_⟩
  · have hbef := hback name bucketId row' hlive'
    rcases hrows e he with ⟨g, hg, hid, hbucket⟩ | ⟨hid, hbucket⟩
    · have hne : e.1 ≠ l.records.nextObject := by
        rw [← hid]
        exact ne_of_lt (h.consistent.below g hg)
      have hiff := h.rows name bucketId row' hbef g hg
      rw [hid, hbucket] at hiff
      by_cases hname : b = name <;> simp [hname, hne, hiff]
    · by_cases hname : b = name
      · subst hname
        have hsame := hlive.symm.trans hbef
        simp only [cons.injEq, Prod.mk.injEq, and_true] at hsame
        simp [hid, hbucket, hsame.1]
      · have hnot : e.1 ∉ l.rows name := by
          intro hmem
          exact absurd (h.rowsBelow name e.1 hmem) (by simp [hid])
        have hother : owner ≠ bucketId := by
          rintro rfl
          obtain ⟨hrow, _, hb⟩ := h.consistent.live_iff.mp hlive
          obtain ⟨hrow', _, hn⟩ := h.consistent.live_iff.mp hbef
          rw [hrow, some.injEq] at hrow'
          exact hname (hb.symm.trans ((congrArg BucketRow.name hrow').trans hn))
        simp [hname, hnot, hbucket, hother]
  · simp only [hnext]
    by_cases hname : b = name
    · simp only [hname, if_true] at hid
      rcases mem_append.mp hid with hid | hid
      · exact (h.rowsBelow name id hid).trans (Nat.lt_succ_self _)
      · rw [mem_singleton.mp hid]
        exact Nat.lt_succ_self _
    · simp only [hname, if_false] at hid
      exact (h.rowsBelow name id hid).trans (Nat.lt_succ_self _)

theorem LedgerInv.createBucket (h : LedgerInv db l) (hlive : l.records.live b = []) :
    LedgerInv db ⟨l.records.createBucket b,
      fun name => if b = name then .initial else l.config name,
      fun name => if b = name then [] else l.rows name⟩ := by
  have hcons := h.consistent.createBucket hlive
  have hback : ∀ name bucketId row, (l.records.createBucket b).Live name bucketId row →
      b = name ∧ bucketId = l.records.nextBucket ∧ row.config = .initial ∨
        b ≠ name ∧ l.records.Live name bucketId row := by
    intro name bucketId row hlive'
    obtain ⟨hrow, hdel, hname⟩ := hcons.live_iff.mp hlive'
    rw [Records.createBucket, KeyMap.lookup_insert] at hrow
    split at hrow
    case isTrue hid =>
      rw [some.injEq] at hrow
      subst hrow
      exact Or.inl ⟨hname, hid, rfl⟩
    case isFalse =>
      have hbef := h.consistent.live_iff.mpr ⟨hrow, hdel, hname⟩
      refine Or.inr ⟨?_, hbef⟩
      rintro rfl
      rw [Catalog.Live, hlive] at hbef
      exact absurd hbef (by simp)
  refine ⟨hcons, fun name bucketId row hlive' => ?_, fun name bucketId row hlive' e he => ?_,
    fun name id hid => ?_⟩
  · rcases hback name bucketId row hlive' with ⟨hb, _, hconfig⟩ | ⟨hb, hbef⟩
    · simp only [if_pos hb, hconfig]
    · simp only [if_neg hb, h.config name bucketId row hbef]
  · rcases hback name bucketId row hlive' with ⟨hb, hid, _⟩ | ⟨hb, hbef⟩
    · have hne := ne_of_lt (h.consistent.owner e he)
      simp [hb, hid, hne]
    · simp only [if_neg hb]
      exact h.rows name bucketId row hbef e he
  · by_cases hb : b = name
    · simp [hb] at hid
    · simp only [if_neg hb] at hid
      exact h.rowsBelow name id hid

theorem LedgerInv.updateBuckets (h : LedgerInv db l) {f : BucketRow → BucketRow}
    (hf : ∀ row, (f row).deleted = row.deleted ∧ (f row).name = row.name) {g : Config → Config}
    (hg : ∀ row, (f row).config = g row.config) : LedgerInv db ⟨l.records.updateBuckets b f,
      fun name => if b = name then g (l.config name) else l.config name, l.rows⟩ := by
  have hcons := h.consistent.updateBuckets b hf
  have hback : ∀ name bucketId row, (l.records.updateBuckets b f).Live name bucketId row →
      ∃ row', l.records.Live name bucketId row' ∧ row = if b = name then f row' else row' := by
    intro name bucketId row hlive
    obtain ⟨hrow, hdel, hname⟩ := hcons.live_iff.mp hlive
    rw [Records.updateBuckets, KeyMap.lookup_mapValues, map_eq_some_iff] at hrow
    obtain ⟨row', hrow', rfl⟩ := hrow
    by_cases hb : row'.name = b
    · rw [if_pos hb] at hdel hname ⊢
      rw [(hf row').1] at hdel
      rw [(hf row').2, hb] at hname
      exact ⟨row', h.consistent.live_iff.mpr ⟨hrow', hdel, hb.trans hname⟩, (if_pos hname).symm⟩
    · rw [if_neg hb] at hdel hname ⊢
      have hne : b ≠ name := fun hbn => hb (hname.trans hbn.symm)
      exact ⟨row', h.consistent.live_iff.mpr ⟨hrow', hdel, hname⟩, (if_neg hne).symm⟩
  refine ⟨hcons, fun name bucketId row hlive => ?_, fun name bucketId row hlive => ?_, h.rowsBelow⟩
  · obtain ⟨row', hlive', rfl⟩ := hback name bucketId row hlive
    have hconfig := h.config name bucketId row' hlive'
    by_cases hb : b = name
    · simp only [if_pos hb, hg, hconfig]
    · simp only [if_neg hb, hconfig]
  · obtain ⟨row', hlive', _⟩ := hback name bucketId row hlive
    exact h.rows name bucketId row' hlive'

theorem LedgerInv.dropBucket (h : LedgerInv db l) (id : Nat) :
    LedgerInv db ⟨l.records.dropBucket id, l.config, l.rows⟩ := by
  refine h.objects (h.consistent.dropBucket id) (fun name bucketId row hlive => ?_) rfl
    fun e he => ⟨e, he, rfl, rfl⟩
  obtain ⟨hrow, hdel, hname⟩ := (h.consistent.dropBucket id).live_iff.mp hlive
  rw [Records.dropBucket, KeyMap.lookup_modify, map_eq_some_iff] at hrow
  obtain ⟨row', hrow', rfl⟩ := hrow
  by_cases hid : bucketId = id
  · simp [hid] at hdel
  · rw [if_neg hid] at hdel hname ⊢
    exact h.consistent.live_iff.mpr ⟨hrow', hdel, hname⟩

theorem storedAs_of_ok {convert : Text → Except Exn Text} {given stored : Option Text}
    (h : given.mapM convert = .ok stored) : storedAs convert given = stored := by
  rw [storedAs, h]

theorem LedgerInv.putBucket (h : LedgerInv db l) (b : Text) :
    LedgerInv db (l.record db (.putBucket b) (run (Dir.putBucket b) l.records)) := by
  rw [run_putBucket]
  cases validateBucketName b with
  | error e => simpa [Ledger.record, Except.isOk, Except.toBool, rowsAfter] using h
  | ok u =>
    by_cases hlive : (l.records.live b).isEmpty
    · simpa [Ledger.record, hlive, Except.isOk, Except.toBool, rowsAfter, Config.after] using
        h.createBucket (List.isEmpty_iff.mp hlive)
    · simpa [Ledger.record, hlive, Except.isOk, Except.toBool, rowsAfter] using h

theorem LedgerInv.configure (h : LedgerInv db l) {stored : Except Exn (Option Text)}
    {f : Option Text → BucketRow → BucketRow} {g : Option Text → Config → Config}
    (hf : ∀ value row, (f value row).deleted = row.deleted ∧ (f value row).name = row.name)
    (hg : ∀ value row, (f value row).config = g value row.config) {value : Option Text}
    (hvalue : ∀ v, stored = .ok v → value = v)
    (hafter : ∀ name c, Config.after db name c op = if b = name then g value c else c)
    (hrows : ∀ name rows r r' returned, rowsAfter name rows r r' returned op = rows) :
    LedgerInv db (l.record db op (configured l.records b stored f)) := by
  simp only [Ledger.record, hafter, hrows]
  unfold configured
  by_cases hlive : (l.records.live b).isEmpty
  · simpa only [if_pos hlive, Except.isOk, Except.toBool, Bool.false_eq_true, if_false] using h
  · simp only [if_neg hlive]
    cases stored with
    | error e => simpa only [Except.isOk, Except.toBool, Bool.false_eq_true, if_false] using h
    | ok v =>
      rw [hvalue v rfl]
      exact h.updateBuckets (hf v) (hg v)

theorem LedgerInv.setBucketVersioning (h : LedgerInv db l) (b : Text) (v : Versioning) :
    LedgerInv db (l.record db (.setBucketVersioning b v)
      (run (Dir.setBucketVersioning b v) l.records)) := by
  rw [run_setBucketVersioning]
  by_cases hlive : (l.records.live b).isEmpty
  · simpa [Ledger.record, hlive, Except.isOk, Except.toBool, rowsAfter] using h
  · rw [if_neg hlive]
    exact h.updateBuckets (b := b) (f := fun row => { row with versioning := v })
      (g := fun c => { c with versioning := v }) (fun _ => ⟨rfl, rfl⟩) fun _ => rfl

theorem nextObject_put (r : Records) (v : Versioning) (new : ObjectRow) :
    (r.put v new).nextObject = r.nextObject + 1 := by
  simp [Records.put, Records.insertObject]

theorem LedgerInv.move (h : LedgerInv db l) (hmove : Move db fmt l.records op r')
    (hop : (∃ obj, op = .putObject b obj) ∨ ∃ object version, op = .deleteObject b object version) :
    LedgerInv db ⟨r', l.config, fun name => if b = name then
      l.rows name ++ List.range' l.records.nextObject (r'.nextObject - l.records.nextObject)
      else l.rows name⟩ := by
  have hcons := hmove.consistent h.consistent
  have hbelow := h.consistent.below
  cases hmove with
  | stay => simpa using h
  | @put bucket bucketId row obj addr now hlive haddr =>
    obtain rfl : bucket = b := by simpa using hop
    rw [nextObject_put, Nat.add_sub_cancel_left]
    refine h.insert hcons (Records.put_buckets _ _ _) hlive (nextObject_put _ _ _)
      fun e he => (wasIn_put hbelow he).imp_right ?_
    rintro rfl
    exact ⟨rfl, rfl⟩
  | @marker bucket object bucketId row now hlive hv =>
    obtain rfl : bucket = b := by simpa using hop
    have hnext : (l.records.mark row.versioning
        (markerRow db now l.records bucketId row.versioning object)).nextObject =
        l.records.nextObject + 1 := nextObject_put _ _ _
    rw [hnext, Nat.add_sub_cancel_left]
    refine h.insert hcons (Records.put_buckets _ _ _) hlive hnext fun e he => ?_
    obtain ⟨g, hg, hid, hbucket⟩ := wasIn_markDeleted he
    rcases wasIn_put hbelow hg with ⟨g', hg', hid', hbucket'⟩ | rfl
    · exact Or.inl ⟨g', hg', hid'.trans hid, hbucket'.trans hbucket⟩
    · exact Or.inr ⟨hid.symm, hbucket.symm⟩
  | mark hlive he hmarks =>
    have hinv := h.objects hcons (fun _ _ _ hlive' => hlive') rfl
      fun e he => wasIn_markDeleted he
    simpa [Records.markDeleted] using hinv
  | create _ => simp at hop
  | drop _ => simp at hop
  | configure _ hconf => cases hconf <;> simp at hop
  | clear => simp at hop
  | stuck _ => simp at hop
  | erase _ => simp at hop

theorem LedgerInv.collect (h : LedgerInv db l) (hmove : Move db fmt l.records .collect r') :
    LedgerInv db ⟨r', l.config, l.rows⟩ := by
  have hcons := hmove.consistent h.consistent
  have hkeep : ∀ e ∈ l.records.objects.entries, WasIn l.records e := fun e he => ⟨e, he, rfl, rfl⟩
  cases hmove with
  | stay => exact h
  | configure _ hconf => cases hconf
  | clear =>
    refine h.objects hcons (fun name bucketId row hlive => ?_) rfl hkeep
    exact (live_clearDeletedBuckets l.records name).symm.trans hlive
  | stuck _ =>
    refine h.objects hcons (fun _ _ _ hlive => hlive) rfl fun e he => ?_
    refine wasIn_modify ?_ he
    exact fun _ => rfl
  | erase _ =>
    refine h.objects hcons (fun _ _ _ hlive => hlive) rfl fun e he => ?_
    exact hkeep e (mem_of_mem_filter he)

theorem LedgerInv.deleteBucket (h : LedgerInv db l)
    (hmove : Move db fmt l.records (.deleteBucket b) r') : LedgerInv db ⟨r', l.config, l.rows⟩ := by
  cases hmove with
  | stay => exact h
  | configure _ hconf => cases hconf
  | drop _ => exact h.dropBucket _

theorem LedgerInv.next (h : LedgerInv db l) (call : Call) : LedgerInv db (l.next db fmt call) := by
  obtain ⟨scan, now, op⟩ := call
  have hmove : Move db fmt l.records op (run ((Call.mk scan now op).perform db fmt) l.records).2 :=
    h.consistent.move ⟨scan, now, op⟩
  simp only [Ledger.next]
  cases op with
  | putBucket b => exact h.putBucket b
  | setBucketPolicy b policy =>
    simp only [Call.perform, run_setBucketPolicy]
    exact h.configure (g := fun v c => { c with policy := v }) (fun _ _ => ⟨rfl, rfl⟩)
      (fun _ _ => rfl) (fun _ => storedAs_of_ok) (fun _ _ => rfl) fun _ _ _ _ _ => rfl
  | setBucketCors b cors =>
    simp only [Call.perform, run_setBucketCors]
    exact h.configure (g := fun v c => { c with cors := v }) (fun _ _ => ⟨rfl, rfl⟩)
      (fun _ _ => rfl) (fun _ => storedAs_of_ok) (fun _ _ => rfl) fun _ _ _ _ _ => rfl
  | setBucketVersioning b v => exact h.setBucketVersioning b v
  | deleteBucket b =>
    simpa only [Ledger.record, Config.after, rowsAfter, ite_self] using h.deleteBucket hmove
  | putObject b obj =>
    simpa only [Ledger.record, Config.after, rowsAfter, ite_self] using
      h.move (b := b) hmove (Or.inl ⟨obj, rfl⟩)
  | deleteObject b object version =>
    simpa only [Ledger.record, Config.after, rowsAfter, ite_self] using
      h.move (b := b) hmove (Or.inr ⟨object, version, rfl⟩)
  | collect =>
    simpa only [Ledger.record, Config.after, rowsAfter, ite_self] using h.collect hmove

theorem ledgerInv_empty (db : Database) : LedgerInv db Ledger.empty := by
  refine ⟨consistent_empty db, fun name bucketId row hlive => ?_,
    fun _ _ _ _ e he => absurd he not_mem_nil, fun _ _ hid => absurd hid not_mem_nil⟩
  exact absurd hlive.mem not_mem_nil

theorem LedgerInv.nextAll (h : LedgerInv db l) (calls : List Call) :
    LedgerInv db (l.nextAll db fmt calls) := by
  induction calls generalizing l with
  | nil => exact h
  | cons call calls ih => exact ih (h.next call)

/-- After any calls a bucket has nothing from earlier ones of its name exactly where
the rows that they left say nothing else. -/
theorem fresh_iff_cleared {calls : List Call} (hl : l = Ledger.empty.nextAll db fmt calls)
    {name : Text} {bucketId : Nat} {row : BucketRow} (hlive : l.records.Live name bucketId row) :
    Fresh l name ↔ Cleared l.records name bucketId row := by
  have h : LedgerInv db l := hl ▸ (ledgerInv_empty db).nextAll calls
  exact ⟨cleared_of_fresh h hlive, fresh_of_cleared h hlive⟩

end Steps

section Sample

def samplePolicy : Call := ⟨sampleScan, 0, .setBucketPolicy sampleBucket (some ['p'])⟩

def sampleDrop : Call := ⟨sampleScan, 0, .deleteBucket sampleBucket⟩

/-- A bucket with a policy is deleted and created again. -/
def sampleAgain : Ledger := Ledger.empty.nextAll sampleDatabase sampleFormat
  [sampleCreate, samplePolicy, sampleDrop, sampleCreate]

/-- The garbage collector has cleared the deleted bucket before. -/
def sampleCleared : Ledger := Ledger.empty.nextAll sampleDatabase sampleFormat
  [sampleCreate, samplePolicy, sampleDrop, sampleCollect, sampleCreate]

theorem fresh_iff_cleared_sample : Fresh sampleCleared sampleBucket := by
  have hlive : sampleCleared.records.Live sampleBucket 1
      ⟨sampleBucket, false, none, none, .disabled⟩ := rfl
  have hnamed : sampleCleared.records.named sampleBucket =
      [(1, ⟨sampleBucket, false, none, none, .disabled⟩)] := rfl
  have hcleared : Cleared sampleCleared.records sampleBucket 1
      ⟨sampleBucket, false, none, none, .disabled⟩ := by
    refine ⟨fun e he => ?_, fun e he => absurd (mem_of_mem_filter he) not_mem_nil⟩
    rw [hnamed, mem_singleton] at he
    rw [he]
  exact (fresh_iff_cleared rfl hlive).mpr hcleared

/-- The policy of the deleted bucket is read for the new one. -/
theorem policy_of_deleted_bucket :
    (∃ row, sampleAgain.records.Live sampleBucket 1 row) ∧ ¬ Fresh sampleAgain sampleBucket := by
  refine ⟨⟨_, rfl⟩, fun h => ?_⟩
  have hread : sampleAgain.records.vrmBucketPolicy sampleScan sampleBucket = .ok (some ['p']) := rfl
  have hset : (sampleAgain.config sampleBucket).policy = none := rfl
  have hpolicy := h.policy sampleScan
  rw [hread, hset] at hpolicy
  exact absurd hpolicy (by simp)

end Sample

end UhCore.Entrypoint
