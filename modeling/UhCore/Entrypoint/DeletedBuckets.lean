import UhCore.Entrypoint.KeptVersions

/-!
What a deleted bucket leaves. A bucket is empty for `delete_bucket` when no key
has a normal row as its newest one; versions, delete markers and null versions
behind newer rows are not seen and stay.
-/

namespace UhCore.Entrypoint

open Directory (Versioning ObjectStatus)
open Effects List

/-- The garbage collector takes the row, or has taken it. -/
def ObjectRow.Reclaimed (row : ObjectRow) : Prop := row.status ≠ .normal ∧ row.sticky = false

/-- The rows of the bucket are no versions, and a normal one is the newest of its
key. -/
def Records.Unversioned (r : Records) (bucketId : Nat) : Prop :=
  ∀ e ∈ r.objects.entries, e.2.bucketId = bucketId →
    e.2.sticky = false ∧ (e.2.status = .normal → r.newest e = true)

section Histories

variable {db : Database} {fmt : AddressFormat} {bucket : Text} {bucketId : Nat} {r : Records}

theorem listed_nil_iff {e : Nat × ObjectRow} :
    (r.listed bucketId [] e && Catalog.aboveBound [] e) = true ↔
      r.newest e = true ∧ e.2.bucketId = bucketId ∧ e.2.status = .normal := by
  simp [Catalog.listed, Catalog.aboveBound, like_percent, and_assoc]

theorem not_listed_of_deleteBucket {row : BucketRow} (hlive : r.Live bucket bucketId row)
    (hdelete : (run (Dir.deleteBucket bucket) r).1 = .ok ⟨⟩) :
    ∀ e ∈ r.objects.entries, r.newest e = true → e.2.bucketId = bucketId → e.2.status ≠ .normal := by
  intro e he hnewest hbucket hnorm
  have hlisted : e ∈ r.objects.entries.filter fun e =>
      r.listed bucketId [] e && Catalog.aboveBound [] e :=
    mem_filter.mpr ⟨he, listed_nil_iff.mpr ⟨hnewest, hbucket, hnorm⟩⟩
  rw [run_deleteBucket hlive, if_pos] at hdelete
  · cases hdelete
  · rw [Catalog.byName, length_insertionSort]
    exact length_pos_of_mem hlisted

/-- A bucket that was deleted leaves rows for the garbage collector only, exactly
when it had none that are versions or are hidden behind a newer row. -/
theorem deleted_bucket_reclaimed_iff {calls : List Call}
    (hr : r = performAll db fmt calls Records.empty)
    (hbucket : r.vrmGetBucketId bucket = some bucketId)
    (hdelete : (run (Dir.deleteBucket bucket) r).1 = .ok ⟨⟩) :
    (∀ e ∈ (run (Dir.deleteBucket bucket) r).2.objects.entries, e.2.bucketId = bucketId →
      e.2.Reclaimed) ↔ r.Unversioned bucketId := by
  have hconsistent : r.Consistent db := hr ▸ (consistent_empty db).performAll calls
  obtain ⟨row, hlive⟩ := hconsistent.live_of_vrmGetBucketId hbucket
  have hobjects : (run (Dir.deleteBucket bucket) r).2.objects = r.objects := by
    rw [run_deleteBucket hlive]
    split <;> rfl
  rw [hobjects]
  constructor
  · intro h e he howner
    exact ⟨(h e he howner).2, fun hnormal => absurd hnormal (h e he howner).1⟩
  · intro h e he howner
    obtain ⟨hsticky, hnewest⟩ := h e he howner
    refine ⟨fun hnormal => ?_, hsticky⟩
    exact not_listed_of_deleteBucket hlive hdelete e he (hnewest hnormal) howner hnormal

end Histories

section Sample

def sampleEmptied : Records :=
  performAll sampleDatabase sampleFormat [sampleCreate, samplePut, sampleDelete] Records.empty

theorem deleted_bucket_reclaimed_iff_sample :
    sampleEmptied.Unversioned 0 ∧
      ∀ e ∈ (run (Dir.deleteBucket sampleBucket) sampleEmptied).2.objects.entries,
        e.2.bucketId = 0 → e.2.Reclaimed := by
  have hplain : sampleEmptied.Unversioned 0 := by
    unfold Records.Unversioned
    decide +kernel
  exact ⟨hplain, (deleted_bucket_reclaimed_iff (r := sampleEmptied) rfl rfl rfl).mpr hplain⟩

def sampleMarked : Records :=
  performAll sampleDatabase sampleFormat [sampleCreate, sampleSet .enabled, samplePut, sampleDelete]
    Records.empty

/-- A version and its delete marker outlive their bucket. -/
theorem deleted_bucket_keeps_versions :
    (run (Dir.deleteBucket sampleBucket) sampleMarked).1.isOk = true ∧
      ((run (Dir.deleteBucket sampleBucket) sampleMarked).2.objects.entries.map fun e =>
        (e.2.bucketId, e.2.status, e.2.sticky)) = [(0, .normal, true), (0, .deleted, true)] := by
  decide +kernel

end Sample

end UhCore.Entrypoint
