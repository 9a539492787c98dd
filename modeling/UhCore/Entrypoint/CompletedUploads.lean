import UhCore.Entrypoint.MultipartEtag

/-!
The object of a CompleteMultipartUpload request. The list of the request is
checked against the parts of the upload, the object is made of all parts and
stored under the bucket and the key of the request.
-/

namespace UhCore.Entrypoint.Multipart

open Http Words List

/-- What `details` reads of an upload, with the bucket and the key it was created
for. `remove_upload` marks an aborted upload as complete. -/
structure Uploaded extends UploadInfo Fragment where
  bucket : Text
  key : Text
  mime : Option Text
  aborted : Bool
  marked : aborted = true → completed = true

/-- What `put_object` is called with. -/
structure Stored where
  bucket : Text
  name : Text
  size : Nat
  addr : Address
  etag : Text
  mime : Text
  deriving DecidableEq

variable (md5 : Text → Text) (up : Uploaded) (bucket key : Text) (body : Option (List PartNode))

/-- The object that `complete_multipart::handle` makes. -/
def assembled (etag : Text) : Stored :=
  let addr : Address := up.generateTotalAddress
  ⟨bucket, key, wrap 64 addr.dataSize, addr, etag, up.mime.getD "binary/octet-stream".toList⟩

/-- `complete_multipart::handle` behind `details`: the object, if one is stored. -/
def completeMultipart : Except Failure (Option Stored) := do
  (validateInternal up.toUploadInfo body).mapError .command
  let etag ← (multipartEtag md5 up.toUploadInfo).mapError .exception
  return if up.completed then none else some (assembled up bucket key etag)

theorem completeMultipart_eq_ok_iff (result : Option Stored) :
    completeMultipart md5 up bucket key body = .ok result ↔
      validateInternal up.toUploadInfo body = .ok () ∧
        ∃ etag, multipartEtag md5 up.toUploadInfo = .ok etag ∧
          (if up.completed then none else some (assembled up bucket key etag)) = result := by
  unfold completeMultipart
  cases validateInternal up.toUploadInfo body with
  | error e => simp [Except.mapError, bind, Except.bind]
  | ok =>
    cases multipartEtag md5 up.toUploadInfo with
    | error e => simp [Except.mapError, bind, Except.bind]
    | ok etag => simp [Except.mapError, bind, Except.bind, pure, Except.pure]

/-- The list matches the parts, and their ETags are hexadecimal. -/
def Valid : Prop :=
  validateInternal up.toUploadInfo body = .ok () ∧
    ∃ etag, multipartEtag md5 up.toUploadInfo = .ok etag

def Lists (e : Nat × Part Fragment) : Prop :=
  some e.1 ∈ (body.getD []).map PartNode.partNumber

instance (e : Nat × Part Fragment) : Decidable (Lists body e) := by
  unfold Lists
  infer_instance

/-- The request is for the bucket and the key of the upload and lists all parts
that have data. -/
structure ListsAll : Prop where
  bucket : bucket = up.bucket
  key : key = up.key
  parts : ∀ e ∈ up.parts.entries, ¬ Lists body e → Address.dataSize e.2.addr = 0
  size : Address.dataSize up.generateTotalAddress < 2 ^ 64

/-- The parts that the request lists, in the order of their numbers. -/
def listedParts : List (Nat × Part Fragment) := up.parts.entries.filter fun e => Lists body e

variable {α : Type} (mem : Nat → α)

def bytesOf (addr : Address) : List α := (addr.flatMap cells).map mem

structure IsListed (object : Stored) : Prop where
  bucket : object.bucket = up.bucket
  name : object.name = up.key
  content : bytesOf mem object.addr = (listedParts up body).flatMap fun e => bytesOf mem e.2.addr
  size : object.size = ((listedParts up body).map fun e => Address.dataSize e.2.addr).sum

theorem flatMap_filter_eq_iff {β γ : Type} {p : β → Bool} {f : β → List γ} {l : List β} :
    l.flatMap f = (l.filter p).flatMap f ↔ ∀ x ∈ l, p x = false → f x = [] := by
  induction l with
  | nil => simp
  | cons x rest ih =>
    rw [forall_mem_cons, ← ih, flatMap_cons, filter_cons]
    cases hx : p x with
    | true => simp
    | false =>
      simp only [Bool.false_eq_true, if_false, true_implies]
      constructor
      · intro heq
        have hle := ((filter_sublist (p := p) (l := rest)).flatMap f).length_le
        have hlen := congrArg length heq
        rw [length_append] at hlen
        have hnil : f x = [] := length_eq_zero_iff.mp (by omega)
        rw [hnil, nil_append] at heq
        exact ⟨hnil, heq⟩
      · rintro ⟨hnil, heq⟩
        rw [hnil, nil_append, heq]

theorem length_bytesOf (addr : Address) : (bytesOf mem addr).length = addr.dataSize := by
  rw [bytesOf, length_map, length_cells]

theorem bytesOf_total : bytesOf mem up.generateTotalAddress =
    up.parts.entries.flatMap fun e => bytesOf mem e.2.addr := by
  simp only [bytesOf, UploadInfo.generateTotalAddress, flatMap_assoc, map_flatMap]

theorem isListed_assembled_iff (etag : Text) :
    IsListed up body mem (assembled up bucket key etag) ↔ ListsAll up bucket key body := by
  have hcontent : bytesOf mem up.generateTotalAddress =
      ((listedParts up body).flatMap fun e => bytesOf mem e.2.addr) ↔
        ∀ e ∈ up.parts.entries, ¬ Lists body e → Address.dataSize e.2.addr = 0 := by
    rw [bytesOf_total, listedParts, flatMap_filter_eq_iff]
    simp only [decide_eq_false_iff_not, ← length_eq_zero_iff, length_bytesOf]
  have hsum : ((listedParts up body).map fun e => Address.dataSize e.2.addr).sum =
      ((listedParts up body).flatMap fun e => bytesOf mem e.2.addr).length := by
    simp only [length_flatMap, length_bytesOf]
  constructor
  · rintro ⟨hbucket, hkey, hbytes, hsize⟩
    refine ⟨hbucket, hkey, hcontent.mp hbytes, ?_⟩
    rw [hsum, ← hbytes, length_bytesOf] at hsize
    exact hsize ▸ wrap_lt 64 _
  · rintro ⟨hbucket, hkey, hrest, hsmall⟩
    have hbytes := hcontent.mpr hrest
    refine ⟨hbucket, hkey, hbytes, ?_⟩
    rw [hsum, ← hbytes, length_bytesOf]
    exact wrap_of_lt hsmall

/-- A completion stores what was listed, and none is reported for an aborted
upload, exactly when a valid list is for an upload that was not aborted and, if
that is open, lists all of it. -/
theorem completed_as_listed_iff :
    ((∀ object, completeMultipart md5 up bucket key body = .ok (some object) →
        IsListed up body mem object) ∧
      ∀ result, completeMultipart md5 up bucket key body = .ok result → up.aborted = false) ↔
      (Valid md5 up body → up.aborted = false ∧
        (up.completed = false → ListsAll up bucket key body)) := by
  simp only [completeMultipart_eq_ok_iff]
  constructor
  · rintro ⟨hlisted, hreported⟩ ⟨hvalid, etag, hetag⟩
    refine ⟨hreported _ ⟨hvalid, etag, hetag, rfl⟩, fun hopen => ?_⟩
    have hobject := hlisted (assembled up bucket key etag) ⟨hvalid, etag, hetag, by simp [hopen]⟩
    exact (isListed_assembled_iff up bucket key body mem etag).mp hobject
  · intro hcond
    refine ⟨?_, fun _ ⟨hvalid, etag, hetag, _⟩ => (hcond ⟨hvalid, etag, hetag⟩).1⟩
    rintro object ⟨hvalid, etag, hetag, heq⟩
    split at heq
    · cases heq
    · next hopen =>
      cases heq
      apply (isListed_assembled_iff up bucket key body mem etag).mpr
      exact (hcond ⟨hvalid, etag, hetag⟩).2 (Bool.eq_false_iff.mpr hopen)

/-- Two parts of five mebibytes. -/
def samplePair (aborted : Bool) : Uploaded where
  erased := aborted
  completed := aborted
  parts := ⟨[(1, ⟨"", maximumChunkSize, [⟨0, maximumChunkSize⟩]⟩),
    (2, ⟨"", maximumChunkSize, [⟨maximumChunkSize, maximumChunkSize⟩]⟩)], by simp⟩
  bucket := ['b']
  key := ['k']
  mime := none
  aborted := aborted
  marked := id

/-- A list of the first part stores both parts, under any bucket and key. An
upload that was aborted is reported as completed. -/
theorem completed_with_unlisted_part :
    ((completeMultipart id (samplePair false) ['c'] ['l'] (some [⟨some 1, some ""⟩])).toOption.join.map
      fun object => (object.bucket, object.name, object.size)) =
        some (['c'], ['l'], 2 * maximumChunkSize) ∧
      (completeMultipart id (samplePair true) ['b'] ['k'] (some [⟨some 1, some ""⟩])) = .ok none := by
  decide +kernel

end UhCore.Entrypoint.Multipart
