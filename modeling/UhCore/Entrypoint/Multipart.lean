import UhCore.Entrypoint.MultipartState
import UhCore.Lib.Transition

/-!
The requests on one multipart upload, taken apart at the database calls.
UploadPart, CompleteMultipartUpload and AbortMultipartUpload hold the advisory
lock of the upload while they read and change its rows, and pass addresses to
`gdv.unlink` after they have released it. The row outlives completion and
abortion until `vrm_clean_deleted` removes it, which any request on any upload
may do at any time.

Every address that `deduplicate` returns holds one set of references, named by
a number of its own. `unlinked` is the sequence of the references passed to
`gdv.unlink`, `objects` are the addresses put into the directory.
-/

namespace UhCore.Entrypoint.Multipart

open Transition

inductive Handler where
  | idle
  /-- UploadPart has stored the data of its part. -/
  | partStored (part : Nat) (value : Part Nat)
  | partDetails (part : Nat) (value : Part Nat) (query : PartDetails Nat)
  | partPut (part : Nat) (value : Part Nat) (existing : Option (Part Nat))
  | completeRequest (body : Option (List PartNode))
  | complete (body : Option (List PartNode)) (query : Details Nat)
  /-- CompleteMultipartUpload has put the object into the directory. -/
  | completePut
  | abortRequest
  | abort (query : Details Nat)
  /-- In `remove_upload`, after `vrm_complete_upload`. -/
  | marked (frees : List (List Nat))
  /-- In `remove_upload`, after `vrm_delete_upload`. -/
  | erased (frees : List (List Nat))
  | unlocking (frees : List (List Nat))
  /-- The lock is released; these addresses are left to be unlinked. -/
  | freeing (frees : List (List Nat))

structure World where
  upload : Option (Upload Nat)
  lock : Option Nat
  handlers : Nat → Handler
  nextReference : Nat
  objects : List (List Nat)
  unlinked : List Nat

inductive Action where
  | uploadPart (pid : Nat) (part : Nat) (etag : String) (size : Nat)
  | completeMultipartUpload (pid : Nat) (body : Option (List PartNode))
  | abortMultipartUpload (pid : Nat)
  /-- A handler goes on; `accepted` is whether the directory takes the object
  that CompleteMultipartUpload puts. -/
  | step (pid : Nat) (accepted : Bool)
  | cleanDeleted

def start : World := ⟨some vrmCreateUpload, none, fun _ => .idle, 0, [], []⟩

def World.goto (w : World) (pid : Nat) (handler : Handler) : World :=
  { w with handlers := Function.update w.handlers pid handler }

/-- `lock_upload`: the handler waits while the lock is held. -/
def World.lockUpload (w : World) (pid : Nat) (handler : Handler) : Option World :=
  match w.lock with
  | some _ => none
  | none =>
    let locked : World := { w with lock := some pid }
    some (locked.goto pid handler)

/-- `append_upload_part_info`. Where it throws, the lock is released and the
part that was read is not unlinked. -/
def World.appendUploadPartInfo (w : World) (pid part : Nat) (value : Part Nat)
    (existing : Option (Part Nat)) : World :=
  match vrmPutMultipart w.upload part value with
  | none => w.goto pid (.unlocking [])
  | some row =>
    let stored : World := { w with upload := some row }
    stored.goto pid (.unlocking (existing.toList.map Part.addr))

/-- CompleteMultipartUpload once it has the details. -/
def World.completeUpload (w : World) (pid : Nat) (body : Option (List PartNode))
    (info : UploadInfo Nat) (accepted : Bool) : World :=
  match validateInternal info body with
  | .error _ => w.goto pid (.unlocking [])
  | .ok _ =>
    if !info.completed && accepted then
      let put : World := { w with objects := w.objects ++ [info.generateTotalAddress] }
      put.goto pid .completePut
    else w.goto pid (.unlocking [])

/-- The first statement of `remove_upload`, with the addresses the handler
unlinks later. -/
def World.markComplete (w : World) (pid : Nat) (frees : List (List Nat)) : World :=
  let marked : World := { w with upload := vrmCompleteUpload w.upload }
  marked.goto pid (.marked frees)

/-- The next statement of a handler. -/
def World.advance (w : World) (pid : Nat) (accepted : Bool) : Option World :=
  match w.handlers pid with
  | .idle => none
  | .partStored part value => w.lockUpload pid (.partDetails part value .size)
  | .partDetails part value query =>
    match query.next w.upload part with
    | .inl query' => some (w.goto pid (.partDetails part value query'))
    | .inr existing => some (w.goto pid (.partPut part value existing))
  | .partPut part value existing => some (w.appendUploadPartInfo pid part value existing)
  | .completeRequest body => w.lockUpload pid (.complete body .upload)
  | .complete body (.done info) => some (w.completeUpload pid body info accepted)
  | .complete body query =>
    match query.next w.upload with
    | .ok query' => some (w.goto pid (.complete body query'))
    | .error _ => some (w.goto pid (.unlocking []))
  | .completePut => some (w.markComplete pid [])
  | .abortRequest => w.lockUpload pid (.abort .upload)
  | .abort (.done info) =>
    some (w.markComplete pid (info.parts.entries.map fun entry => entry.2.addr))
  | .abort query =>
    match query.next w.upload with
    | .ok query' => some (w.goto pid (.abort query'))
    | .error _ => some (w.goto pid (.unlocking []))
  | .marked frees =>
    let deleted : World := { w with upload := vrmDeleteUpload w.upload }
    some (deleted.goto pid (.erased frees))
  | .erased frees => some (w.goto pid (.unlocking frees))
  | .unlocking frees =>
    let released : World := { w with lock := none }
    some (released.goto pid (.freeing frees))
  | .freeing [] => some (w.goto pid .idle)
  | .freeing (addr :: rest) =>
    let freed : World := { w with unlinked := w.unlinked ++ addr }
    some (freed.goto pid (.freeing rest))

/-- `multipart::handle` up to the lock: the data of the part is deduplicated
first. -/
def World.storePart (w : World) (pid part : Nat) (etag : String) (size : Nat) : World :=
  let stored : World := { w with nextReference := w.nextReference + 1 }
  stored.goto pid (.partStored part ⟨etag, size, [w.nextReference]⟩)

def next (w : World) : Action → Option World
  | .uploadPart pid part etag size =>
    match w.handlers pid, validatePartNumber part with
    | .idle, .ok _ => some (w.storePart pid part etag size)
    | _, _ => none
  | .completeMultipartUpload pid body =>
    match w.handlers pid with
    | .idle => some (w.goto pid (.completeRequest body))
    | _ => none
  | .abortMultipartUpload pid =>
    match w.handlers pid with
    | .idle => some (w.goto pid .abortRequest)
    | _ => none
  | .step pid accepted => w.advance pid accepted
  | .cleanDeleted => some { w with upload := vrmCleanDeleted w.upload }

/-- References are released at most once and not under an object. -/
def ReleasedOnce (w : World) : Prop :=
  (∀ r, w.unlinked.count r ≤ 1) ∧ ∀ object ∈ w.objects, ∀ r ∈ object, r ∉ w.unlinked

/-- A handler about to free parts does so only for an upload that is not
complete: AbortMultipartUpload goes on to `remove_upload` with the parts of an
incomplete upload or with none, and UploadPart replaces no part of a complete
one. -/
def FreesOpenUpload (w : World) : Action → Prop
  | .step pid _ =>
    match w.handlers pid with
    | .abort (.done info) => info.completed = true → info.parts.entries.length = 0
    | .partPut _ _ existing =>
      ∀ row ∈ w.upload, row.complete = true → existing.isSome = false
    | _ => True
  | _ => True

instance (w : World) (action : Action) : Decidable (FreesOpenUpload w action) := by
  cases action
  case step pid accepted =>
    unfold FreesOpenUpload
    dsimp only
    split <;> infer_instance
  all_goals exact inferInstanceAs (Decidable True)

end UhCore.Entrypoint.Multipart
