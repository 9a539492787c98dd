import UhCore.Dedupe.StorageCalls
import UhCore.Entrypoint.MultipartState

/-!
The requests that store an object or a part of one: PutObject, UploadPart and
CopyObject. A body is deduplicated piece by piece as it is read, and each piece
takes its references at once. The storage is exact: a link or write that
succeeds takes the references of the fragments it accepts or writes, one that
fails takes none, and an unlink gives the references of its address back.
-/

namespace UhCore.Entrypoint.Uploads

open Effects Dedupe

/-- The references that a fragment holds on the stripes of the storages. -/
structure StripeRefs (ι : Type) where
  refs : Fragment → ι → Nat
  pos : ∀ f, 0 < f.size → ∃ t, 0 < refs f t

/-- The reference count of every stripe. -/
abbrev Counts (ι : Type) := ι → Nat

section Model

variable {ι : Type} (R : StripeRefs ι)

def StripeRefs.of (addr : Address) (t : ι) : Nat := (addr.map fun f => R.refs f t).sum

def take {ε : Type} (addr : Address) : Effect (Counts ι) ε PUnit :=
  modify fun counts t => counts t + R.of addr t

def unlink {ε : Type} (addr : Address) : Effect (Counts ι) ε PUnit :=
  modify fun counts t => counts t - R.of addr t

/-- A piece of a body and what its deduplication meets. -/
structure Piece extends SearchEnv where
  data : List UInt8
  linkError : Option Exn
  reject : Fragment → Bool
  writeError : Option Exn
  place : Nat → Nat

/-- The storage as the deduplication of a piece sees it. -/
def Piece.view (p : Piece) : DataView (Counts ι) where
  write buffer offsets := do
    raise p.writeError
    let addr := computeAddress p.place buffer.length offsets
    take R addr
    pure addr
  link addr := do
    raise p.linkError
    take R (addr.filter fun f => !p.reject f)
    pure (addr.filter p.reject)

def append (rv r : DedupeResponse) : DedupeResponse :=
  ⟨rv.effectiveSize + r.effectiveSize, rv.addr ++ r.addr⟩

/-- `deduplicate` of a body, given by what its reads return; behind the last one
the body is at its end. -/
def deduplicate (conf : DeduplicatorConfig) :
    List (Except Exn Piece) → DedupeResponse → Effect (Counts ι) Exn DedupeResponse
  | [], rv => pure rv
  | .error e :: _, _ => throw e
  | .ok p :: rest, rv =>
    if p.data.isEmpty then pure rv
    else do
      let r ← (p.view R).deduplicate p.toSearchEnv conf p.data
      deduplicate conf rest (append rv r)

def safePutObject (putError : Option Failure) (addr : Address) : Effect (Counts ι) Failure Unit :=
  onError (raise putError) (unlink R addr)

/-- PutObject; `bucketError` is the exception of its validation. -/
def putObject (conf : DeduplicatorConfig) (bucketError : Option Failure)
    (reads : List (Except Exn Piece)) (putError : Option Failure) :
    Effect (Counts ι) Failure Unit := do
  raise bucketError
  let resp ← rethrow .exception (deduplicate R conf reads ⟨0, []⟩)
  safePutObject R putError resp.addr

/-- The part that an UploadPart request replaces: a `command_exception` of
`part_details` is ignored. -/
def existingPart : Except Failure Address → Except Failure (Option Address)
  | .ok addr => .ok (some addr)
  | .error (.command _) => .ok none
  | .error e => .error e

def freeExisting : Option Address → Effect (Counts ι) Failure PUnit
  | some addr => unlink R addr
  | none => pure ⟨⟩

def uploadPart (conf : DeduplicatorConfig) (partNumber : Nat) (reads : List (Except Exn Piece))
    (lockError : Option Failure) (details : Except Failure Address)
    (appendError : Option Failure) : Effect (Counts ι) Failure PUnit := do
  computed ((Multipart.validatePartNumber partNumber).mapError .command)
  let _ ← rethrow .exception (deduplicate R conf reads ⟨0, []⟩)
  raise lockError
  let existing ← computed (existingPart details)
  raise appendError
  freeExisting R existing

structure SourceObject where
  etag : String
  addr : Address
  nonempty : ∀ f ∈ addr, 0 < f.size

def preconditionFailed : CommandError :=
  ⟨.preconditionFailed, "PreconditionFailed",
    "At least one of the preconditions that you specified did not hold."⟩

def corruptedData : CommandError := ⟨.internalServerError, "InternalError", "Found corrupted data."⟩

def checkIfMatch (ifMatch : Option String) (etag : String) : Option Failure :=
  match ifMatch with
  | some value => if value ≠ etag then some (.command preconditionFailed) else none
  | none => none

def checkRejects (rejects : Address) : Option Failure :=
  if rejects.isEmpty then none else some (.command corruptedData)

def copyObject (source : Except Failure SourceObject) (ifMatch : Option String)
    (linkError : Option Failure) (reject : Fragment → Bool) (putError : Option Failure) :
    Effect (Counts ι) Failure Unit := do
  let obj ← computed source
  raise (checkIfMatch ifMatch obj.etag)
  raise linkError
  take R (obj.addr.filter fun f => !reject f)
  raise (checkRejects (obj.addr.filter reject))
  safePutObject R putError obj.addr

/-- A request with all that its handler meets. -/
inductive Upload where
  | putObject (bucketError : Option Failure) (reads : List (Except Exn Piece))
      (putError : Option Failure)
  | uploadPart (partNumber : Nat) (reads : List (Except Exn Piece)) (lockError : Option Failure)
      (details : Except Failure Address) (appendError : Option Failure)
  | copyObject (source : Except Failure SourceObject) (ifMatch : Option String)
      (linkError : Option Failure) (reject : Fragment → Bool) (putError : Option Failure)

def handle (conf : DeduplicatorConfig) : Upload → Effect (Counts ι) Failure PUnit
  | .putObject bucketError reads putError => putObject R conf bucketError reads putError
  | .uploadPart partNumber reads lockError details appendError =>
    uploadPart R conf partNumber reads lockError details appendError
  | .copyObject source ifMatch linkError reject putError =>
    copyObject R source ifMatch linkError reject putError

end Model

section Conditions

variable (conf : DeduplicatorConfig)

/-- The fragments of a piece that the search knows. -/
def Piece.known (p : Piece) : Address :=
  match p.found conf p.data with
  | .ok fr => getStoredFragments fr.frags
  | .error _ => []

/-- Storage accepts none of the fragments that the search knows. -/
def Piece.NoneLinked (p : Piece) : Prop := ∀ f ∈ p.known conf, p.reject f = true

def Piece.SomeRejected (p : Piece) : Prop := ∃ f ∈ p.known conf, p.reject f = true

/-- The piece has bytes to be written: a fragment that the search does not know
or that storage rejects. -/
def Piece.HasNew (p : Piece) : Prop :=
  ∃ fr, p.found conf p.data = .ok fr ∧
    ∃ f ∈ fr.frags, f.type = .unstored ∨ p.reject f.storedFragment = true

def Piece.Fails (p : Piece) : Prop :=
  p.searchError.isSome ∨ (p.known conf ≠ [] ∧ p.linkError.isSome) ∨
    (p.SomeRejected conf ∧ p.eraseError.isSome) ∨
    (p.HasNew conf ∧ (p.writeError.isSome ∨ p.insertError.isSome))

/-- The deduplication of the piece fails before storage has taken a reference
for it. -/
def Piece.FailsClean (p : Piece) : Prop :=
  p.searchError.isSome ∨ (p.known conf ≠ [] ∧ p.linkError.isSome) ∨
    (p.NoneLinked conf ∧ ((p.SomeRejected conf ∧ p.eraseError.isSome) ∨
      (p.HasNew conf ∧ p.writeError.isSome)))

def BodyFails : List (Except Exn Piece) → Prop
  | [] => False
  | .error _ :: _ => True
  | .ok p :: rest => p.data ≠ [] ∧ (p.Fails conf ∨ BodyFails rest)

/-- The first read fails, or the first piece fails before it takes a
reference. -/
def BodyFailsClean : List (Except Exn Piece) → Prop
  | [] => False
  | .error _ :: _ => True
  | .ok p :: _ => p.data ≠ [] ∧ p.FailsClean conf

def NoData : List (Except Exn Piece) → Prop
  | [] => True
  | .error _ :: _ => False
  | .ok p :: _ => p.data = []

/-- The request fails before it takes a reference, or in `safe_put_object`. -/
def Harmless : Upload → Prop
  | .putObject bucketError reads _ =>
    bucketError.isSome ∨ BodyFailsClean conf reads ∨ ¬ BodyFails conf reads
  | .uploadPart partNumber reads _ _ _ =>
    Multipart.validatePartNumber partNumber ≠ .ok () ∨ BodyFailsClean conf reads ∨ NoData reads
  | .copyObject source ifMatch linkError reject _ =>
    ∀ obj, source = .ok obj → checkIfMatch ifMatch obj.etag = none → linkError = none →
      (∀ f ∈ obj.addr, reject f = false) ∨ ∀ f ∈ obj.addr, reject f = true

end Conditions

end UhCore.Entrypoint.Uploads
