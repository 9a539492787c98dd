import UhCore.Entrypoint.Command
import UhCore.Lib.KeyMap

/-!
The database state of one multipart upload and the functions on it. An upload
is a row with the flags `complete` and `erased_since` and its parts; deleting
the row deletes the parts. `details` and `part_details` are several queries
each, so what they return may mix the states between them: a query object says
which one is next and what was read before.

An address is the list of what it refers to. The multipart functions only
store, concatenate and pass addresses on, so the elements stay a parameter.
-/

namespace UhCore.Entrypoint

namespace Multipart

structure Part (α : Type) where
  etag : String
  size : Nat
  addr : List α
  deriving DecidableEq, Repr

/-- A row of `uploads` with its rows of `upload_parts`. -/
structure Upload (α : Type) where
  complete : Bool
  erased : Bool
  parts : KeyMap (Part α)

variable {α : Type}

/-- `vrm_create_upload`. -/
def vrmCreateUpload : Upload α := ⟨false, false, KeyMap.empty⟩

/-- `vrm_get_upload_parts`. -/
def vrmGetUploadParts (upload : Option (Upload α)) : KeyMap (Part α) :=
  match upload with
  | some row => row.parts
  | none => KeyMap.empty

/-- `vrm_get_upload_part`. -/
def vrmGetUploadPart (upload : Option (Upload α)) (part : Nat) : Option (Part α) :=
  (vrmGetUploadParts upload).lookup part

/-- `vrm_put_multipart` replaces a part that is there. Without the row of the
upload the foreign key fails. -/
def vrmPutMultipart (upload : Option (Upload α)) (part : Nat) (value : Part α) :
    Option (Upload α) :=
  upload.map fun row => { row with parts := row.parts.insert part value }

/-- `vrm_complete_upload`. -/
def vrmCompleteUpload (upload : Option (Upload α)) : Option (Upload α) :=
  upload.map fun row => { row with complete := true }

/-- `vrm_delete_upload` only marks the row. -/
def vrmDeleteUpload (upload : Option (Upload α)) : Option (Upload α) :=
  upload.map fun row => { row with erased := true }

/-- `vrm_clean_deleted`, for a row that was marked long enough ago. -/
def vrmCleanDeleted (upload : Option (Upload α)) : Option (Upload α) :=
  upload.filter fun row => !row.erased

structure UploadInfo (α : Type) where
  erased : Bool
  completed : Bool
  parts : KeyMap (Part α)

def UploadInfo.generateTotalAddress (info : UploadInfo α) : List α :=
  info.parts.entries.flatMap fun entry => entry.2.addr

def noSuchUpload : CommandError :=
  ⟨.notFound, "NoSuchUpload",
    "The specified multipart upload does not exist. The upload ID might not be valid, or " ++
      "the multipart upload might have been aborted or completed."⟩

/-- The query `details` is at: the row, the parts without their addresses, the
addresses. -/
inductive Details (α : Type) where
  | upload
  | parts (info : UploadInfo α)
  | addresses (info : UploadInfo α)
  | done (info : UploadInfo α)

/-- A part as the second query of `details` enters it. -/
def withoutAddress (row : Part α) : Part α := { row with addr := [] }

/-- The third query finds the part of its row, or creates it. -/
def setAddress (row : Part α) (part : Option (Part α)) : Part α :=
  { part.getD ⟨"", 0, []⟩ with addr := row.addr }

/-- One query of `details`. -/
def Details.next (upload : Option (Upload α)) : Details α → Except CommandError (Details α)
  | .upload =>
    match upload with
    | none => .error noSuchUpload
    | some row => .ok (.parts ⟨row.erased, row.complete, KeyMap.empty⟩)
  | .parts info =>
    .ok (.addresses { info with
      parts := info.parts.merge (fun row _ => withoutAddress row) (vrmGetUploadParts upload) })
  | .addresses info =>
    .ok (.done { info with parts := info.parts.merge setAddress (vrmGetUploadParts upload) })
  | .done info => .ok (.done info)

/-- The query `part_details` is at: size and etag, the address. -/
inductive PartDetails (α : Type) where
  | size
  | address (found : Part α)

/-- One query of `part_details`. The last one gives the part, or nothing where
the handler catches `InvalidPart`. -/
def PartDetails.next (upload : Option (Upload α)) (part : Nat) :
    PartDetails α → PartDetails α ⊕ Option (Part α)
  | .size =>
    match vrmGetUploadPart upload part with
    | some row => .inl (.address (withoutAddress row))
    | none => .inr none
  | .address found =>
    .inr ((vrmGetUploadPart upload part).map fun row => setAddress row (some found))

def maximumChunkSize : Nat := 5 * 1024 * 1024

def maximumPartNumber : Nat := 10000

/-- A `Part` element of the body of a CompleteMultipartUpload request. -/
structure PartNode where
  partNumber : Option Nat
  etag : Option String
  deriving DecidableEq, Repr

def malformedXml : CommandError := ⟨.badRequest, "MalformedXML", "XML is invalid."⟩

/-- The loop of `validate_internal`. The keys of `info.parts` have 16 bits, so
the number is looked up modulo `2 ^ 16`. -/
def validateNodes (info : UploadInfo α) (counter : Nat) :
    List PartNode → Except CommandError Unit
  | [] => .ok ()
  | node :: rest =>
    match node.partNumber, node.etag with
    | some number, some etag =>
      if maximumPartNumber < counter then .error malformedXml
      else
        match info.parts.lookup (number % 2 ^ 16) with
        | none => .error ⟨.badRequest, "InvalidPart", "Part not found."⟩
        | some part =>
          if part.size < maximumChunkSize ∧ number ≠ info.parts.size then
            .error ⟨.badRequest, "EntityTooSmall", "Entity is too small."⟩
          else if part.etag ≠ etag then
            .error ⟨.badRequest, "InvalidPart", "Part etag does not match."⟩
          else if number ≠ counter then
            .error ⟨.badRequest, "InvalidPartOrder", "Part order is not ascending."⟩
          else validateNodes info (counter + 1) rest
    | _, _ => .error malformedXml

/-- `validate_internal` on the parsed body; `none` is a body that is no XML. -/
def validateInternal (info : UploadInfo α) : Option (List PartNode) → Except CommandError Unit
  | none | some [] => .error malformedXml
  | some nodes => validateNodes info 1 nodes

/-- `multipart::validate`. -/
def validatePartNumber (number : Nat) : Except CommandError Unit :=
  if number < 1 ∨ maximumPartNumber < number then
    .error ⟨.badRequest, "InvalidPart", "Part number is invalid."⟩
  else .ok ()

section Queries

/-- What `details` has read so far of an upload that was not complete agrees
with the row as it is now. -/
def Details.Current (upload : Option (Upload α)) : Details α → Prop
  | .upload => True
  | .parts info => info.parts = KeyMap.empty ∧
      (info.completed = false → ∃ row, upload = some row ∧ row.complete = false)
  | .addresses info => info.completed = false → ∃ row, upload = some row ∧
      row.complete = false ∧
      ∀ k, info.parts.lookup k = (row.parts.lookup k).map withoutAddress
  | .done info => info.completed = false → ∃ row, upload = some row ∧
      row.complete = false ∧ ∀ k, info.parts.lookup k = row.parts.lookup k

variable {upload : Option (Upload α)} {query : Details α}

theorem Details.Current.next {query' : Details α} (h : query.Current upload)
    (hnext : query.next upload = .ok query') : query'.Current upload := by
  cases query with
  | upload =>
    cases upload with
    | none => simp [Details.next] at hnext
    | some row =>
      simp only [Details.next, Except.ok.injEq] at hnext
      subst hnext
      exact ⟨rfl, fun hcomp => ⟨row, rfl, hcomp⟩⟩
  | parts info =>
    simp only [Details.next, Except.ok.injEq] at hnext
    subst hnext
    intro hcompl
    obtain ⟨row, rfl, hcomp⟩ := h.2 hcompl
    refine ⟨row, rfl, hcomp, fun k => ?_⟩
    rw [KeyMap.lookup_merge, h.1, vrmGetUploadParts]
    cases row.parts.lookup k <;> rfl
  | addresses info =>
    simp only [Details.next, Except.ok.injEq] at hnext
    subst hnext
    intro hcompl
    obtain ⟨row, rfl, hcomp, hparts⟩ := h hcompl
    refine ⟨row, rfl, hcomp, fun k => ?_⟩
    rw [KeyMap.lookup_merge, hparts, vrmGetUploadParts]
    cases row.parts.lookup k <;> rfl
  | done info =>
    simp only [Details.next, Except.ok.injEq] at hnext
    exact hnext ▸ h

theorem Details.Current.clean (h : query.Current upload)
    (herased : ∀ row, upload = some row → row.erased = true → row.complete = true) :
    query.Current (vrmCleanDeleted upload) := by
  have hkeep : ∀ row, upload = some row → row.complete = false →
      vrmCleanDeleted upload = some row := by
    rintro row rfl hcomp
    have hnot : row.erased = false := by
      by_contra hcon
      simp [herased row rfl (by simpa using hcon)] at hcomp
    simp [vrmCleanDeleted, hnot]
  cases query with
  | upload => trivial
  | parts info =>
    refine ⟨h.1, fun hcompl => ?_⟩
    obtain ⟨row, hrow, hcomp⟩ := h.2 hcompl
    exact ⟨row, hkeep row hrow hcomp, hcomp⟩
  | addresses info | done info =>
    intro hcompl
    obtain ⟨row, hrow, hcomp, hparts⟩ := h hcompl
    exact ⟨row, hkeep row hrow hcomp, hcomp, hparts⟩

end Queries

end Multipart

end UhCore.Entrypoint
