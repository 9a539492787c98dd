import UhCore.Entrypoint.Multipart
import UhCore.Lib.Places

/-!
Every reference has one place at a time: with the handler that stored it, in
the rows of an upload that is not complete, with a handler that will unlink
it, in an object, or unlinked. A step moves references from one place to
another, and the two places that matter at the end are final.
-/

namespace UhCore.Entrypoint.Multipart

open Transition Places List Option Function

inductive Place where
  | nowhere
  | stored (pid : Nat)
  | part (number : Nat)
  | pending (pid : Nat)
  | object
  | unlinked
  deriving DecidableEq

variable {place : Nat → Place} {upload : Option (Upload Nat)} {lock : Option Nat}

/-- What holds of a handler: the references it has, that it has the lock
where it should, and that what it has read is still so. -/
def HandlerOk (upload : Option (Upload Nat)) (lock : Option Nat) (place : Nat → Place)
    (pid : Nat) : Handler → Prop
  | .idle | .completeRequest _ | .abortRequest => True
  | .partStored _ value => Held place (.stored pid) value.addr
  | .partDetails _ value _ => lock = some pid ∧ Held place (.stored pid) value.addr
  | .partPut part value existing => lock = some pid ∧ Held place (.stored pid) value.addr ∧
      ∀ row, upload = some row → row.complete = false →
        (row.parts.lookup part).map Part.addr = existing.map Part.addr
  | .complete _ query | .abort query => lock = some pid ∧ query.Current upload
  | .completePut => lock = some pid
  | .marked frees => lock = some pid ∧ Held place (.pending pid) frees.flatten ∧
      ∀ row, upload = some row → row.complete = true
  | .erased frees | .unlocking frees =>
    lock = some pid ∧ Held place (.pending pid) frees.flatten
  | .freeing frees => Held place (.pending pid) frees.flatten

structure Placed (w : World) (place : Nat → Place) : Prop where
  fresh : ∀ r, w.nextReference ≤ r → place r = .nowhere
  erased : ∀ row, w.upload = some row → row.erased = true → row.complete = true
  table : ∀ row, w.upload = some row → row.complete = false →
    (∀ pid, w.handlers pid ≠ .completePut) →
    ∀ k part, row.parts.lookup k = some part → Held place (.part k) part.addr
  handlers : ∀ pid, HandlerOk w.upload w.lock place pid (w.handlers pid)
  unlinked : Held place .unlinked w.unlinked
  objects : ∀ object ∈ w.objects, ∀ r ∈ object, place r = .object

def Inv (w : World) : Prop := ∃ place, Placed w place

theorem inv_start : Inv start :=
  ⟨fun _ => .nowhere, fun _ _ => rfl,
    fun row hrow herased => by
      cases hrow
      simp [vrmCreateUpload] at herased,
    fun row hrow _ _ k part hpart => by
      cases hrow
      simp [vrmCreateUpload] at hpart,
    fun _ => trivial, Held.nil, by simp [start]⟩

theorem Inv.releasedOnce {w : World} (h : Inv w) : ReleasedOnce w := by
  obtain ⟨place, h⟩ := h
  refine ⟨nodup_iff_count_le_one.mp h.unlinked.1, ?_⟩
  intro object hobj r hr hunlink
  have hplace := h.objects object hobj r hr
  rw [h.unlinked.2 r hunlink] at hplace
  cases hplace

theorem HandlerOk.mono {place place' : Nat → Place} {pid : Nat} {handler : Handler}
    (h : HandlerOk upload lock place pid handler)
    (hstore : ∀ r, place r = .stored pid → place' r = .stored pid)
    (hpend : ∀ r, place r = .pending pid → place' r = .pending pid) :
    HandlerOk upload lock place' pid handler := by
  cases handler with
  | idle | completeRequest _ | abortRequest => trivial
  | partStored _ value => exact Held.mono h hstore
  | partDetails _ value _ => exact ⟨h.1, h.2.mono hstore⟩
  | partPut part value existing => exact ⟨h.1, h.2.1.mono hstore, h.2.2⟩
  | complete _ query | abort query | completePut => exact h
  | marked frees => exact ⟨h.1, h.2.1.mono hpend, h.2.2⟩
  | erased frees | unlocking frees => exact ⟨h.1, h.2.mono hpend⟩
  | freeing frees => exact Held.mono h hpend

/-- A handler without the lock does not depend on the rows. -/
theorem HandlerOk.without_lock {upload' : Option (Upload Nat)} {lock' : Option Nat} {pid : Nat}
    {handler : Handler} (h : HandlerOk upload lock place pid handler) (hlock : lock ≠ some pid) :
    HandlerOk upload' lock' place pid handler := by
  cases handler with
  | idle | completeRequest _ | abortRequest => trivial
  | partStored _ _ | freeing _ => exact h
  | completePut => exact absurd h hlock
  | partDetails _ _ _ | partPut _ _ _ | complete _ _ | abort _ | marked _ | erased _
  | unlocking _ => exact absurd h.1 hlock

section Steps

variable {w w' : World} {place' : Nat → Place} {pid : Nat} {handler : Handler}

section

variable (h : Placed w place) (hhandlers : w'.handlers = update w.handlers pid handler)
    (hshared : w'.upload = w.upload ∧ w'.lock = w.lock ∨ ∀ q, q ≠ pid → w.lock ≠ some q)

include h hhandlers hshared

/-- The other handlers do not notice a step of one handler: it leaves the rows
and the lock alone or has the lock to itself, and moves no reference of
theirs. -/
theorem Placed.others
    (hstore : ∀ q, q ≠ pid → ∀ r, place r = .stored q → place' r = .stored q)
    (hpend : ∀ q, q ≠ pid → ∀ r, place r = .pending q → place' r = .pending q)
    (hown : HandlerOk w'.upload w'.lock place' pid handler) :
    ∀ q, HandlerOk w'.upload w'.lock place' q (w'.handlers q) := by
  intro q
  rw [hhandlers]
  by_cases hq : q = pid
  · subst hq
    rwa [update_self]
  · rw [update_of_ne hq]
    have hkept := (h.handlers q).mono (hstore q hq) (hpend q hq)
    rcases hshared with ⟨hupload, hlock⟩ | hlock
    · rwa [hupload, hlock]
    · exact hkept.without_lock (hlock q hq)

theorem Placed.others_kept (hown : HandlerOk w'.upload w'.lock place pid handler) :
    ∀ q, HandlerOk w'.upload w'.lock place q (w'.handlers q) :=
  h.others hhandlers hshared (fun _ _ _ hr => hr) (fun _ _ _ hr => hr) hown

end

theorem Placed.no_put (h : Placed w place) (hlock : ∀ q, q ≠ pid → w.lock ≠ some q)
    (hpid : w.handlers pid ≠ .completePut) : ∀ q, w.handlers q ≠ .completePut := by
  intro q hq
  by_cases heq : q = pid
  · exact hpid (heq ▸ hq)
  · have hown := h.handlers q
    rw [hq] at hown
    exact hlock q heq hown

theorem ne_of_lock {pid q : Nat} (hlock : w.lock = some pid) (hq : q ≠ pid) : w.lock ≠ some q := by
  rw [hlock]
  exact fun heq => hq (some.inj heq).symm

theorem no_put_of_update (hpid : w.handlers pid ≠ .completePut)
    (hput : ∀ q, update w.handlers pid handler q ≠ .completePut) :
    ∀ q, w.handlers q ≠ .completePut := by
  intro q hq
  by_cases heq : q = pid
  · exact hpid (heq ▸ hq)
  · exact hput q (by rw [update_of_ne heq, hq])

theorem Placed.goto (h : Placed w place) (hpid : w.handlers pid ≠ .completePut)
    (hown : HandlerOk w.upload w.lock place pid handler) : Placed (w.goto pid handler) place where
  fresh := h.fresh
  erased := h.erased
  table row hrow hcomp hput := h.table row hrow hcomp (no_put_of_update hpid hput)
  handlers := h.others_kept rfl (Or.inl ⟨rfl, rfl⟩) hown
  unlinked := h.unlinked
  objects := h.objects

theorem Placed.lockUpload (h : Placed w place) (hstep : w.lockUpload pid handler = some w')
    (hpid : w.handlers pid ≠ .completePut)
    (hown : HandlerOk w.upload (some pid) place pid handler) : Placed w' place := by
  unfold World.lockUpload at hstep
  split at hstep
  · cases hstep
  case h_2 hfree =>
    cases hstep
    have hlock : ∀ q, q ≠ pid → w.lock ≠ some q := by simp [hfree]
    exact {
      fresh := h.fresh
      erased := h.erased
      table := fun row hrow hcomp _ => h.table row hrow hcomp (h.no_put hlock hpid)
      handlers := h.others_kept rfl (Or.inr hlock) hown
      unlinked := h.unlinked
      objects := h.objects }

theorem Placed.unlock (h : Placed w place) (hlock : w.lock = some pid)
    (hpid : w.handlers pid ≠ .completePut)
    (hown : HandlerOk w.upload none place pid handler) :
    Placed (({ w with lock := none } : World).goto pid handler) place where
  fresh := h.fresh
  erased := h.erased
  table row hrow hcomp _ := h.table row hrow hcomp (h.no_put (fun _ => ne_of_lock hlock) hpid)
  handlers := h.others_kept rfl (Or.inr fun _ => ne_of_lock hlock) hown
  unlinked := h.unlinked
  objects := h.objects

theorem Placed.storePart (h : Placed w place) (hpid : w.handlers pid ≠ .completePut)
    (part : Nat) (etag : String) (size : Nat) : Inv (w.storePart pid part etag size) := by
  have hnew : ∀ r ∈ [w.nextReference], place r = .nowhere :=
    forall_mem_singleton.mpr (h.fresh _ le_rfl)
  refine ⟨moved place [w.nextReference] (.stored pid), ?_, h.erased, ?_, ?_, ?_, ?_⟩
  · intro r hr
    have hlt : w.nextReference + 1 ≤ r := hr
    rw [moved_of_not_mem (by simp only [mem_singleton]; omega)]
    exact h.fresh r (by omega)
  · intro row hrow hcomp hput k part' hpart
    exact (h.table row hrow hcomp (no_put_of_update hpid hput) k part' hpart).mono
      (moved_kept hnew (by simp))
  · exact h.others rfl (Or.inl ⟨rfl, rfl⟩) (fun _ _ => moved_kept hnew (by simp))
      (fun _ _ => moved_kept hnew (by simp)) (held_moved (by simp))
  · exact h.unlinked.mono (moved_kept hnew (by simp))
  · exact fun object hobj r hr => moved_kept hnew (by simp) r (h.objects object hobj r hr)

/-- Unlinking an address is final for its references. -/
theorem Placed.free (h : Placed w place) {addr : List Nat} {rest : List (List Nat)}
    (hown : w.handlers pid = .freeing (addr :: rest)) :
    Inv (({ w with unlinked := w.unlinked ++ addr } : World).goto pid (.freeing rest)) := by
  have hheld : Held place (.pending pid) (addr ++ rest.flatten) := by
    have := h.handlers pid
    rwa [hown] at this
  obtain ⟨hnodup, hrest, hdisj⟩ := List.nodup_append.mp hheld.1
  have haddr : ∀ r ∈ addr, place r = .pending pid := fun r hr => hheld.2 r (by simp [hr])
  refine ⟨moved place addr .unlinked, ?_, h.erased, ?_, ?_, ⟨?_, ?_⟩, ?_⟩
  · exact fun r hr => moved_kept haddr (by simp) r (h.fresh r hr)
  · intro row hrow hcomp hput k part hpart
    have hpid : w.handlers pid ≠ .completePut := by simp [hown]
    exact (h.table row hrow hcomp (no_put_of_update hpid hput) k part hpart).mono
      (moved_kept haddr (by simp))
  · refine h.others rfl (Or.inl ⟨rfl, rfl⟩) (fun _ _ => moved_kept haddr (by simp))
      (fun q hq => moved_kept haddr (by simpa using hq)) ⟨hrest, fun r hr => ?_⟩
    rw [moved_of_not_mem fun hmem => hdisj r hmem r hr rfl]
    exact hheld.2 r (by simp [hr])
  · refine List.nodup_append.mpr ⟨h.unlinked.1, hnodup, ?_⟩
    rintro r hr _ hmem rfl
    have hpend := haddr r hmem
    rw [h.unlinked.2 r hr] at hpend
    cases hpend
  · intro r hr
    rcases mem_append.mp hr with hr | hr
    · exact moved_kept haddr (by simp) r (h.unlinked.2 r hr)
    · exact moved_of_mem hr
  · exact fun object hobj r hr => moved_kept haddr (by simp) r (h.objects object hobj r hr)

variable {row : Upload Nat} {value : Part Nat} {info : UploadInfo Nat} {part : Nat}
  {upload : Option (Upload Nat)} {frees : List (List Nat)}

/-- A part of an open upload takes the place of the one that was read, whose
references are now the handler's to unlink. -/
theorem Placed.replacePart (h : Placed w place) {freed : List (List Nat)}
    (hrow : w.upload = some row) (hcomp : row.complete = false) (hlock : w.lock = some pid)
    (hpid : w.handlers pid ≠ .completePut) (hvalue : Held place (.stored pid) value.addr)
    (hfreed : Held place (.part part) freed.flatten) :
    Inv (({ w with upload := some { row with parts := row.parts.insert part value } } :
      World).goto pid (.unlocking freed)) := by
  have hkeep : ∀ here, here ≠ .stored pid → here ≠ .part part → ∀ r, place r = here →
      moved (moved place freed.flatten (.pending pid)) value.addr (.part part) r = here := by
    intro here hstore hpart r hr
    rw [moved_of_not_mem fun hmem => hstore (hr.symm.trans (hvalue.2 r hmem)),
      moved_of_not_mem fun hmem => hpart (hr.symm.trans (hfreed.2 r hmem)), hr]
  refine ⟨moved (moved place freed.flatten (.pending pid)) value.addr (.part part),
    ?_, ?_, ?_, ?_, ?_, ?_⟩
  · exact fun r hr => hkeep _ (by simp) (by simp) r (h.fresh r hr)
  · intro row' hrow' herased
    cases hrow'
    exact h.erased row hrow herased
  · intro row' hrow' _ _ k part' hpart'
    cases hrow'
    rw [KeyMap.lookup_insert] at hpart'
    split at hpart'
    case isTrue hk =>
      cases hpart'
      rw [hk]
      exact held_moved hvalue.1
    case isFalse hk =>
      have hput := h.no_put (fun _ => ne_of_lock hlock) hpid
      exact (h.table row hrow hcomp hput k part' hpart').mono
        (hkeep _ (by simp) (by simpa using hk))
  · refine h.others rfl (Or.inr fun _ => ne_of_lock hlock)
      (fun q hq => hkeep _ (by simpa using hq) (by simp)) (fun _ _ => hkeep _ (by simp) (by simp))
      ⟨hlock, hfreed.1, fun r hr => ?_⟩
    rw [moved_of_not_mem, moved_of_mem hr]
    intro hmem
    have hstore := hvalue.2 r hmem
    rw [hfreed.2 r hr] at hstore
    cases hstore
  · exact h.unlinked.mono (hkeep _ (by simp) (by simp))
  · exact fun object hobj r hr =>
      hkeep _ (by simp) (by simp) r (h.objects object hobj r hr)

theorem Placed.appendUploadPartInfo (h : Placed w place) {existing : Option (Part Nat)}
    (hpid : w.handlers pid = .partPut part value existing)
    (hok : ∀ row ∈ w.upload, row.complete = true → existing.isSome = false) :
    Inv (w.appendUploadPartInfo pid part value existing) := by
  have hown := h.handlers pid
  rw [hpid] at hown
  obtain ⟨hlock, hvalue, hread⟩ := hown
  have hput : w.handlers pid ≠ .completePut := by simp [hpid]
  cases hrow : w.upload with
  | none =>
    simp only [World.appendUploadPartInfo, vrmPutMultipart, hrow, map_none]
    exact ⟨place, h.goto hput ⟨hlock, Held.nil⟩⟩
  | some row =>
    simp only [World.appendUploadPartInfo, vrmPutMultipart, hrow, map_some]
    by_cases hcomp : row.complete = true
    · have hnone : existing = none := by simpa using hok row hrow hcomp
      subst hnone
      refine ⟨place, h.fresh, ?_, ?_, ?_, h.unlinked, h.objects⟩
      · intro row' hrow' _
        cases hrow'
        exact hcomp
      · intro row' hrow' hopen
        cases hrow'
        exact absurd hcomp (by simpa using hopen)
      · exact h.others_kept rfl (Or.inr fun _ => ne_of_lock hlock) ⟨hlock, Held.nil⟩
    · have hopen : row.complete = false := by simpa using hcomp
      apply h.replacePart hrow hopen hlock hput hvalue
      have hsame := hread row hrow hopen
      cases existing with
      | none => exact Held.nil
      | some old =>
        obtain ⟨found, hfound, haddr⟩ := map_eq_some_iff.mp hsame
        have htable := h.table row hrow hopen
          (h.no_put (fun _ => ne_of_lock hlock) hput) part found hfound
        simpa [← haddr] using htable

theorem Placed.total (h : Placed w place) (hrow : w.upload = some row)
    (hcomp : row.complete = false) (hput : ∀ q, w.handlers q ≠ .completePut)
    (hparts : ∀ k, info.parts.lookup k = row.parts.lookup k) : info.generateTotalAddress.Nodup ∧
      ∀ r ∈ info.generateTotalAddress, ∃ k, place r = .part k := by
  have hheld : ∀ entry ∈ info.parts.entries, Held place (.part entry.1) entry.2.addr := by
    intro entry hentry
    apply h.table row hrow hcomp hput entry.1 entry.2
    rw [← hparts]
    exact (info.parts.mem_entries_iff entry.1 entry.2).mp hentry
  constructor
  · refine nodup_flatMap.mpr ⟨fun entry hentry => (hheld entry hentry).1, ?_⟩
    refine info.parts.sorted.imp_of_mem fun {a b} ha hb hlt => ?_
    intro r hra hrb
    have heq := ((hheld a ha).2 r hra).symm.trans ((hheld b hb).2 r hrb)
    exact absurd (Place.part.inj heq) (by omega)
  · intro r hr
    obtain ⟨entry, hentry, hmem⟩ := mem_flatMap.mp hr
    exact ⟨entry.1, (hheld entry hentry).2 r hmem⟩

theorem Placed.completeUpload (h : Placed w place) {body : Option (List PartNode)}
    (hpid : w.handlers pid = .complete body (.done info)) (accepted : Bool) :
    Inv (w.completeUpload pid body info accepted) := by
  have hown := h.handlers pid
  rw [hpid] at hown
  obtain ⟨hlock, hcur⟩ := hown
  have hput : w.handlers pid ≠ .completePut := by simp [hpid]
  have hrest : Inv (w.goto pid (.unlocking [])) := ⟨place, h.goto hput ⟨hlock, Held.nil⟩⟩
  unfold World.completeUpload
  split
  · exact hrest
  · split
    case isFalse => exact hrest
    case isTrue hcond =>
      simp only [Bool.and_eq_true, Bool.not_eq_true'] at hcond
      obtain ⟨row, hrow, hcomp, hparts⟩ := hcur hcond.1
      obtain ⟨-, htotal⟩ := h.total hrow hcomp (h.no_put (fun _ => ne_of_lock hlock) hput) hparts
      have hkeep : ∀ here, (∀ k, here ≠ .part k) → ∀ r, place r = here →
          moved place info.generateTotalAddress .object r = here := by
        intro here hhere
        refine moved_elsewhere fun r hr hplace => ?_
        obtain ⟨k, hk⟩ := htotal r hr
        exact hhere k (hplace.symm.trans hk)
      refine ⟨moved place info.generateTotalAddress .object, ?_, h.erased, ?_, ?_, ?_, ?_⟩
      · exact fun r hr => hkeep _ (by simp) r (h.fresh r hr)
      · intro _ _ _ hnot
        exact absurd (update_self _ _ _) (hnot pid)
      · exact h.others rfl (Or.inl ⟨rfl, rfl⟩) (fun _ _ => hkeep _ (by simp))
          (fun _ _ => hkeep _ (by simp)) hlock
      · exact h.unlinked.mono (hkeep _ (by simp))
      · intro object hobj r hr
        rcases mem_append.mp hobj with hobj | hobj
        · exact hkeep _ (by simp) r (h.objects object hobj r hr)
        · rw [mem_singleton.mp hobj] at hr
          exact moved_of_mem hr

theorem complete_of_vrmCompleteUpload (h : vrmCompleteUpload upload = some row) :
    row.complete = true := by
  obtain ⟨_, _, rfl⟩ := map_eq_some_iff.mp h
  rfl

/-- Once the upload is complete its rows stand for nothing; the references the
handler has read from them are its to unlink. -/
theorem Placed.markComplete (h : Placed w place) (hlock : w.lock = some pid)
    (hnodup : frees.flatten.Nodup) (hfrees : ∀ r ∈ frees.flatten, ∃ k, place r = .part k) :
    Inv (w.markComplete pid frees) := by
  have hkeep : ∀ here, (∀ k, here ≠ .part k) → ∀ r, place r = here →
      moved place frees.flatten (.pending pid) r = here := by
    intro here hhere
    refine moved_elsewhere fun r hr hplace => ?_
    obtain ⟨k, hk⟩ := hfrees r hr
    exact hhere k (hplace.symm.trans hk)
  refine ⟨moved place frees.flatten (.pending pid), ?_, ?_, ?_, ?_, ?_, ?_⟩
  · exact fun r hr => hkeep _ (by simp) r (h.fresh r hr)
  · exact fun row hrow _ => complete_of_vrmCompleteUpload hrow
  · intro row hrow hopen
    have hcomp := complete_of_vrmCompleteUpload hrow
    simp [hcomp] at hopen
  · exact h.others rfl (Or.inr fun _ => ne_of_lock hlock) (fun _ _ => hkeep _ (by simp))
      (fun _ _ => hkeep _ (by simp))
      ⟨hlock, held_moved hnodup, fun row hrow => complete_of_vrmCompleteUpload hrow⟩
  · exact h.unlinked.mono (hkeep _ (by simp))
  · exact fun object hobj r hr => hkeep _ (by simp) r (h.objects object hobj r hr)

theorem Placed.deleteUpload (h : Placed w place) (hpid : w.handlers pid = .marked frees) :
    Placed (({ w with upload := vrmDeleteUpload w.upload } : World).goto pid
      (.erased frees)) place := by
  have hown := h.handlers pid
  rw [hpid] at hown
  obtain ⟨hlock, hheld, hcomp⟩ := hown
  have hall : ∀ row, vrmDeleteUpload w.upload = some row → row.complete = true := by
    intro row hrow
    obtain ⟨row', hrow', rfl⟩ := map_eq_some_iff.mp hrow
    exact hcomp row' hrow'
  refine ⟨h.fresh, fun row hrow _ => hall row hrow, ?_, ?_, h.unlinked, h.objects⟩
  · intro row hrow hopen
    have := hall row hrow
    simp [this] at hopen
  · exact h.others_kept rfl (Or.inr fun _ => ne_of_lock hlock) ⟨hlock, hheld⟩

theorem vrmCleanDeleted_eq_some (h : vrmCleanDeleted upload = some row) : upload = some row :=
  (filter_eq_some_iff.mp h).1

/-- Only rows of complete uploads are cleaned away, and those stand for
nothing. -/
theorem Placed.cleanDeleted (h : Placed w place) :
    Placed { w with upload := vrmCleanDeleted w.upload } place where
  fresh := h.fresh
  erased row hrow := h.erased row (vrmCleanDeleted_eq_some hrow)
  table row hrow := h.table row (vrmCleanDeleted_eq_some hrow)
  handlers q := by
    have hown := h.handlers q
    show HandlerOk (vrmCleanDeleted w.upload) w.lock place q (w.handlers q)
    cases hq : w.handlers q with
    | idle | completeRequest _ | abortRequest => trivial
    | partStored _ _ | partDetails _ _ _ | completePut | erased _ | unlocking _ | freeing _ =>
      rwa [hq] at hown
    | partPut part value existing =>
      rw [hq] at hown
      exact ⟨hown.1, hown.2.1, fun row hrow => hown.2.2 row (vrmCleanDeleted_eq_some hrow)⟩
    | complete _ query | abort query =>
      rw [hq] at hown
      exact ⟨hown.1, hown.2.clean h.erased⟩
    | marked frees =>
      rw [hq] at hown
      exact ⟨hown.1, hown.2.1, fun row hrow => hown.2.2 row (vrmCleanDeleted_eq_some hrow)⟩
  unlinked := h.unlinked
  objects := h.objects

theorem Placed.details (h : Placed w place) {query : Details Nat} (proceed : Details Nat → Handler)
    (hproceed : ∀ query', query'.Current w.upload →
      HandlerOk w.upload w.lock place pid (proceed query'))
    (hlock : w.lock = some pid) (hput : w.handlers pid ≠ .completePut)
    (hcur : query.Current w.upload)
    (hstep : (match query.next w.upload with
      | .ok query' => some (w.goto pid (proceed query'))
      | .error _ => some (w.goto pid (.unlocking []))) = some w') : Inv w' := by
  split at hstep
  case h_1 query' hquery =>
    cases hstep
    exact ⟨place, h.goto hput (hproceed query' (hcur.next hquery))⟩
  case h_2 =>
    cases hstep
    exact ⟨place, h.goto hput ⟨hlock, Held.nil⟩⟩

theorem Placed.partDetails (h : Placed w place) {query : PartDetails Nat}
    (hpid : w.handlers pid = .partDetails part value query)
    (hstep : (match query.next w.upload part with | .inl query' => some (w.goto pid (.partDetails part value query')) | .inr existing => some (w.goto pid
    (.partPut part value existing))) = some w') : Inv w' := by
  have hown := h.handlers pid
  rw [hpid] at hown
  have hput : w.handlers pid ≠ .completePut := by simp [hpid]
  split at hstep
  · cases hstep
    exact ⟨place, h.goto hput hown⟩
  case h_2 existing hquery =>
    cases hstep
    refine ⟨place, h.goto hput ⟨hown.1, hown.2, fun row hrow _ => ?_⟩⟩
    cases query with
    | size =>
      simp only [PartDetails.next, vrmGetUploadPart, vrmGetUploadParts, hrow] at hquery
      split at hquery
      · cases hquery
      case h_2 hlook =>
        rw [hlook, ← Sum.inr.inj hquery]
    | address found =>
      simp only [PartDetails.next, vrmGetUploadPart, vrmGetUploadParts, hrow] at hquery
      rw [← Sum.inr.inj hquery]
      cases row.parts.lookup part <;> rfl

theorem Placed.abortDone (h : Placed w place) (hpid : w.handlers pid = .abort (.done info))
    (hok : info.completed = true → info.parts.entries.length = 0) :
    Inv (w.markComplete pid (info.parts.entries.map fun entry => entry.2.addr)) := by
  have hown := h.handlers pid
  rw [hpid] at hown
  obtain ⟨hlock, hcur⟩ := hown
  by_cases hcompl : info.completed = true
  · have hnil : info.parts.entries = [] := eq_nil_of_length_eq_zero (hok hcompl)
    exact h.markComplete hlock (by simp [hnil]) (by simp [hnil])
  · obtain ⟨row, hrow, hopen, hparts⟩ := hcur (by simpa using hcompl)
    obtain ⟨hnodup, htotal⟩ := h.total hrow hopen
      (h.no_put (fun _ => ne_of_lock hlock) (by simp [hpid])) hparts
    exact h.markComplete hlock hnodup htotal

end Steps

theorem Inv.advance {w w' : World} {pid : Nat} {accepted : Bool} (h : Inv w)
    (hok : FreesOpenUpload w (.step pid accepted)) (hstep : w.advance pid accepted = some w') :
    Inv w' := by
  obtain ⟨place, h⟩ := h
  have hown := h.handlers pid
  cases hpid : w.handlers pid with
  | idle => simp [World.advance, hpid] at hstep
  | partStored part value =>
    simp only [World.advance, hpid] at hstep hown
    exact ⟨place, h.lockUpload hstep (by simp [hpid]) ⟨rfl, hown⟩⟩
  | partDetails part value query =>
    simp only [World.advance, hpid] at hstep
    exact h.partDetails hpid hstep
  | partPut part value existing =>
    simp only [World.advance, hpid, some.injEq] at hstep
    simp only [FreesOpenUpload, hpid] at hok
    exact hstep ▸ h.appendUploadPartInfo hpid hok
  | completeRequest body =>
    simp only [World.advance, hpid] at hstep
    exact ⟨place, h.lockUpload hstep (by simp [hpid]) ⟨rfl, trivial⟩⟩
  | complete body query =>
    have hput : w.handlers pid ≠ .completePut := by simp [hpid]
    rw [hpid] at hown
    cases query with
    | done info =>
      simp only [World.advance, hpid, some.injEq] at hstep
      exact hstep ▸ h.completeUpload hpid accepted
    | upload | parts info | addresses info =>
      simp only [World.advance, hpid] at hstep
      exact h.details (.complete body) (fun _ hcur => ⟨hown.1, hcur⟩) hown.1 hput hown.2 hstep
  | completePut =>
    simp only [World.advance, hpid, some.injEq] at hstep
    rw [hpid] at hown
    exact hstep ▸ h.markComplete hown (by simp) (by simp)
  | abortRequest =>
    simp only [World.advance, hpid] at hstep
    exact ⟨place, h.lockUpload hstep (by simp [hpid]) ⟨rfl, trivial⟩⟩
  | abort query =>
    have hput : w.handlers pid ≠ .completePut := by simp [hpid]
    rw [hpid] at hown
    cases query with
    | done info =>
      simp only [World.advance, hpid, some.injEq] at hstep
      simp only [FreesOpenUpload, hpid] at hok
      exact hstep ▸ h.abortDone hpid hok
    | upload | parts info | addresses info =>
      simp only [World.advance, hpid] at hstep
      exact h.details .abort (fun _ hcur => ⟨hown.1, hcur⟩) hown.1 hput hown.2 hstep
  | marked frees =>
    simp only [World.advance, hpid, some.injEq] at hstep
    exact hstep ▸ ⟨place, h.deleteUpload hpid⟩
  | erased frees =>
    simp only [World.advance, hpid, some.injEq] at hstep
    rw [hpid] at hown
    exact hstep ▸ ⟨place, h.goto (by simp [hpid]) hown⟩
  | unlocking frees =>
    simp only [World.advance, hpid, some.injEq] at hstep
    rw [hpid] at hown
    exact hstep ▸ ⟨place, h.unlock hown.1 (by simp [hpid]) hown.2⟩
  | freeing frees =>
    cases frees with
    | nil =>
      simp only [World.advance, hpid, some.injEq] at hstep
      exact hstep ▸ ⟨place, h.goto (by simp [hpid]) trivial⟩
    | cons addr rest =>
      simp only [World.advance, hpid, some.injEq] at hstep
      exact hstep ▸ h.free hpid

theorem Inv.step {w w' : World} {action : Action} (h : Inv w)
    (hok : FreesOpenUpload w action) (hnext : next w action = some w') : Inv w' := by
  cases action with
  | uploadPart pid part etag size =>
    obtain ⟨place, h⟩ := h
    simp only [next] at hnext
    split at hnext
    case h_1 hidle _ =>
      cases hnext
      exact h.storePart (by simp [hidle]) part etag size
    case h_2 => cases hnext
  | completeMultipartUpload pid _ | abortMultipartUpload pid =>
    obtain ⟨place, h⟩ := h
    simp only [next] at hnext
    split at hnext
    case h_1 hidle =>
      cases hnext
      exact ⟨place, h.goto (by simp [hidle]) trivial⟩
    case h_2 => cases hnext
  | step pid accepted => exact h.advance hok hnext
  | cleanDeleted =>
    obtain ⟨place, h⟩ := h
    cases hnext
    exact ⟨place, h.cleanDeleted⟩

/-- In every run in which parts are freed only of uploads that are not
complete, no reference is released twice and none of an object is. -/
theorem multipart_releases_once (w : World)
    (h : Reachable next FreesOpenUpload start w) : ReleasedOnce w :=
  (h.invariant inv_start fun _ _ _ => Inv.step).releasedOnce

/-- One part is uploaded, uploaded again, and the upload is completed. -/
def reuploadActions : List Action :=
  .uploadPart 0 1 "a" 3 :: List.replicate 5 (.step 0 true) ++
    .uploadPart 0 1 "b" 4 :: List.replicate 7 (.step 0 true) ++
    .completeMultipartUpload 0 (some [⟨some 1, some "b"⟩]) :: List.replicate 10 (.step 0 true)

theorem multipart_releases_once_reupload :
    ∃ w, (Reachable next FreesOpenUpload start w ∧ w.objects = [[1]] ∧ w.unlinked = [0]) ∧
      ReleasedOnce w :=
  exists_and_sample reuploadActions (by decide +kernel)
    fun w hreach _ => multipart_releases_once w hreach

/-- One part is uploaded, the upload is completed, and a late abort follows. -/
def lateAbortActions : List Action :=
  .uploadPart 0 1 "a" 3 :: List.replicate 5 (.step 0 true) ++
    .completeMultipartUpload 0 (some [⟨some 1, some "a"⟩]) :: List.replicate 10 (.step 0 true) ++
    .abortMultipartUpload 0 :: List.replicate 9 (.step 0 true)

/-- An abort that comes after the completion unlinks the data of the object. -/
theorem late_abort_releases_object :
    ¬ ∀ w, Reachable next (fun _ _ => True) start w → ReleasedOnce w := by
  intro hall
  obtain ⟨w, honce, hobjects, hunlinked⟩ := exists_of_forall hall
    (fun w => w.objects = [[0]] ∧ w.unlinked = [0]) lateAbortActions (by decide +kernel)
  have hnot := honce.2 [0] (by simp [hobjects]) 0 (by simp)
  simp [hunlinked] at hnot

end UhCore.Entrypoint.Multipart
