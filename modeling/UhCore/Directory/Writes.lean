import UhCore.Directory.Sessions

/-!
What the scripts of the sessions write, whatever they read, and what their
statements do to the rows that are not collected.
-/

namespace UhCore.Directory

open ReadCommitted Option Script KeyMap

/-- What clients write: they mark rows as deleted and insert rows under
numbers they have drawn. -/
def ClientWrite (drawn : List Nat) : Write → Prop
  | .markDeleted _ _ | .setVersioning _ _ => True
  | .insertObject id row => id ∈ drawn ∧ row.status = .normal
  | _ => False

def ClientWrites (drawn : List Nat) (writes : List Write) : Prop :=
  ∀ write ∈ writes, ClientWrite drawn write

theorem ClientWrite.draw {drawn : List Nat} {write : Write} (h : ClientWrite drawn write)
    (n : Nat) : ClientWrite (n :: drawn) write := by
  cases write with
  | insertObject id row => exact ⟨List.mem_cons_of_mem n h.1, h.2⟩
  | _ => exact h

theorem ClientWrites.append {drawn : List Nat} {writes : List Write} {write : Write}
    (h : ClientWrites drawn writes) (hwrite : ClientWrite drawn write) :
    ClientWrites drawn (writes ++ [write]) := by
  intro w hw
  rcases List.mem_append.mp hw with hw | hw
  · exact h w hw
  · exact List.mem_singleton.mp hw ▸ hwrite

section Scripts

variable {drawn : List Nat} {writes : List Write} {bucket name : String} {address : List UInt8}
  {size : Nat} {etag : Option String}

theorem ends_vrmGetObject {Q : List Nat → List Write → Option ObjectResult → Prop}
    (h : ∀ found, Q drawn writes found) : Script.Ends Q drawn writes (vrmGetObject bucket name) := by
  rw [vrmGetObject, ends_bind, vrmGetBucketInfo, ends_query]
  intro t
  cases t.versioning bucket <;> exact fun _ _ => h _

theorem ends_displace {Q : List Nat → List Write → Unit → Prop} {found : Option ObjectResult}
    (h : ClientWrites drawn writes) (hQ : ∀ writes, ClientWrites drawn writes → Q drawn writes ()) :
    Script.Ends Q drawn writes (displace found) := by
  cases found with
  | none => exact hQ _ h
  | some object => exact hQ _ (h.append trivial)

theorem ends_insertObject {Q : List Nat → List Write → Nat → Prop} {sticky : Bool}
    (h : ClientWrites drawn writes)
    (hQ : ∀ drawn writes id, ClientWrites drawn writes → Q drawn writes id) :
    Script.Ends Q drawn writes (insertObject bucket name address size etag sticky) := by
  intro id
  refine hQ _ _ _ (ClientWrites.append (fun w hw => (h w hw).draw id) ?_)
  exact ⟨by simp, rfl⟩

theorem ends_vrmPutObject {Q : List Nat → List Write → PutResult → Prop}
    (h : ClientWrites drawn writes)
    (hQ : ∀ drawn writes result, ClientWrites drawn writes → Q drawn writes result) :
    Script.Ends Q drawn writes (vrmPutObject bucket name address size etag) := by
  rw [vrmPutObject, ends_bind, vrmGetBucketInfo, ends_query]
  intro t
  cases t.versioning bucket with
  | disabled | suspended =>
    rw [ends_bind]
    refine ends_vrmGetObject fun found => ?_
    rw [ends_bind]
    refine ends_displace h fun writes h' => ?_
    rw [ends_bind]
    exact ends_insertObject h' fun _ _ _ h' => hQ _ _ _ h'
  | enabled =>
    rw [ends_bind]
    exact ends_insertObject h fun _ _ _ h' => hQ _ _ _ h'

theorem ends_vrmDeleteObject {Q : List Nat → List Write → DeleteResult → Prop}
    (h : ClientWrites drawn writes)
    (hQ : ∀ drawn writes result, ClientWrites drawn writes → Q drawn writes result) :
    Script.Ends Q drawn writes (vrmDeleteObject bucket name) := by
  have hmark : ∀ sticky, Script.Ends Q drawn writes (do
      let marker ← vrmPutObject bucket name [] 0 none
      exec (.markDeleted marker.id sticky)
      return ⟨true, some marker.id⟩) := by
    intro sticky
    rw [ends_bind]
    exact ends_vrmPutObject h fun _ _ _ h' => hQ _ _ _ (h'.append trivial)
  rw [vrmDeleteObject, ends_bind, vrmGetBucketInfo, ends_query]
  intro t
  rw [ends_bind]
  refine ends_vrmGetObject fun found => ?_
  cases found with
  | none => trivial
  | some object =>
    by_cases hstat : object.status = .deleted
    · simp only [hstat, if_true]
      trivial
    · simp only [hstat, if_false]
      cases t.versioning bucket with
      | disabled => exact hQ _ _ _ (h.append trivial)
      | enabled => exact hmark (some true)
      | suspended =>
        by_cases hsticky : object.sticky = true
        · simp only [hsticky, if_true]
          exact hmark (some true)
        · simp only [hsticky]
          exact hQ _ _ _ (h.append trivial)

theorem Request.ends (request : Request) :
    Script.Ends (fun drawn writes _ => ClientWrites drawn writes) [] [] request.script := by
  have hnil : ClientWrites [] [] := by simp [ClientWrites]
  cases request with
  | putObject bucket name address size etag =>
    rw [Request.script, ends_bind]
    exact ends_vrmPutObject hnil fun _ _ _ h => h
  | deleteObject bucket name =>
    rw [Request.script, ends_bind]
    exact ends_vrmDeleteObject hnil fun _ _ _ h => h
  | deleteObjectVersion bucket name version =>
    rw [Request.script, vrmDeleteObjectVersion, ends_bind, ends_bind,
      vrmGetObjectByVersion, ends_query]
    intro t
    cases t.objects.findLast _ with
    | none => trivial
    | some entry => exact hnil.append trivial
  | deleteObjectNullVersion bucket name =>
    rw [Request.script, vrmDeleteObjectNullVersion, ends_bind, ends_bind,
      ends_anyOf]
    intro t choice
    split
    · trivial
    · exact hnil.append trivial
  | setBucketVersioning bucket versioning => exact hnil.append trivial

theorem ObjectQuery.ends (query : ObjectQuery) :
    Script.Ends (fun _ writes _ => writes = []) [] [] query.script := by
  unfold ObjectQuery.script
  split
  · exact fun _ _ => rfl
  · exact ends_vrmGetObject fun _ => rfl

theorem vrmNextDeleted_ends :
    Script.Ends (fun _ writes claim =>
      writes = claim.toList.map fun target : ToDelete => Write.markCollected target.id)
      [] [] vrmNextDeleted := by
  rw [vrmNextDeleted, ends_bind, ends_anyOf]
  intro t choice
  split <;> rfl

theorem vrmIncReference_ends (id : Nat) :
    Script.Ends (fun _ writes _ => writes = [.incReference id]) [] [] (vrmIncReference id) := by
  rw [vrmIncReference, ends_bind, ends_query]
  intro t
  split
  · rfl
  · trivial

theorem vrmDecReference_ends (id : Nat) :
    Script.Ends (fun _ writes _ => writes = [.decReference id]) [] [] (vrmDecReference id) := by
  rw [vrmDecReference, ends_bind, ends_query]
  intro t
  split
  · rfl
  · trivial

end Scripts

/-- There is a row that is not collected. -/
def LiveIn (t : Tables) (id : Nat) : Prop :=
  ∃ row, t.objects.lookup id = some row ∧ row.status ≠ .collected

/-- The statement changes no collected row. -/
def Write.SparesCollected (t : Tables) : Write → Prop
  | .markDeleted id _ => ∀ row ∈ t.objects.lookup id, row.status ≠ .collected
  | _ => True

instance (t : Tables) (write : Write) : Decidable (write.SparesCollected t) := by
  cases write <;> unfold Write.SparesCollected <;> infer_instance

def Write.ClaimsDeleted (t : Tables) : Write → Prop
  | .markCollected id => ∃ row ∈ t.objects.lookup id, row.status = .deleted
  | _ => True

instance (t : Tables) (write : Write) : Decidable (write.ClaimsDeleted t) := by
  cases write <;> unfold Write.ClaimsDeleted <;> infer_instance

section Writes

variable {t t' : Tables} {write : Write} {id : Nat} {writes : List Write} {drawn : List Nat}

theorem LiveIn.of_apply (happly : t.apply write = some t') (hspares : write.SparesCollected t)
    (h : LiveIn t' id) : LiveIn t id ∨ ∃ row, write = .insertObject id row := by
  obtain ⟨row', hrow', hlive⟩ := h
  cases write with
  | markDeleted target sticky =>
    cases happly
    simp only [lookup_modify] at hrow'
    obtain ⟨row, hrow, rfl⟩ := map_eq_some_iff.mp hrow'
    refine Or.inl ⟨row, hrow, ?_⟩
    split at hlive
    case isTrue heq => exact hspares row (heq ▸ hrow)
    case isFalse => exact hlive
  | markCollected target =>
    cases happly
    simp only [lookup_modify] at hrow'
    obtain ⟨row, hrow, rfl⟩ := map_eq_some_iff.mp hrow'
    refine Or.inl ⟨row, hrow, ?_⟩
    split at hlive
    · exact absurd rfl hlive
    · exact hlive
  | insertObject target row =>
    cases happly
    simp only [lookup_insert] at hrow'
    split at hrow'
    case isTrue heq => exact Or.inr ⟨row, by rw [heq]⟩
    case isFalse => exact Or.inl ⟨row', hrow', hlive⟩
  | deleteObject target =>
    simp only [Tables.apply] at happly
    split at happly
    · cases happly
      simp only [lookup_erase] at hrow'
      split at hrow'
      · cases hrow'
      · exact Or.inl ⟨row', hrow', hlive⟩
    · cases happly
  | incReference target =>
    simp only [Tables.apply] at happly
    split at happly
    · cases happly
      exact Or.inl ⟨row', hrow', hlive⟩
    · cases happly
  | decReference target | setVersioning target versioning =>
    cases happly
    exact Or.inl ⟨row', hrow', hlive⟩

/-- The statement cannot make a row live. -/
def Write.isQuiet : Write → Bool
  | .markDeleted _ _ | .insertObject _ _ => false
  | _ => true

theorem LiveIn.of_quiet (hquiet : ∀ write ∈ writes, write.isQuiet = true)
    (happly : Transaction.applyWrites Tables.apply t writes = some t') (h : LiveIn t' id) :
    LiveIn t id := by
  induction writes generalizing t with
  | nil =>
    cases happly
    exact h
  | cons write rest ih =>
    obtain ⟨mid, hmid, hrest⟩ := bind_eq_some_iff.mp happly
    have hwrite := hquiet write (by simp)
    have hlive : LiveIn mid id := ih (fun w hw => hquiet w (by simp [hw])) hrest
    cases write with
    | markDeleted | insertObject => cases hwrite
    | markCollected | deleteObject | incReference | decReference | setVersioning =>
      rcases hlive.of_apply hmid trivial with hlive | ⟨row, heq⟩
      · exact hlive
      · cases heq

theorem not_liveIn_markCollected (happly : t.apply (.markCollected id) = some t') :
    ¬ LiveIn t' id := by
  rintro ⟨row', hrow', hlive⟩
  cases happly
  simp only [lookup_modify, if_true] at hrow'
  obtain ⟨row, _, rfl⟩ := map_eq_some_iff.mp hrow'
  exact hlive rfl

theorem collected_of_apply (hclient : ClientWrite drawn write) (happly : t.apply write = some t')
    {row' : ObjectRow} (hrow' : t'.objects.lookup id = some row')
    (hstat : row'.status = .collected) :
    ∃ row, t.objects.lookup id = some row ∧ row.status = .collected := by
  cases write with
  | markDeleted target sticky =>
    cases happly
    simp only [lookup_modify] at hrow'
    obtain ⟨row, hrow, rfl⟩ := map_eq_some_iff.mp hrow'
    refine ⟨row, hrow, ?_⟩
    split at hstat
    · cases hstat
    · exact hstat
  | insertObject target row =>
    cases happly
    simp only [lookup_insert] at hrow'
    split at hrow'
    · cases hrow'
      rw [hclient.2] at hstat
      cases hstat
    · exact ⟨row', hrow', hstat⟩
  | setVersioning bucket versioning =>
    cases happly
    exact ⟨row', hrow', hstat⟩
  | markCollected | deleteObject | incReference | decReference => exact hclient.elim

theorem Write.SparesCollected.of_apply {later : Write} (hclient : ClientWrite drawn write)
    (happly : t.apply write = some t') (h : later.SparesCollected t) :
    later.SparesCollected t' := by
  cases later with
  | markDeleted target sticky =>
    intro row' hrow' hstat
    obtain ⟨row, hrow, hcollected⟩ := collected_of_apply hclient happly hrow' hstat
    exact h row hrow hcollected
  | _ => trivial

/-- After a client's transaction the rows that are not collected are those of
before and new ones under numbers it has drawn. -/
theorem LiveIn.of_commit (hclient : ClientWrites drawn writes)
    (hspares : ∀ write ∈ writes, write.SparesCollected t)
    (happly : Transaction.applyWrites Tables.apply t writes = some t') (h : LiveIn t' id) :
    LiveIn t id ∨ id ∈ drawn := by
  induction writes generalizing t with
  | nil =>
    cases happly
    exact Or.inl h
  | cons write rest ih =>
    obtain ⟨mid, hmid, hrest⟩ := bind_eq_some_iff.mp happly
    have hwrite := hclient write (by simp)
    have hspare := hspares write (by simp)
    rcases ih (fun w hw => hclient w (by simp [hw]))
      (fun w hw => (hspares w (by simp [hw])).of_apply hwrite hmid) hrest with hlive | hdrawn
    · rcases hlive.of_apply hmid hspare with hlive | ⟨row, rfl⟩
      · exact Or.inl hlive
      · exact Or.inr hwrite.1
    · exact Or.inr hdrawn

theorem ClientWrite.keeps (hclient : ClientWrite drawn write) (happly : t.apply write = some t') :
    t'.refs = t.refs ∧ ∀ id, LiveIn t id → LiveIn t' id := by
  cases write with
  | markDeleted target sticky =>
    cases happly
    refine ⟨rfl, ?_⟩
    rintro id ⟨row, hrow, hstat⟩
    by_cases heq : id = target
    · exact ⟨{ row with status := .deleted, sticky := sticky.getD row.sticky },
        by simp [← heq, hrow], by simp⟩
    · exact ⟨row, by simp [heq, hrow], hstat⟩
  | insertObject target new =>
    cases happly
    refine ⟨rfl, ?_⟩
    rintro id ⟨row, hrow, hstat⟩
    by_cases heq : id = target
    · exact ⟨new, by simp [lookup_insert, heq], by simp [hclient.2]⟩
    · exact ⟨row, by simp [lookup_insert, heq, hrow], hstat⟩
  | setVersioning bucket versioning =>
    cases happly
    exact ⟨rfl, fun _ h => h⟩
  | markCollected | deleteObject | incReference | decReference => exact hclient.elim

theorem ClientWrites.keeps (hclient : ClientWrites drawn writes)
    (happly : Transaction.applyWrites Tables.apply t writes = some t') :
    t'.refs = t.refs ∧ ∀ id, LiveIn t id → LiveIn t' id := by
  induction writes generalizing t with
  | nil =>
    cases happly
    exact ⟨rfl, fun _ h => h⟩
  | cons write rest ih =>
    obtain ⟨mid, hmid, hrest⟩ := bind_eq_some_iff.mp happly
    obtain ⟨hrefs, hlive⟩ := ih (fun w hw => hclient w (by simp [hw])) hrest
    obtain ⟨hrefs', hlive'⟩ := (hclient write (by simp)).keeps hmid
    exact ⟨hrefs.trans hrefs', fun id hid => hlive id (hlive' id hid)⟩

end Writes

end UhCore.Directory
