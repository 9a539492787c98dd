import UhCore.Proxy.ManagerInvariant

/-!
The way of an object through the storage: what the calls of a sink wrote is what
the calls of a source return, however both are cut.
-/

namespace UhCore.Proxy

open Entrypoint (Text)
open List Disk

variable {σ : Type} (dv : DataView σ)

namespace DiskSource

variable (storage : σ) (h : ObjectHandle)

def get (r : DiskSource) (room : Nat) : Text × DiskSource :=
  let asking := r.asking h room
  let data := dv.readAddress storage (asking.reading.getD [])
  (data, asking.answered data)

def gets : DiskSource → List Nat → List Text × DiskSource
  | r, [] => ([], r)
  | r, room :: rooms =>
    let (data, r) := get dv storage h r room
    let (rest, r) := gets r rooms
    (data :: rest, r)

/-- The loop of `async_write`, in which what was read last is in the buffer
`rbuf`. The socket may take it as late as when the next part was read. -/
def sendLoop (chunkSize : Nat) : Nat → (Bool → Text) → Bool → DiskSource → Option Text
  | 0, _, _, _ => none
  | n + 1, buf, rbuf, r =>
    if buf rbuf = [] then some []
    else
      let (data, r) := get dv storage h r chunkSize
      let buf := Function.update buf (!rbuf) data
      (sendLoop chunkSize n buf (!rbuf) r).map (buf rbuf ++ ·)

def asyncWrite (chunkSize : Nat) (r : DiskSource) : Option Text :=
  let (data, r) := get dv storage h r chunkSize
  sendLoop dv storage h chunkSize (h.address.dataSize + 1) (fun _ => data) false r

/-- The source has returned what it was asked for. -/
structure At (pos : Nat) (r : DiskSource) : Prop where
  follows : Follows h r
  idle : r.reading = none
  requested : r.requested = pos

variable {dv storage h} {r : DiskSource} {pos : Nat}

theorem At.get (hr : At h pos r) (hs : Stored dv storage h) (room : Nat) :
    (r.get dv storage h room).1 = (h.content.drop pos).take room ∧
      At h (pos + room) (r.get dv storage h room).2 := by
  obtain ⟨hf, hidle, rfl⟩ := hr
  have hask := hf.asking hs hidle room
  have hafter : Follows h (r.get dv storage h room).2 := by
    cases hread : (r.asking h room).reading with
    | some addr =>
      have hans := hask.answered hs hread
      rwa [← Option.getD_some (a := addr) (b := []), ← hread] at hans
    | none =>
      refine ⟨hask.offset, hask.left, fun _ => ?_, nofun⟩
      change r.received ++ dv.readAddress storage ((r.asking h room).reading.getD []) = _
      rw [hread]
      exact (append_nil _).trans (hask.returned hread)
  refine ⟨?_, hafter, rfl, rfl⟩
  have hrecv := hafter.returned rfl
  change r.received ++ (r.get dv storage h room).1 = h.content.take (r.requested + room) at hrecv
  rwa [hf.returned hidle, take_add, append_cancel_left_eq] at hrecv

theorem At.gets (hr : At h pos r) (hs : Stored dv storage h) (rooms : List Nat) :
    (r.gets dv storage h rooms).1.flatten = (h.content.drop pos).take rooms.sum ∧
      At h (pos + rooms.sum) (r.gets dv storage h rooms).2 := by
  induction rooms generalizing r pos with
  | nil => exact ⟨by simp [DiskSource.gets], hr⟩
  | cons room rooms ih =>
    obtain ⟨hdata, hget⟩ := hr.get hs room
    obtain ⟨hrest, hgets⟩ := ih hget
    rw [sum_cons, ← add_assoc, take_add, drop_drop]
    exact ⟨congrArg₂ (· ++ ·) hdata hrest, hgets⟩

/-- The source is one part ahead of the socket. -/
theorem At.sendLoop (hs : Stored dv storage h) {chunkSize n : Nat} (hchunk : 0 < chunkSize)
    {buf : Bool → Text} {rbuf : Bool} (hr : At h (pos + chunkSize) r)
    (hbuf : buf rbuf = (h.content.drop pos).take chunkSize) (hn : h.content.length - pos < n) :
    r.sendLoop dv storage h chunkSize n buf rbuf = some (h.content.drop pos) := by
  induction n generalizing r pos buf rbuf with
  | zero => exact absurd hn (Nat.not_lt_zero _)
  | succ n ih =>
    unfold DiskSource.sendLoop
    by_cases hempty : buf rbuf = []
    · rw [if_pos hempty]
      rw [hbuf, take_eq_nil_iff] at hempty
      rw [hempty.resolve_left hchunk.ne']
    · have hlt : pos < h.content.length := by
        by_contra hge
        rw [hbuf, drop_of_length_le (Nat.le_of_not_lt hge), take_nil] at hempty
        exact hempty rfl
      obtain ⟨hdata, hget⟩ := hr.get hs chunkSize
      have hnext : Function.update buf (!rbuf) (r.get dv storage h chunkSize).1 (!rbuf) = _ :=
        (Function.update_self ..).trans hdata
      have hrest := ih hget hnext (by omega)
      have hkept : Function.update buf (!rbuf) (r.get dv storage h chunkSize).1 rbuf = buf rbuf :=
        Function.update_of_ne (by simp) ..
      rw [if_neg hempty]
      dsimp only
      rw [hrest, hkept, hbuf, Option.map_some, ← drop_drop, take_append_drop]

theorem At.asyncWrite (hr : At h pos r) (hs : Stored dv storage h) {chunkSize : Nat}
    (hchunk : 0 < chunkSize) :
    r.asyncWrite dv storage h chunkSize = some (h.content.drop pos) := by
  obtain ⟨hdata, hget⟩ := hr.get hs chunkSize
  refine hget.sendLoop hs hchunk hdata ?_
  rw [← hs.content, DataView.readAddress, length_map, length_places]
  omega

end DiskSource

/-- The calls of a new sink with these spans. -/
def storeSpans (s : Disk σ) (spans : List Text) : Disk σ :=
  spans.foldl (fun t data => t.sinkPut dv s.created data false) s.newSink

theorem stored_storeSpans (s : Disk σ) (spans : List Text) :
    let t := storeSpans dv s spans
    Stored dv t.storage (t.handles s.created) ∧ (t.handles s.created).content = spans.flatten := by
  induction spans using reverseRecOn with
  | nil =>
    have hnew : s.newSink.handles s.created = ⟨[], 0, []⟩ := Function.update_self ..
    dsimp only [storeSpans, foldl_nil]
    rw [hnew]
    exact ⟨⟨rfl, nofun⟩, rfl⟩
  | append_singleton spans data ih =>
    obtain ⟨hs, hcontent⟩ := ih
    have hput : storeSpans dv s (spans ++ [data]) =
        (storeSpans dv s spans).sinkPut dv s.created data false := foldl_concat ..
    rw [hput, flatten_concat, ← hcontent]
    by_cases hdata : data = []
    · subst hdata
      exact ⟨hs, (append_nil _).symm⟩
    · unfold Disk.sinkPut
      rw [if_neg (by simp [hdata])]
      dsimp only
      rw [Function.update_self]
      exact ⟨hs.write data, rfl⟩

/-- The results of all calls together are the spans together, as far as the
buffers go; a call fills its buffer up to the end of the object, and the loop
sends what is behind the header. -/
theorem stored_object_replayed (dv : DataView σ) (s : Disk σ) (spans : List Text) :
    let t := storeSpans dv s spans
    let h := t.handles s.created
    let r : DiskSource := ⟨s.created, 0, 0, 0, [], none⟩
    (∀ rooms, let before := r.gets dv t.storage h rooms
      before.1.flatten = spans.flatten.take rooms.sum ∧
        ∀ room > 0, let data := (before.2.get dv t.storage h room).1
          (data.length < room → before.1.flatten ++ data = spans.flatten) ∧
          (data = [] → before.1.flatten = spans.flatten)) ∧
      ∀ headerSize, ∀ chunkSize > 0,
        (r.get dv t.storage h headerSize).2.asyncWrite dv t.storage h chunkSize =
          some (spans.flatten.drop headerSize) := by
  intro t h r
  obtain ⟨hs, hcontent⟩ := stored_storeSpans dv s spans
  have hr : DiskSource.At h 0 r := ⟨follows_new h _, rfl, rfl⟩
  rw [← hcontent]
  refine ⟨fun rooms => ?_, fun headerSize chunkSize hchunk => ?_⟩
  · obtain ⟨hflat, hat⟩ := hr.gets hs rooms
    rw [zero_add] at hat
    refine ⟨hflat, fun room hroom => ?_⟩
    obtain ⟨hdata, -⟩ := hat.get hs room
    have hend : ((h.content.drop rooms.sum).take room).length < room →
        h.content.take rooms.sum ++ (h.content.drop rooms.sum).take room = h.content := by
      intro hlt
      rw [length_take, length_drop] at hlt
      rw [take_of_length_le (l := drop ..) (by rw [length_drop]; omega), take_append_drop]
    rw [hdata, hflat]
    refine ⟨hend, fun hnil => ?_⟩
    rw [hnil, append_nil] at hend
    exact hend hroom
  · obtain ⟨_, hat⟩ := hr.get hs headerSize
    rw [zero_add] at hat
    exact hat.asyncWrite hs hchunk

def sampleStored : Disk Text := storeSpans appending (start [] 0) [['h', 'a'], ['b', 'c']]

theorem stored_object_replayed_pair :
    0 < 2 ∧ ((⟨0, 0, 0, 0, [], none⟩ : DiskSource).get appending sampleStored.storage
      (sampleStored.handles 0) 1).2.asyncWrite appending sampleStored.storage
        (sampleStored.handles 0) 2 = some ['a', 'b', 'c'] :=
  ⟨by decide, (stored_object_replayed appending (start [] 0) [['h', 'a'], ['b', 'c']]).2 1 2
    (by decide)⟩

end UhCore.Proxy
