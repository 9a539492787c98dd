import UhCore.Dedupe.Fragmentation

/-!
What the walk with two cursors computes: every unstored entry gets the one
fragment under which its part of the buffer was written. With that, the
address made of the list reads back the data of all its entries.
-/

namespace UhCore.Dedupe

open Memory List Fragment

theorem DdFragment.type_cases (f : DdFragment) : f.type = .stored ∨ f.type = .unstored := by
  cases f.type with
  | stored => exact Or.inl rfl
  | unstored => exact Or.inr rfl

/-- The fragments under which the unstored entries are written, when the first
of them is at offset `start` of a buffer at `base`. -/
def writtenFragments (base : Nat) : Nat → List DdFragment → Address
  | _, [] => []
  | start, f :: rest =>
    if f.type ≠ .unstored then writtenFragments base start rest
    else ⟨base + start, f.data.length⟩ :: writtenFragments base (start + f.data.length) rest

def assignAddresses (base : Nat) : Nat → List DdFragment → List DdFragment
  | _, [] => []
  | start, f :: rest =>
    if f.type ≠ .unstored then f :: assignAddresses base start rest
    else { f with addr := [⟨base + start, f.data.length⟩] } ::
      assignAddresses base (start + f.data.length) rest

theorem computeAddress_unstoredOffsets (base : Nat) (frags : List DdFragment) (start : Nat) :
    computeAddress (base + ·) (start + (unstoredBuffer frags).length)
      (unstoredOffsets start frags) = writtenFragments base start frags := by
  induction frags generalizing start with
  | nil => rfl
  | cons f rest ih =>
    rcases f.type_cases with htype | htype
    · simp only [unstoredOffsets, unstoredBuffer, writtenFragments, htype, ne_eq,
        reduceCtorEq, not_false_eq_true, if_true]
      exact ih start
    · have hrest := ih (start + f.data.length)
      simp only [unstoredOffsets, unstoredBuffer, writtenFragments, htype, ne_eq,
        not_true_eq_false, if_false, length_append]
      rw [← add_assoc, ← hrest]
      have hhead : ∀ (offs : Nat) (l : List DdFragment),
          unstoredOffsets offs l = [] ∧ (unstoredBuffer l).length = 0 ∨
            ∃ tail, unstoredOffsets offs l = offs :: tail := by
        intro offs l
        induction l with
        | nil => exact Or.inl ⟨rfl, rfl⟩
        | cons g l ihl =>
          rcases g.type_cases with hg | hg
          · simpa [unstoredOffsets, unstoredBuffer, hg] using ihl
          · exact Or.inr ⟨unstoredOffsets (offs + g.data.length) l, by
              simp [unstoredOffsets, hg]⟩
      rcases hhead (start + f.data.length) rest with ⟨hnil, hzero⟩ | ⟨tail, htail⟩
      · rw [hnil, hzero]
        simp [computeAddress]
      · rw [htail]
        simp [computeAddress]

/-- The cursor stands behind a written fragment, or before the first. -/
def Cursor.AtEnd (c : Cursor) : Prop := ∀ f, c.frag = some f → c.offset = f.size

variable {c : Cursor}

theorem Cursor.AtEnd.current (h : c.AtEnd) (bufferAddress : Address) :
    c.current bufferAddress = c.fetch bufferAddress := by
  unfold Cursor.current
  cases hfrag : c.frag with
  | none => rfl
  | some f => simp [h f hfrag]

/-- An entry whose written fragment is the next one of the walk takes that
fragment as a whole. -/
theorem fillAddress_whole {bufferAddress : Address} (hend : c.AtEnd) {pointer size : Nat}
    (hsize : 0 < size) (hnext : bufferAddress[c.id]? = some ⟨pointer, size⟩) (fuel : Nat) :
    fillAddress bufferAddress (fuel + 1) size c [] =
      .ok ([⟨pointer, size⟩], ⟨some ⟨pointer, size⟩, size, c.id + 1⟩) := by
  have hfetch : c.current bufferAddress =
      .ok (⟨pointer, size⟩, ⟨some ⟨pointer, size⟩, 0, c.id + 1⟩) := by
    rw [hend.current]
    simp [Cursor.fetch, hnext]
  have hdone : ∀ (n : Nat) (c' : Cursor) (addr : Address),
      fillAddress bufferAddress n 0 c' addr = .ok (addr, c') := by
    intro n c' addr
    cases n <;> simp [fillAddress]
  simp only [fillAddress, hsize.ne', if_false, hfetch, Bind.bind, Except.bind,
    Nat.sub_zero, min_self, zero_add, lt_irrefl, Nat.sub_self, hdone,
    add_zero, nil_append]

def takeFragments : Address → List DdFragment → List DdFragment
  | _, [] => []
  | written, f :: rest =>
    if f.type ≠ .unstored then f :: takeFragments written rest
    else { f with addr := written.head?.toList } :: takeFragments written.tail rest

def unstoredSizes : List DdFragment → List Nat
  | [] => []
  | f :: rest =>
    if f.type ≠ .unstored then unstoredSizes rest else f.data.length :: unstoredSizes rest

variable {frags : List DdFragment} (base start : Nat) {written : Address} {mem : GlobalMemory}

theorem mem_unstoredSizes {n : Nat} (h : n ∈ unstoredSizes frags) :
    ∃ f ∈ frags, n = f.data.length := by
  induction frags with
  | nil => simp [unstoredSizes] at h
  | cons f rest ih =>
    have hrest : n ∈ unstoredSizes rest → ∃ g ∈ f :: rest, n = g.data.length := by
      intro hmem
      obtain ⟨g, hg, hlen⟩ := ih hmem
      exact ⟨g, mem_cons_of_mem _ hg, hlen⟩
    rcases f.type_cases with htype | htype
    · simp only [unstoredSizes, htype, ne_eq, reduceCtorEq, not_false_eq_true, if_true] at h
      exact hrest h
    · simp only [unstoredSizes, htype, ne_eq, not_true_eq_false, if_false, mem_cons] at h
      rcases h with rfl | h
      · exact ⟨f, mem_cons_self, rfl⟩
      · exact hrest h

theorem frags_eq_nil (hstore : getStoredFragments frags = [])
    (hunstored : unstoredSizes frags = []) : frags = [] := by
  cases frags with
  | nil => rfl
  | cons f rest =>
    rcases f.type_cases with htype | htype
    · simp [getStoredFragments, htype] at hstore
    · simp [unstoredSizes, htype] at hunstored

/-- The walk gives every unstored entry its fragment, when the buffer was
written in fragments of the sizes of the entries. -/
theorem computeUnstoredAddresses_take (mem : GlobalMemory) (frags : List DdFragment)
    (hgood : ∀ f ∈ frags, f.Good mem) (bufferAddress : Address) (c : Cursor) (hend : c.AtEnd)
    (hsizes : (bufferAddress.drop c.id).map size = unstoredSizes frags) :
    computeUnstoredAddresses bufferAddress c frags =
      .ok (takeFragments (bufferAddress.drop c.id) frags) := by
  induction frags generalizing c with
  | nil => rfl
  | cons f rest ih =>
    have hf := hgood f mem_cons_self
    have hrest : ∀ g ∈ rest, g.Good mem := by
      intro g hg
      exact hgood g (mem_cons_of_mem _ hg)
    rcases f.type_cases with htype | htype
    · simp only [unstoredSizes, htype, ne_eq, reduceCtorEq, not_false_eq_true, if_true] at hsizes
      simp only [computeUnstoredAddresses, takeFragments, htype, ne_eq, reduceCtorEq,
        not_false_eq_true, if_true, ih hrest c hend hsizes, Bind.bind, Except.bind,
        pure, Except.pure]
    · simp only [unstoredSizes, htype, ne_eq, not_true_eq_false, if_false] at hsizes
      obtain ⟨⟨pointer, size⟩, ws, hdrop, rfl, htail⟩ := map_eq_cons_iff.mp hsizes
      have hnext : bufferAddress[c.id]? = some ⟨pointer, f.data.length⟩ := by
        rw [← head?_drop, hdrop, head?_cons]
      have hdrop' : bufferAddress.drop (c.id + 1) = ws := by
        rw [← drop_drop, hdrop]
        rfl
      have hfill := fillAddress_whole hend hf.nonempty hnext (f.data.length + bufferAddress.length)
      have hend' : Cursor.AtEnd ⟨some ⟨pointer, f.data.length⟩, f.data.length, c.id + 1⟩ := by
        intro g hg
        cases hg
        rfl
      have hwalk := ih hrest ⟨some ⟨pointer, f.data.length⟩, f.data.length, c.id + 1⟩ hend'
        (by rw [hdrop', htail])
      simp only [computeUnstoredAddresses, takeFragments, htype, ne_eq, not_true_eq_false,
        if_false, hf.addr, hfill, hwalk, hdrop, hdrop', Bind.bind, Except.bind, pure,
        Except.pure, head?_cons, Option.toList_some, tail_cons]

theorem writtenFragments_size (frags : List DdFragment) :
    (writtenFragments base start frags).map size = unstoredSizes frags := by
  induction frags generalizing start with
  | nil => rfl
  | cons f rest ih =>
    rcases f.type_cases with htype | htype <;> simp [writtenFragments, unstoredSizes, htype, ih]

theorem takeFragments_written (frags : List DdFragment) :
    takeFragments (writtenFragments base start frags) frags = assignAddresses base start frags := by
  induction frags generalizing start with
  | nil => rfl
  | cons f rest ih =>
    rcases f.type_cases with htype | htype <;>
      simp [writtenFragments, takeFragments, assignAddresses, htype, ih]

theorem computeUnstoredAddresses_eq (mem : GlobalMemory) (base : Nat)
    (frags : List DdFragment) (hgood : ∀ f ∈ frags, f.Good mem) (bufferAddress : Address)
    (start : Nat) (c : Cursor) (hend : c.AtEnd)
    (hwrite : bufferAddress.drop c.id = writtenFragments base start frags) :
    computeUnstoredAddresses bufferAddress c frags = .ok (assignAddresses base start frags) := by
  have hsizes := (congrArg (List.map size) hwrite).trans
    (writtenFragments_size base start frags)
  rw [computeUnstoredAddresses_take mem frags hgood bufferAddress c hend hsizes, hwrite,
    takeFragments_written]

/-- The sizes of the fragments do not depend on where the buffer was placed. -/
theorem computeAddress_size (place place' : Nat → Nat) (dataSize : Nat) (offsets : List Nat) :
    (computeAddress place dataSize offsets).map size =
      (computeAddress place' dataSize offsets).map size := by
  induction offsets with
  | nil => rfl
  | cons offset rest ih =>
    cases rest with
    | nil => rfl
    | cons next rest =>
      simp only [computeAddress, map_cons, cons.injEq, true_and]
      exact ih

theorem computeAddress_unstoredSizes (place : Nat → Nat) (frags : List DdFragment) :
    (computeAddress place (unstoredBuffer frags).length (unstoredOffsets 0 frags)).map
      size = unstoredSizes frags := by
  have hbase := computeAddress_unstoredOffsets 0 frags 0
  rw [zero_add] at hbase
  rw [computeAddress_size place (0 + ·), hbase, writtenFragments_size]

/-- Up to their order, the fragments of the address are the stored ones and the
written ones. -/
theorem makeAddress_takeFragments (hsizes : written.map size = unstoredSizes frags) :
    (makeAddress (takeFragments written frags)).Perm (getStoredFragments frags ++ written) := by
  induction frags generalizing written with
  | nil =>
    obtain rfl : written = [] := map_eq_nil_iff.mp hsizes
    exact List.Perm.refl _
  | cons f rest ih =>
    rcases f.type_cases with htype | htype
    · simp only [unstoredSizes, htype, ne_eq, reduceCtorEq, not_false_eq_true, if_true] at hsizes
      have hrest := (ih hsizes).cons f.storedFragment
      simpa [takeFragments, makeAddress, getStoredFragments, htype] using hrest
    · simp only [unstoredSizes, htype, ne_eq, not_true_eq_false, if_false] at hsizes
      obtain ⟨w, ws, rfl, _, htail⟩ := map_eq_cons_iff.mp hsizes
      have hrest := ((ih htail).cons w).trans perm_middle.symm
      simpa [takeFragments, makeAddress, getStoredFragments, htype] using hrest

theorem readAddress_assigned (base : Nat) (frags : List DdFragment)
    (hstore : ∀ f ∈ frags, f.type = .stored → load mem f.storedPointer f.storedSize = some f.data)
    (start : Nat)
    (hwrite : load mem (base + start) (unstoredBuffer frags).length = some (unstoredBuffer frags)) :
    readAddress mem (makeAddress (assignAddresses base start frags)) =
      some (frags.flatMap DdFragment.data) := by
  induction frags generalizing start with
  | nil => rfl
  | cons f rest ih =>
    have hrest : ∀ g ∈ rest, g.type = .stored →
        load mem g.storedPointer g.storedSize = some g.data := by
      intro g hg
      exact hstore g (mem_cons_of_mem _ hg)
    rcases f.type_cases with htype | htype
    · have hone := hstore f mem_cons_self htype
      simp only [unstoredBuffer, htype, ne_eq, reduceCtorEq, not_false_eq_true, if_true] at hwrite
      simp only [assignAddresses, htype, ne_eq, reduceCtorEq, not_false_eq_true, if_true,
        makeAddress, flatMap_cons]
      exact readAddress_cons hone (ih hrest start hwrite)
    · simp only [unstoredBuffer, htype, ne_eq, not_true_eq_false, if_false, length_append] at hwrite
      have hone := load_sub 0 f.data.length hwrite (by omega)
      rw [add_zero, drop_zero, take_left] at hone
      have hmore := load_sub f.data.length (unstoredBuffer rest).length hwrite (le_refl _)
      rw [drop_left, take_length, add_assoc] at hmore
      simp only [assignAddresses, htype, ne_eq, not_true_eq_false, if_false, makeAddress,
        flatMap_cons, singleton_append]
      exact readAddress_cons hone (ih hrest _ hmore)

theorem assignAddresses_of_stored (frags : List DdFragment) (h : ∀ f ∈ frags, f.type = .stored) :
    assignAddresses base start frags = frags := by
  induction frags generalizing start with
  | nil => rfl
  | cons f rest ih =>
    have hrest : ∀ g ∈ rest, g.type = .stored := by
      intro g hg
      exact h g (mem_cons_of_mem _ hg)
    simp [assignAddresses, h f mem_cons_self, ih start hrest]

theorem stored_of_unstoredBuffer_nil (hgood : ∀ f ∈ frags, f.Good mem)
    (hnil : (unstoredBuffer frags).length = 0) : ∀ f ∈ frags, f.type = .stored := by
  induction frags with
  | nil => simp
  | cons f rest ih =>
    have hpos := (hgood f mem_cons_self).nonempty
    have hrest : ∀ g ∈ rest, g.Good mem := by
      intro g hg
      exact hgood g (mem_cons_of_mem _ hg)
    rcases f.type_cases with htype | htype
    · simp only [unstoredBuffer, htype, ne_eq, reduceCtorEq, not_false_eq_true, if_true] at hnil
      intro g hg
      rcases mem_cons.mp hg with rfl | hg
      · exact htype
      · exact ih hrest hnil g hg
    · simp only [unstoredBuffer, htype, ne_eq, not_true_eq_false, if_false, length_append] at hnil
      omega

theorem unstoredBuffer_of_stored (h : ∀ f ∈ frags, f.type = .stored) :
    unstoredBuffer frags = [] := by
  induction frags with
  | nil => rfl
  | cons f rest ih =>
    simp only [unstoredBuffer, h f mem_cons_self, ne_eq, reduceCtorEq, not_false_eq_true, if_true]
    exact ih fun g hg => h g (mem_cons_of_mem _ hg)

theorem unstoredSizes_eq_nil : unstoredSizes frags = [] ↔ ∀ f ∈ frags, f.type = .stored := by
  induction frags with
  | nil => simp [unstoredSizes]
  | cons f rest ih =>
    rcases f.type_cases with htype | htype <;> simp [unstoredSizes, htype, ih]

theorem makeAddress_of_stored (h : ∀ f ∈ frags, f.type = .stored) :
    makeAddress frags = getStoredFragments frags := by
  induction frags with
  | nil => rfl
  | cons f rest ih =>
    have hf := h f mem_cons_self
    have hrest := ih fun g hg => h g (mem_cons_of_mem _ hg)
    simp [makeAddress, getStoredFragments, hf, hrest]

/-- Flushing the entries to the fragment set does not fail once every unstored
entry has a written fragment. -/
theorem flushFragmentsInternal_take (hsizes : written.map size = unstoredSizes frags) :
    ∃ calls, flushFragmentsInternal (takeFragments written frags) = .ok calls := by
  induction frags generalizing written with
  | nil => exact ⟨[], rfl⟩
  | cons f rest ih =>
    rcases f.type_cases with htype | htype
    · simp only [unstoredSizes, htype, ne_eq, reduceCtorEq, not_false_eq_true, if_true] at hsizes
      obtain ⟨calls, hcalls⟩ := ih hsizes
      exact ⟨.markDeduplication f.storedFragment :: calls, by
        simp [takeFragments, flushFragmentsInternal, htype, hcalls, Bind.bind, Except.bind,
          pure, Except.pure]⟩
    · simp only [unstoredSizes, htype, ne_eq, not_true_eq_false, if_false] at hsizes
      obtain ⟨w, ws, rfl, _, htail⟩ := map_eq_cons_iff.mp hsizes
      obtain ⟨calls, hcalls⟩ := ih htail
      exact ⟨.insert w.pointer (f.data.take w.size) f.header f.hint :: calls, by
        simp [takeFragments, flushFragmentsInternal, htype, hcalls, Bind.bind, Except.bind,
          pure, Except.pure]⟩

theorem flushFragmentsInternal_ok (frags : List DdFragment) :
    ∃ calls, flushFragmentsInternal (assignAddresses base start frags) = .ok calls := by
  rw [← takeFragments_written]
  exact flushFragmentsInternal_take (writtenFragments_size base start frags)

end UhCore.Dedupe
