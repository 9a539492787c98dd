import UhCore.Entrypoint.Upload

/-!
The reference counts that a failed upload leaves. Every call is described by
the references it has taken when it returns and when it throws; a request that
fails leaves the counts as they were exactly when it took none, or when the
failing call was the one that `safe_put_object` guards.
-/

namespace UhCore.Entrypoint.Uploads

open Effects Dedupe List

section Counts

variable {ι : Type} (R : StripeRefs ι) {xs ys : Address}

theorem StripeRefs.of_append (xs ys : Address) (t : ι) :
    R.of (xs ++ ys) t = R.of xs t + R.of ys t := by
  simp [StripeRefs.of]

theorem StripeRefs.of_perm (h : xs.Perm ys) (t : ι) : R.of xs t = R.of ys t :=
  (h.map _).sum_eq

variable {addr : Address} (counts : Counts ι) {s s' : Counts ι} {e : Exn} {f : Fragment} {ε : Type}
  {p : Piece} {buffer : List UInt8} {offsets : List Nat} {fr : Fragmentation}

theorem StripeRefs.of_pos (hf : f ∈ addr) (hsize : 0 < f.size) : ∃ t, 0 < R.of addr t := by
  obtain ⟨t, ht⟩ := R.pos f hsize
  have hle : R.refs f t ≤ R.of addr t := single_le_sum (by simp) _ (List.mem_map_of_mem hf)
  exact ⟨t, lt_of_lt_of_le ht hle⟩

def holding (counts : Counts ι) (addr : Address) : Counts ι := fun t => counts t + R.of addr t

theorem holding_nil : holding R counts [] = counts := rfl

theorem holding_append (xs ys : Address) :
    holding R (holding R counts xs) ys = holding R counts (xs ++ ys) := by
  funext t
  simp only [holding, R.of_append, add_assoc]

theorem holding_perm (h : xs.Perm ys) : holding R counts xs = holding R counts ys := by
  funext t
  simp only [holding, R.of_perm h]

theorem holding_eq_iff {counts : Counts ι} (h : ∀ f ∈ addr, 0 < f.size) :
    holding R counts addr = counts ↔ addr = [] := by
  constructor
  · intro heq
    by_contra hne
    obtain ⟨f, hf⟩ := exists_mem_of_ne_nil addr hne
    obtain ⟨t, ht⟩ := R.of_pos hf (h f hf)
    have := congrFun heq t
    simp only [holding] at this
    omega
  · rintro rfl
    rfl

theorem holding_ne {counts : Counts ι} (hf : f ∈ addr) (hsize : 0 < f.size) :
    holding R counts addr ≠ counts := by
  intro heq
  obtain ⟨t, ht⟩ := R.of_pos hf hsize
  have := congrFun heq t
  simp only [holding] at this
  omega

@[simp] theorem returns_take {u : PUnit} :
    Returns (take R addr : Effect (Counts ι) ε PUnit) s u s' ↔ holding R s addr = s' :=
  returns_modify

@[simp] theorem throws_take {e : ε} : ¬ Throws (take R addr : Effect (Counts ι) ε PUnit) s e s' :=
  throws_modify

theorem returns_pieceLink {addr rejected : Address}
    (h : Returns ((p.view R).link addr) s rejected s') :
    p.linkError = none ∧ rejected = addr.filter p.reject ∧
      s' = holding R s (addr.filter fun f => !p.reject f) := by
  simp only [Piece.view, returns_bind, returns_raise, returns_take, returns_pure] at h
  obtain ⟨_, _, ⟨hnone, rfl⟩, _, _, rfl, rfl, rfl⟩ := h
  exact ⟨hnone, rfl, rfl⟩

theorem throws_pieceLink (h : Throws ((p.view R).link addr) s e s') :
    p.linkError = some e ∧ s' = s := by
  simp only [Piece.view, throws_bind, returns_raise, throws_raise, throws_take, throws_pure,
    and_false, exists_false, or_false] at h
  exact ⟨h.1, h.2.symm⟩

theorem returns_pieceWrite (h : Returns ((p.view R).write buffer offsets) s addr s') :
    p.writeError = none ∧ addr = computeAddress p.place buffer.length offsets ∧
      s' = holding R s addr := by
  simp only [Piece.view, returns_bind, returns_raise, returns_take, returns_pure] at h
  obtain ⟨_, _, ⟨hnone, rfl⟩, _, _, rfl, rfl, rfl⟩ := h
  exact ⟨hnone, rfl, rfl⟩

theorem throws_pieceWrite (h : Throws ((p.view R).write buffer offsets) s e s') :
    p.writeError = some e ∧ s' = s := by
  simp only [Piece.view, throws_bind, returns_raise, throws_raise, throws_take, throws_pure,
    and_false, exists_false, or_false] at h
  exact ⟨h.1, h.2.symm⟩

theorem returns_pieceLinked {fr1 : Fragmentation} (hready : fr.Ready p.mem) {s s1 : Counts ι}
    (h : Returns (linkFragments (p.view R) p.toSearchEnv fr) s fr1 s1) :
    fr1.Ready p.mem ∧ fr1.frags = fr.frags.map (markRejected p.reject) ∧
      s1 = holding R s ((getStoredFragments fr.frags).filter fun f => !p.reject f) ∧
      (getStoredFragments fr.frags ≠ [] → p.linkError = none) ∧
      ((getStoredFragments fr.frags).filter p.reject ≠ [] → p.eraseError = none) := by
  rcases returns_linkFragments h with ⟨hempty, rfl, rfl⟩ | ⟨_, rejected, hlink, hrest⟩
  · refine ⟨hready, (map_markRejected_of_none (by rw [hempty]; rfl)).symm, ?_, by simp [hempty],
      by simp [hempty]⟩
    rw [hempty, filter_nil, holding_nil]
  · obtain ⟨hlinked, rfl, rfl⟩ := returns_pieceLink R hlink
    rcases hrest with ⟨hnone, rfl⟩ | ⟨_, herase, rfl⟩
    · exact ⟨hready, (map_markRejected_of_none hnone).symm, rfl, fun _ => hlinked, by simp [hnone]⟩
    · obtain ⟨hready1, hfrags⟩ := hready.handled p.reject
      exact ⟨hready1, hfrags, rfl, fun _ => hlinked, fun _ => herase⟩

theorem throws_linkFragments (h : Throws (linkFragments (p.view R) p.toSearchEnv fr) s e s') :
    getStoredFragments fr.frags ≠ [] ∧ ((p.linkError = some e ∧ s' = s) ∨
      (p.linkError = none ∧ (getStoredFragments fr.frags).filter p.reject ≠ [] ∧
        p.eraseError = some e ∧
        s' = holding R s ((getStoredFragments fr.frags).filter fun f => !p.reject f))) := by
  unfold linkFragments at h
  by_cases hempty : getStoredFragments fr.frags = []
  · simp [hempty] at h
  · refine ⟨hempty, ?_⟩
    rw [if_neg (by simpa using hempty), throws_bind] at h
    rcases h with hlink | ⟨rejected, mid, hlink, hrest⟩
    · exact .inl (throws_pieceLink R hlink)
    · obtain ⟨hlinked, rfl, rfl⟩ := returns_pieceLink R hlink
      unfold handleRejected at hrest
      by_cases hnone : (getStoredFragments fr.frags).filter p.reject = []
      · simp [hnone] at hrest
      · rw [if_neg (by simpa using hnone)] at hrest
        simp only [throws_bind, throws_raise, throws_pure, and_false, exists_false,
          or_false] at hrest
        exact .inr ⟨hlinked, hnone, hrest.1, hrest.2.symm⟩

theorem returns_pieceWritten {fr2 : Fragmentation} (hready : fr.Ready p.mem) {s s2 : Counts ι}
    (h : Returns (flushToStorage (p.view R) fr) s fr2 s2) :
    ∃ written, s2 = holding R s written ∧ fr2.unstoredSize = fr.unstoredSize ∧
      (makeAddress fr2.frags).Perm (getStoredFragments fr.frags ++ written) ∧
      written.map Fragment.size = unstoredSizes fr.frags ∧
      (fr.unstoredSize ≠ 0 → p.writeError = none ∧
        ∃ calls, flushFragmentsInternal fr2.frags = .ok calls) := by
  obtain ⟨written, hsize, hperm, hsizes, hrun⟩ := returns_flushToStorage hready
    (fun _ _ _ _ _ hwrite => (returns_pieceWrite R hwrite).2.1) h
  refine ⟨written, ?_, hsize, hperm, hsizes, ?_⟩
  · rcases hrun with ⟨_, rfl, rfl⟩ | ⟨_, _, _, _, hwrite⟩
    · rfl
    · exact (returns_pieceWrite R hwrite).2.2
  · intro hne
    rcases hrun with ⟨hzero, _⟩ | ⟨_, hcalls, _, _, hwrite⟩
    · exact absurd hzero hne
    · exact ⟨(returns_pieceWrite R hwrite).1, hcalls⟩

theorem throws_flushToStorage (hready : fr.Ready p.mem)
    (h : Throws (flushToStorage (p.view R) fr) s e s') :
    fr.unstoredSize ≠ 0 ∧ p.writeError = some e ∧ s' = s := by
  unfold flushToStorage at h
  by_cases hzero : fr.unstoredSize = 0
  · simp [hzero] at h
  · rw [if_neg hzero] at h
    simp only [throws_bind, throws_computed, returns_computed, throws_pure, and_false,
      exists_false, or_false] at h
    rcases h with hwrite | ⟨addr, mid, hwrite, hwalk, _⟩
    · exact ⟨hzero, throws_pieceWrite R hwrite⟩
    · obtain ⟨_, rfl, _⟩ := returns_pieceWrite R hwrite
      obtain ⟨frags, hwalk', _⟩ := hready.computed p.place
      simp [hwalk'] at hwalk

end Counts

section Pieces

variable {ι : Type} (R : StripeRefs ι) (conf : DeduplicatorConfig) {p : Piece}

variable {fr : Fragmentation} {s s' : Counts ι} {reads : List (Except Exn Piece)}
  {r : DedupeResponse} {e : Exn}

theorem Piece.known_eq (h : p.found conf p.data = .ok fr) :
    p.known conf = getStoredFragments fr.frags := by
  simp only [Piece.known, h]

theorem Piece.someRejected_iff (h : p.found conf p.data = .ok fr) :
    p.SomeRejected conf ↔ (getStoredFragments fr.frags).filter p.reject ≠ [] := by
  rw [Piece.SomeRejected, p.known_eq conf h, ne_eq, filter_eq_nil_iff]
  simp

theorem Piece.noneLinked_iff (h : p.found conf p.data = .ok fr) :
    p.NoneLinked conf ↔ (getStoredFragments fr.frags).filter (fun f => !p.reject f) = [] := by
  rw [Piece.NoneLinked, p.known_eq conf h, filter_eq_nil_iff]
  simp

theorem markRejected_unstored {reject : Fragment → Bool} {f : DdFragment} :
    (markRejected reject f).type = .unstored ↔
      f.type = .unstored ∨ reject f.storedFragment = true := by
  unfold markRejected
  rcases f.type_cases with htype | htype
  · by_cases hrej : reject f.storedFragment = true <;>
      simp [htype, hrej, DdFragment.rejected]
  · simp [htype]

/-- After the link, the piece has bytes to write exactly if it had new ones or
some of its fragments were rejected. -/
theorem Piece.hasNew_iff {fr fr1 : Fragmentation} (h : p.found conf p.data = .ok fr)
    (hready : fr1.Ready p.mem) (hfrags : fr1.frags = fr.frags.map (markRejected p.reject)) :
    p.HasNew conf ↔ fr1.unstoredSize ≠ 0 := by
  rw [ne_eq, hready.unstoredSize_eq_zero, hfrags]
  constructor
  · rintro ⟨fr', hfr', f, hf, hnew⟩ hall
    obtain rfl : fr = fr' := Except.ok.inj (h.symm.trans hfr')
    have hstore := hall _ (List.mem_map_of_mem hf)
    rw [markRejected_unstored.mpr hnew] at hstore
    cases hstore
  · intro hnot
    push Not at hnot
    obtain ⟨g, hg, htype⟩ := hnot
    obtain ⟨f, hf, rfl⟩ := List.mem_map.mp hg
    refine ⟨fr, h, f, hf, markRejected_unstored.mp ?_⟩
    rcases (markRejected p.reject f).type_cases with hstore | hunstored
    · exact absurd hstore htype
    · exact hunstored

theorem written_pos {mem : GlobalMemory} (hready : fr.Ready mem) {written : Address}
    (hsizes : written.map Fragment.size = unstoredSizes fr.frags) : ∀ f ∈ written, 0 < f.size := by
  intro f hf
  obtain ⟨g, hg, hlen⟩ := mem_unstoredSizes (hsizes ▸ List.mem_map_of_mem hf)
  exact hlen ▸ (hready.good g hg).nonempty

/-- A piece that was deduplicated holds the references of its address, and its
address is not empty. -/
theorem returns_piece (hdata : p.data ≠ [])
    (h : Returns ((p.view R).deduplicate p.toSearchEnv conf p.data) s r s') :
    s' = holding R s r.addr ∧ (∃ f ∈ r.addr, 0 < f.size) ∧ ¬ p.Fails conf := by
  simp only [DataView.deduplicate, returns_bind, returns_raise, returns_computed, returns_pure] at h
  obtain ⟨_, _, ⟨hsearch, rfl⟩, fr, _, ⟨hfound, rfl⟩, fr1, s1, hlink, fr2, s2, hflush, fr3, s3,
    hset, rfl, rfl⟩ := h
  obtain ⟨_, hfound', hready, hconts⟩ := p.found_ok conf p.data
  obtain rfl := Except.ok.inj (hfound'.symm.trans hfound)
  obtain ⟨hready1, hfrags, rfl, hlinked, herased⟩ := returns_pieceLinked R hready hlink
  obtain ⟨written, rfl, hsize, hperm, hsizes, hwrite⟩ := returns_pieceWritten R hready1 hflush
  obtain ⟨hsame, rfl, hins⟩ := returns_flushToSet hset
  rw [hsize] at hins
  rw [← getStoredFragments_markRejected, ← hfrags, holding_append]
  refine ⟨?_, ?_, ?_⟩
  · rw [hsame]
    exact (holding_perm R s hperm).symm
  · have hne : getStoredFragments fr1.frags ++ written ≠ [] := by
      intro hnil
      obtain ⟨hstore, rfl⟩ := append_eq_nil_iff.mp hnil
      have hnone := frags_eq_nil hstore (hsizes.symm.trans map_nil)
      rw [hfrags, map_eq_nil_iff] at hnone
      simp only [Fragmentation.contents, hnone, flatMap_nil] at hconts
      exact hdata hconts.symm
    obtain ⟨f, hf⟩ := exists_mem_of_ne_nil _ hne
    refine ⟨f, by rw [hsame]; exact hperm.mem_iff.mpr hf, ?_⟩
    rcases mem_append.mp hf with hf | hf
    · exact storedSize_pos hready1 hf
    · exact written_pos hready1 hsizes f hf
  · rintro (hfail | ⟨hknown, hfail⟩ | ⟨hsome, hfail⟩ | ⟨hnew, hfail⟩)
    · simp [hsearch] at hfail
    · rw [p.known_eq conf hfound] at hknown
      simp [hlinked hknown] at hfail
    · simp [herased ((p.someRejected_iff conf hfound).mp hsome)] at hfail
    · have hne := (p.hasNew_iff conf hfound hready1 hfrags).mp hnew
      simp [(hwrite hne).1, hins hne] at hfail

/-- A piece that fails keeps the counts exactly if it fails before it takes a
reference. -/
theorem throws_piece (h : Throws ((p.view R).deduplicate p.toSearchEnv conf p.data) s e s') :
    p.Fails conf ∧ (∃ extra, s' = holding R s extra) ∧ (s' = s ↔ p.FailsClean conf) := by
  simp only [DataView.deduplicate, throws_bind, returns_raise, throws_raise, returns_computed,
    throws_computed, throws_pure, and_false, exists_false, or_false] at h
  obtain ⟨fr, hfound, hready, _⟩ := p.found_ok conf p.data
  have hacc : ∀ f ∈ (getStoredFragments fr.frags).filter (fun f => !p.reject f),
      0 < f.size := fun f hf => storedSize_pos hready (mem_filter.mp hf).1
  have hnone : s' = holding R s ((getStoredFragments fr.frags).filter fun f => !p.reject f) →
      (s' = s ↔ p.NoneLinked conf) := by
    rintro rfl
    rw [holding_eq_iff R hacc, p.noneLinked_iff conf hfound]
  rcases h with ⟨hsearch, rfl⟩ | ⟨_, _, ⟨hsearch, rfl⟩, hrest⟩
  · have hfail : p.searchError.isSome := by simp [hsearch]
    exact ⟨.inl hfail, ⟨[], (holding_nil R s).symm⟩, fun _ => .inl hfail, fun _ => rfl⟩
  rcases hrest with ⟨hbad, _⟩ | ⟨fr', _, ⟨hfr', rfl⟩, hrest⟩
  · simp [hfound] at hbad
  obtain rfl := Except.ok.inj (hfound.symm.trans hfr')
  rcases hrest with hlink | ⟨fr1, s1, hlink, hrest⟩
  · obtain ⟨hstore, ⟨hfail, rfl⟩ | ⟨hlinked, hrejected, hfail, hs'⟩⟩ := throws_linkFragments R hlink
    · have hlinkFails : p.known conf ≠ [] ∧ p.linkError.isSome :=
        ⟨by rwa [p.known_eq conf hfound], by simp [hfail]⟩
      exact ⟨.inr (.inl hlinkFails), ⟨[], (holding_nil R _).symm⟩, fun _ => .inr (.inl hlinkFails),
        fun _ => rfl⟩
    · have heraseFails : p.SomeRejected conf ∧ p.eraseError.isSome :=
        ⟨(p.someRejected_iff conf hfound).mpr hrejected, by simp [hfail]⟩
      refine ⟨.inr (.inr (.inl heraseFails)), ⟨_, hs'⟩, ?_⟩
      simp [hnone hs', Piece.FailsClean, hsearch, hlinked, heraseFails]
  obtain ⟨hready1, hfrags, hs1, hlinked, herased⟩ := returns_pieceLinked R hready hlink
  rw [← p.known_eq conf hfound] at hlinked
  have hnew := p.hasNew_iff conf hfound hready1 hfrags
  have hclean : p.FailsClean conf ↔ p.NoneLinked conf ∧ p.HasNew conf ∧ p.writeError.isSome := by
    have hlink' : ¬ (p.known conf ≠ [] ∧ p.linkError.isSome) := by
      rintro ⟨hknown, hsome⟩
      simp [hlinked hknown] at hsome
    have herase' : ¬ (p.SomeRejected conf ∧ p.eraseError.isSome) := by
      rintro ⟨hrejected, hsome⟩
      simp [herased ((p.someRejected_iff conf hfound).mp hrejected)] at hsome
    simp [Piece.FailsClean, hsearch, hlink', herase']
  rcases hrest with hflush | ⟨fr2, s2, hflush, hset⟩
  · obtain ⟨hne, hfail, rfl⟩ := throws_flushToStorage R hready1 hflush
    have hwriteFails : p.writeError.isSome := by simp [hfail]
    refine ⟨.inr (.inr (.inr ⟨hnew.mpr hne, .inl hwriteFails⟩)), ⟨_, hs1⟩, ?_⟩
    rw [hnone hs1, hclean]
    simp [hnew.mpr hne, hwriteFails]
  · obtain ⟨written, rfl, hsize, _, hsizes, hwrite⟩ := returns_pieceWritten R hready1 hflush
    obtain ⟨hne, hfail, rfl⟩ := throws_flushToSet (fun hne => (hwrite (hsize ▸ hne)).2) hset
    rw [hsize] at hne
    have hinsertFails : p.insertError.isSome := by simp [hfail]
    refine ⟨.inr (.inr (.inr ⟨hnew.mpr hne, .inr hinsertFails⟩)), ⟨_, by rw [hs1, holding_append]⟩,
      ?_⟩
    have hpos := written_pos hready1 hsizes
    have hwrite' : written ≠ [] := by
      rintro rfl
      exact hne (hready1.unstoredSize_eq_zero.mpr (unstoredSizes_eq_nil.mp hsizes.symm))
    obtain ⟨f, hf⟩ := exists_mem_of_ne_nil _ hwrite'
    rw [hclean, (hwrite hne).1, hs1, holding_append]
    simp only [Option.isSome_none, Bool.false_eq_true, and_false, iff_false]
    exact holding_ne R (mem_append_right _ hf) (hpos f hf)

theorem Piece.fails_of_clean (h : p.FailsClean conf) : p.Fails conf := by
  rcases h with h | h | ⟨_, h | h⟩
  · exact .inl h
  · exact .inr (.inl h)
  · exact .inr (.inr (.inl h))
  · exact .inr (.inr (.inr ⟨h.1, .inl h.2⟩))

variable {conf} in
theorem bodyFails_of_clean (h : BodyFailsClean conf reads) : BodyFails conf reads := by
  cases reads with
  | nil => exact h
  | cons read rest =>
    cases read with
    | error e => trivial
    | ok p => exact ⟨h.1, .inl (p.fails_of_clean conf h.2)⟩

variable {conf} in
theorem not_bodyFails_of_noData (h : NoData reads) : ¬ BodyFails conf reads := by
  cases reads with
  | nil => exact id
  | cons read rest =>
    cases read with
    | error e => exact absurd h id
    | ok p => exact fun hfail => hfail.1 h

variable {rv : DedupeResponse}

theorem returns_deduplicate (h : Returns (deduplicate R conf reads rv) s r s') :
    ∃ addr, r.addr = rv.addr ++ addr ∧ s' = holding R s addr ∧ ¬ BodyFails conf reads ∧
      (NoData reads ∧ addr = [] ∨ ¬ NoData reads ∧ ∃ f ∈ addr, 0 < f.size) := by
  induction reads generalizing rv s with
  | nil =>
    obtain ⟨rfl, rfl⟩ := returns_pure.mp h
    exact ⟨[], (append_nil _).symm, rfl, id, .inl ⟨trivial, rfl⟩⟩
  | cons read rest ih =>
    cases read with
    | error e => exact absurd h returns_throw
    | ok p =>
      unfold deduplicate at h
      by_cases hdata : p.data = []
      · simp only [hdata, isEmpty_nil, if_true, returns_pure] at h
        obtain ⟨rfl, rfl⟩ := h
        exact ⟨[], (append_nil _).symm, rfl, fun hfail => hfail.1 hdata, .inl ⟨hdata, rfl⟩⟩
      · rw [if_neg (by simpa using hdata), returns_bind] at h
        obtain ⟨one, mid, hone, hrest⟩ := h
        obtain ⟨rfl, ⟨f, hf, hsize⟩, hok⟩ := returns_piece R conf hdata hone
        obtain ⟨addr, haddr, rfl, hbody, _⟩ := ih hrest
        refine ⟨one.addr ++ addr, ?_, holding_append R s _ _, ?_, .inr ⟨hdata, f,
          mem_append_left _ hf, hsize⟩⟩
        · rw [haddr, append, append_assoc]
        · rintro ⟨_, hfail | hfail⟩
          · exact hok hfail
          · exact hbody hfail

/-- A body that fails keeps the counts exactly if it fails before its first
piece takes a reference. -/
theorem throws_deduplicate (h : Throws (deduplicate R conf reads rv) s e s') :
    BodyFails conf reads ∧ (∃ extra, s' = holding R s extra) ∧
      (s' = s ↔ BodyFailsClean conf reads) := by
  induction reads generalizing rv s with
  | nil => exact absurd h throws_pure
  | cons read rest ih =>
    cases read with
    | error e =>
      obtain ⟨_, rfl⟩ := throws_throw.mp h
      exact ⟨trivial, ⟨[], rfl⟩, fun _ => trivial, fun _ => rfl⟩
    | ok p =>
      unfold deduplicate at h
      by_cases hdata : p.data = []
      · simp [hdata] at h
      · rw [if_neg (by simpa using hdata), throws_bind] at h
        rcases h with hpiece | ⟨one, mid, hone, hrest⟩
        · obtain ⟨hfail, hextra, hsame⟩ := throws_piece R conf hpiece
          refine ⟨⟨hdata, .inl hfail⟩, hextra, hsame.trans ?_⟩
          simp [BodyFailsClean, hdata]
        · obtain ⟨rfl, ⟨f, hf, hsize⟩, hok⟩ := returns_piece R conf hdata hone
          obtain ⟨hfail, ⟨extra, rfl⟩, _⟩ := ih hrest
          rw [holding_append]
          refine ⟨⟨hdata, .inr hfail⟩, ⟨_, rfl⟩, ?_⟩
          have hchanged : holding R s (one.addr ++ extra) ≠ s :=
            holding_ne R (mem_append_left extra hf) hsize
          have hdirty : ¬ p.FailsClean conf := fun hclean => hok (p.fails_of_clean conf hclean)
          simp [BodyFailsClean, hdirty, hchanged]

end Pieces

section Requests

variable {ι : Type} (R : StripeRefs ι) (conf : DeduplicatorConfig)

variable {e : Failure} {s s' : Counts ι} {putError : Option Failure}
  {reads : List (Except Exn Piece)}

/-- `safe_put_object` gives the references of its address back when it fails. -/
theorem throws_safePutObject {addr : Address}
    (h : Throws (safePutObject R putError addr) (holding R s addr) e s') : s' = s := by
  simp only [safePutObject, throws_onError, throws_raise, unlink, throws_bind, returns_modify,
    throws_modify, throws_throw, false_or] at h
  obtain ⟨_, _, ⟨_, rfl⟩, _, _, rfl, _, rfl⟩ := h
  funext t
  simp [holding]

theorem throws_putObject {bucketError : Option Failure}
    (h : Throws (putObject R conf bucketError reads putError) s e s') :
    s' = s ↔ bucketError.isSome ∨ BodyFailsClean conf reads ∨ ¬ BodyFails conf reads := by
  simp only [putObject, throws_bind, returns_raise, throws_raise, returns_rethrow,
    throws_rethrow] at h
  rcases h with ⟨hbucket, rfl⟩ | ⟨_, _, ⟨hbucket, rfl⟩, ⟨_, _, hbody⟩ | ⟨resp, mid, hbody, hput⟩⟩
  · simp [hbucket]
  · obtain ⟨hfail, _, hsame⟩ := throws_deduplicate R conf hbody
    simp [hsame, hbucket, hfail]
  · obtain ⟨addr, haddr, rfl, hbody, _⟩ := returns_deduplicate R conf hbody
    rw [nil_append] at haddr
    rw [haddr] at hput
    simp [throws_safePutObject R hput, hbody]

theorem throws_uploadPart {partNumber : Nat} {lockError appendError : Option Failure}
    {details : Except Failure Address}
    (h : Throws (uploadPart R conf partNumber reads lockError details appendError) s e s') :
    s' = s ↔ Multipart.validatePartNumber partNumber ≠ .ok () ∨ BodyFailsClean conf reads ∨
      NoData reads := by
  have hfree : ∀ (existing : Option Address) (s1 : Counts ι),
      ¬ Throws (freeExisting R existing) s1 e s' := by
    intro existing s1
    cases existing <;> simp [freeExisting, unlink]
  simp only [uploadPart, throws_bind, returns_raise, throws_raise, returns_computed,
    throws_computed, returns_rethrow, throws_rethrow, hfree, and_false, exists_false,
    or_false] at h
  rcases h with ⟨hnum, rfl⟩ | ⟨_, _, ⟨hnum, rfl⟩, hrest⟩
  · have hinvalid : Multipart.validatePartNumber partNumber ≠ .ok () := by
      intro hvalid
      simp [hvalid, Except.mapError] at hnum
    simp [hinvalid]
  have hvalid : Multipart.validatePartNumber partNumber = .ok () := by
    cases hrun : Multipart.validatePartNumber partNumber with
    | error err => simp [hrun, Except.mapError] at hnum
    | ok u => rfl
  rcases hrest with ⟨_, _, hbody⟩ | ⟨resp, mid, hbody, hrest⟩
  · obtain ⟨hfail, _, hsame⟩ := throws_deduplicate R conf hbody
    have hdata : ¬ NoData reads := fun hdata => not_bodyFails_of_noData hdata hfail
    simp [hsame, hvalid, hdata]
  · have hmid : mid = s' := by
      rcases hrest with ⟨_, hs'⟩ | ⟨_, _, ⟨_, rfl⟩, ⟨_, hs'⟩ | ⟨_, _, ⟨_, rfl⟩, _, hs'⟩⟩
      · exact hs'
      · exact hs'
      · exact hs'
    obtain ⟨addr, _, hheld, hbody, hdata⟩ := returns_deduplicate R conf hbody
    have hdirty : ¬ BodyFailsClean conf reads := fun hclean => hbody (bodyFails_of_clean hclean)
    rw [← hmid, hheld]
    rcases hdata with ⟨hdata, rfl⟩ | ⟨hdata, f, hf, hsize⟩
    · simp [hdata, holding_nil]
    · simp [hdata, hvalid, hdirty, holding_ne R hf hsize]

theorem throws_copyObject {source : Except Failure SourceObject} {ifMatch : Option String}
    {linkError : Option Failure} {reject : Fragment → Bool}
    (h : Throws (copyObject R source ifMatch linkError reject putError) s e s') :
    s' = s ↔ ∀ obj, source = .ok obj → checkIfMatch ifMatch obj.etag = none → linkError = none →
        (∀ f ∈ obj.addr, reject f = false) ∨ ∀ f ∈ obj.addr, reject f = true := by
  simp only [copyObject, throws_bind, returns_raise, throws_raise, returns_computed,
    throws_computed, returns_take, throws_take, false_or] at h
  rcases h with ⟨hsrc, rfl⟩ | ⟨obj, _, ⟨hsrc, rfl⟩, hrest⟩
  · simp [hsrc]
  rcases hrest with ⟨hmatch, rfl⟩ | ⟨_, _, ⟨hmatch, rfl⟩, hrest⟩
  · simp [hsrc, hmatch]
  rcases hrest with ⟨hlink, rfl⟩ | ⟨_, _, ⟨hlink, rfl⟩, _, _, rfl, hrest⟩
  · simp [hlink]
  have hrejects : checkRejects (obj.addr.filter reject) = none ↔
      ∀ f ∈ obj.addr, reject f = false := by
    unfold checkRejects
    split
    · rename_i hempty
      simpa using hempty
    · rename_i hempty
      simpa using hempty
  rcases hrest with ⟨hsome, rfl⟩ | ⟨_, _, ⟨hnone, rfl⟩, hput⟩
  · have hacc : ∀ f ∈ obj.addr.filter (fun f => !reject f), 0 < f.size :=
      fun f hf => obj.nonempty f (mem_filter.mp hf).1
    have hnot : ¬ ∀ f ∈ obj.addr, reject f = false := by
      rw [← hrejects, hsome]
      simp
    rw [holding_eq_iff R hacc, filter_eq_nil_iff]
    simp [hsrc, hmatch, hlink, hnot]
  · have hall := hrejects.mp hnone
    have hkept : obj.addr.filter (fun f => !reject f) = obj.addr := by
      rw [filter_eq_self]
      intro f hf
      simp [hall f hf]
    rw [hkept] at hput
    simp only [throws_safePutObject R hput, true_iff]
    intro obj' hobj' _ _
    obtain rfl := Except.ok.inj (hsrc.symm.trans hobj')
    exact .inl hall

/-- After an upload that ended in an error the count of every stripe is what it
was before, exactly if the request failed before it took a reference or its
failing call is one that `safe_put_object` guards. -/
theorem failed_upload_restores_iff (upload : Upload) {e : Failure} {s s' : Counts ι}
    (h : Throws (handle R conf upload) s e s') : s' = s ↔ Harmless conf upload := by
  cases upload with
  | putObject bucketError reads putError => exact throws_putObject R conf h
  | uploadPart partNumber reads lockError details appendError => exact throws_uploadPart R conf h
  | copyObject source ifMatch linkError reject putError => exact throws_copyObject R h

end Requests

/-- One reference on every page of four bytes that a fragment touches. -/
def pageRefs : StripeRefs Nat where
  refs f t := if f.pointer / 4 ≤ t ∧ t ≤ (f.pointer + f.size - 1) / 4 then 1 else 0
  pos f hsize := by
    refine ⟨f.pointer / 4, ?_⟩
    have hle : f.pointer / 4 ≤ (f.pointer + f.size - 1) / 4 := Nat.div_le_div_right (by omega)
    simp [hle]

/-- One new byte, written at the start of an empty storage. -/
def newByte : Piece where
  mem := fun _ => none
  set := .leaf
  stored := FragmentSet.leaf_stored
  searchError := none
  eraseError := none
  insertError := none
  data := [7]
  linkError := none
  reject := fun _ => false
  writeError := none
  place := id

def sampleConf : DeduplicatorConfig := ⟨1, 2, Nat.two_pos⟩

def noSuchBucket : Failure :=
  .command ⟨.notFound, "NoSuchBucket", "The specified bucket does not exist."⟩

/-- The directory refuses an object whose byte was stored; the byte is released
again. -/
theorem failed_upload_restores_refused :
    ∃ s', Throws (handle pageRefs sampleConf (.putObject none [.ok newByte] (some noSuchBucket)))
      (fun _ => 0) noSuchBucket s' ∧ s' = fun _ => 0 := by
  refine ⟨_, rfl, (failed_upload_restores_iff pageRefs sampleConf
    (.putObject none [.ok newByte] (some noSuchBucket)) rfl).mpr (.inr (.inr ?_))⟩
  simp [BodyFails, Piece.Fails, newByte]

/-- The body of a PutObject request fails its signature after its first byte has
been stored: the reference on the page of that byte stays. -/
theorem failed_body_leaves_references :
    ¬ ∀ (R : StripeRefs Nat) (conf : DeduplicatorConfig) (upload : Upload) (e : Failure)
      (s s' : Counts Nat), Throws (handle R conf upload) s e s' → s' = s := by
  intro hall
  have hsame := hall pageRefs sampleConf
    (.putObject none [.ok newByte, .error (.runtimeError "body signature mismatch")] none)
    (.exception (.runtimeError "body signature mismatch")) (fun _ => 0)
    (holding pageRefs (fun _ => 0) [⟨0, 1⟩]) rfl
  have hcount := congrFun hsame 0
  revert hcount
  decide

end UhCore.Entrypoint.Uploads
