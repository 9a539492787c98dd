import Mathlib.Tactic

/-!
The buckets of the cache of the most often used values. There is a bucket for
each number of uses, the one of the fewest uses first; in a bucket the keys
stand in the order in which they reached that number.

An iterator into the list of buckets is the frequency of the bucket, and one
into the list of a bucket is the number of its node: nodes are numbered as
they are made.
-/

namespace UhCore.Caches

open List

structure LfuItem (κ : Type) where
  key : κ
  node : Nat
  deriving DecidableEq, Repr

structure FreqBucket (κ : Type) where
  freq : Nat
  items : List (LfuItem κ)
  deriving DecidableEq, Repr

namespace FreqBucket

variable {κ : Type}

/-- Add a node to the bucket of a frequency, which is the first of these
buckets if there is one. The front of a list without buckets is no such
bucket: what is read there is the number of its elements. -/
def push (freq : Nat) (item : LfuItem κ) : List (FreqBucket κ) → List (FreqBucket κ)
  | [] => [⟨freq, [item]⟩]
  | b :: rest =>
    if b.freq ≠ freq then ⟨freq, [item]⟩ :: b :: rest
    else { b with items := b.items ++ [item] } :: rest

def dropNode (node : Nat) (b : FreqBucket κ) : FreqBucket κ :=
  { b with items := b.items.filter fun item => decide (item.node ≠ node) }

/-- Move a key from a node of a bucket to a new node in the next one. -/
def increment (freq pos : Nat) (item : LfuItem κ) : List (FreqBucket κ) → List (FreqBucket κ)
  | [] => []
  | b :: rest =>
    if b.freq = freq then
      if (b.dropNode pos).items = [] then push (freq + 1) item rest
      else b.dropNode pos :: push (freq + 1) item rest
    else b :: increment freq pos item rest

/-- Take the first node of the first bucket. -/
def popFront : List (FreqBucket κ) → Option (LfuItem κ × List (FreqBucket κ))
  | [] => none
  | ⟨_, []⟩ :: _ => none
  | ⟨_, [item]⟩ :: rest => some (item, rest)
  | ⟨freq, item :: next :: items⟩ :: rest => some (item, ⟨freq, next :: items⟩ :: rest)

/-- Take nodes from the front up to the first one whose key is present. -/
def popPresent (present : κ → Bool) :
    Nat → List (FreqBucket κ) → Option (LfuItem κ × List (FreqBucket κ))
  | 0, _ => none
  | fuel + 1, buckets =>
    match popFront buckets with
    | none => none
    | some (item, rest) =>
      if present item.key then some (item, rest) else popPresent present fuel rest

/-- The nodes with the frequency of their bucket, in the order in which they
are taken. -/
def entries (buckets : List (FreqBucket κ)) : List (Nat × LfuItem κ) :=
  buckets.flatMap fun b => b.items.map fun item => (b.freq, item)

/-- A key with the first entry reached its count earlier, or has a lower one. -/
def Before (a b : Nat × LfuItem κ) : Prop := a.1 < b.1 ∨ a.1 = b.1 ∧ a.2.node < b.2.node

/-- The buckets are in the order of their frequencies, which are positive, and
hold nodes in the order in which these were made. -/
structure Ordered (nodes : Nat) (buckets : List (FreqBucket κ)) : Prop where
  increasing : buckets.Pairwise fun a b => a.freq < b.freq
  positive : ∀ b ∈ buckets, 0 < b.freq
  nonempty : ∀ b ∈ buckets, b.items ≠ []
  sorted : ∀ b ∈ buckets, b.items.Pairwise fun x y => x.node < y.node
  made : ∀ b ∈ buckets, ∀ item ∈ b.items, item.node < nodes

@[simp] theorem entries_nil : entries ([] : List (FreqBucket κ)) = [] := rfl

@[simp] theorem entries_cons (b : FreqBucket κ) (rest : List (FreqBucket κ)) :
    entries (b :: rest) = (b.items.map fun item => (b.freq, item)) ++ entries rest := by
  simp [entries]

variable {buckets : List (FreqBucket κ)} {e : Nat × LfuItem κ} {b : FreqBucket κ}
  {rest : List (FreqBucket κ)} {nodes : Nat} {item : LfuItem κ} {items : List (LfuItem κ)}
  {freq pos : Nat}

theorem mem_entries : e ∈ entries buckets ↔ ∃ b ∈ buckets, b.freq = e.1 ∧ e.2 ∈ b.items := by
  simp only [entries, mem_flatMap, List.mem_map]
  constructor
  · rintro ⟨b, hb, item, hitem, rfl⟩
    exact ⟨b, hb, rfl, hitem⟩
  · rintro ⟨b, hb, hfreq, hitem⟩
    exact ⟨b, hb, e.2, hitem, by rw [hfreq]⟩

theorem mem_entries_cons :
    e ∈ entries (b :: rest) ↔ b.freq = e.1 ∧ e.2 ∈ b.items ∨ e ∈ entries rest := by
  rw [mem_entries, mem_entries, exists_mem_cons_iff]

theorem Ordered.tail (h : Ordered nodes (b :: rest)) : Ordered nodes rest where
  increasing := (pairwise_cons.mp h.increasing).2
  positive b' hb' := h.positive b' (mem_cons_of_mem b hb')
  nonempty b' hb' := h.nonempty b' (mem_cons_of_mem b hb')
  sorted b' hb' := h.sorted b' (mem_cons_of_mem b hb')
  made b' hb' := h.made b' (mem_cons_of_mem b hb')

theorem Ordered.cons (hrest : Ordered nodes rest) (hfreq : ∀ b' ∈ rest, b.freq < b'.freq)
    (hpos : 0 < b.freq) (hitems : b.items ≠ [])
    (hsort : b.items.Pairwise fun x y => x.node < y.node)
    (hmade : ∀ item ∈ b.items, item.node < nodes) : Ordered nodes (b :: rest) where
  increasing := pairwise_cons.mpr ⟨hfreq, hrest.increasing⟩
  positive := forall_mem_cons.mpr ⟨hpos, hrest.positive⟩
  nonempty := forall_mem_cons.mpr ⟨hitems, hrest.nonempty⟩
  sorted := forall_mem_cons.mpr ⟨hsort, hrest.sorted⟩
  made := forall_mem_cons.mpr ⟨hmade, hrest.made⟩

theorem Ordered.freq_lt {b b' : FreqBucket κ} (h : Ordered nodes (b :: rest)) (hb' : b' ∈ rest) :
    b.freq < b'.freq :=
  (pairwise_cons.mp h.increasing).1 b' hb'

theorem Ordered.mono {n m : Nat} (h : Ordered n buckets) (hle : n ≤ m) : Ordered m buckets :=
  { h with made := fun b hb item hitem => (h.made b hb item hitem).trans_le hle }

/-- The entries are taken in the order of frequency, then of age. -/
theorem Ordered.entries_pairwise (h : Ordered nodes buckets) :
    (entries buckets).Pairwise Before := by
  induction buckets with
  | nil => exact List.Pairwise.nil
  | cons b rest ih =>
    refine pairwise_append.mpr ⟨?_, ih h.tail, ?_⟩
    · refine pairwise_map.mpr ((h.sorted b (by simp)).imp ?_)
      intro x y hlt
      exact .inr ⟨rfl, hlt⟩
    · intro x hx y hy
      obtain ⟨item, -, rfl⟩ := List.mem_map.mp hx
      obtain ⟨b', hb', hfreq, -⟩ := mem_entries.mp hy
      exact .inl (hfreq ▸ h.freq_lt hb')

/-- Two entries stand in different buckets or are different nodes. -/
def Apart (a b : Nat × LfuItem κ) : Prop := ¬ (a.1 = b.1 ∧ a.2.node = b.2.node)

instance : Std.Symm (Apart : Nat × LfuItem κ → Nat × LfuItem κ → Prop) where
  symm _ _ h := fun ⟨hfreq, hnode⟩ => h ⟨hfreq.symm, hnode.symm⟩

theorem Before.apart {a b : Nat × LfuItem κ} (h : Before a b) : Apart a b := by
  rintro ⟨hfreq, hnode⟩
  rcases h with hlt | ⟨-, hlt⟩ <;> omega

theorem Ordered.entry_eq (h : Ordered nodes buckets) {e e' : Nat × LfuItem κ}
    (he : e ∈ entries buckets) (he' : e' ∈ entries buckets) (hfreq : e.1 = e'.1)
    (hnode : e.2.node = e'.2.node) : e = e' := by
  by_contra hne
  exact (h.entries_pairwise.imp Before.apart).forall he he' hne ⟨hfreq, hnode⟩

theorem sorted_append (hsort : items.Pairwise fun x y => x.node < y.node)
    (hmade : ∀ x ∈ items, x.node < nodes) (hitem : item.node = nodes) :
    (items ++ [item]).Pairwise fun x y => x.node < y.node := by
  refine pairwise_append.mpr ⟨hsort, pairwise_singleton _ _, ?_⟩
  intro x hx y hy
  rw [mem_singleton.mp hy, hitem]
  exact hmade x hx

theorem made_append (hmade : ∀ x ∈ items, x.node < nodes) (hitem : item.node = nodes) :
    ∀ x ∈ items ++ [item], x.node < nodes + 1 := by
  intro x hx
  rcases mem_append.mp hx with hold | hnew
  · exact (hmade x hold).trans (Nat.lt_succ_self nodes)
  · rw [mem_singleton.mp hnew, hitem]
    exact Nat.lt_succ_self nodes

/-- The new node stands in a bucket of its frequency; the others stay. -/
theorem mem_entries_push :
    e ∈ entries (push freq item buckets) ↔ e = (freq, item) ∨ e ∈ entries buckets := by
  cases buckets with
  | nil => simp [push]
  | cons b rest =>
    rw [push]
    split
    case isTrue hne => simp
    case isFalse heq =>
      rw [not_not] at heq
      simp only [entries_cons, map_append, map_cons, map_nil, mem_append, mem_singleton, heq]
      tauto

theorem freq_of_mem_push (hb : b ∈ push freq item buckets) :
    b.freq = freq ∨ ∃ b' ∈ buckets, b'.freq = b.freq := by
  cases buckets with
  | nil =>
    rw [push, mem_singleton] at hb
    exact .inl (by rw [hb])
  | cons head rest =>
    rw [push] at hb
    split at hb
    case isTrue hne =>
      rcases mem_cons.mp hb with rfl | hold
      · exact .inl rfl
      · exact .inr ⟨b, hold, rfl⟩
    case isFalse heq =>
      rcases mem_cons.mp hb with rfl | hold
      · exact .inr ⟨head, by simp, rfl⟩
      · exact .inr ⟨b, mem_cons_of_mem _ hold, rfl⟩

theorem Ordered.push {nodes : Nat} (h : Ordered nodes buckets) (hfreq : 0 < freq)
    (hleast : ∀ b ∈ buckets, freq ≤ b.freq) (hitem : item.node = nodes) :
    Ordered (nodes + 1) (push freq item buckets) := by
  have hmade := made_append (forall_mem_nil _) hitem
  cases buckets with
  | nil =>
    exact (h.mono (Nat.le_succ nodes)).cons (by simp) hfreq (by simp) (pairwise_singleton _ _) hmade
  | cons b rest =>
    have hb := hleast b (by simp)
    rw [FreqBucket.push]
    split
    case isTrue hne =>
      refine (h.mono (Nat.le_succ nodes)).cons ?_ hfreq (by simp) (pairwise_singleton _ _) hmade
      intro b' hb'
      rcases mem_cons.mp hb' with rfl | hrest
      · exact lt_of_le_of_ne hb (Ne.symm hne)
      · exact hb.trans_lt (h.freq_lt hrest)
    case isFalse heq =>
      refine (h.tail.mono (Nat.le_succ nodes)).cons (fun b' hb' => h.freq_lt hb')
        (h.positive b (by simp)) (by simp)
        (sorted_append (h.sorted b (by simp)) (h.made b (by simp)) hitem)
        (made_append (h.made b (by simp)) hitem)

theorem mem_dropNode : item ∈ (b.dropNode pos).items ↔ item ∈ b.items ∧ item.node ≠ pos := by
  simp [dropNode]

theorem Ordered.dropNode (h : Ordered nodes (b :: rest)) (pos : Nat) {later : List (FreqBucket κ)}
    (hlater : Ordered (nodes + 1) later) (hfreq : ∀ b' ∈ later, b.freq < b'.freq)
    (hkept : (b.dropNode pos).items ≠ []) : Ordered (nodes + 1) (b.dropNode pos :: later) := by
  refine hlater.cons hfreq (h.positive b (by simp)) hkept ((h.sorted b (by simp)).filter _) ?_
  intro item hitem
  exact (h.made b (by simp) item (mem_dropNode.mp hitem).1).trans (Nat.lt_succ_self nodes)

theorem mem_entries_increment {nodes : Nat} (h : Ordered nodes buckets)
    (hfreq : ∃ b ∈ buckets, b.freq = freq) : e ∈ entries (increment freq pos item buckets) ↔
      e = (freq + 1, item) ∨ e ∈ entries buckets ∧ ¬ (e.1 = freq ∧ e.2.node = pos) := by
  induction buckets with
  | nil => simp at hfreq
  | cons b rest ih =>
    rw [increment]
    split
    case isTrue heq =>
      have hrest : e ∈ entries rest → e.1 ≠ freq := by
        intro he
        obtain ⟨b', hb', hfreq', -⟩ := mem_entries.mp he
        have := h.freq_lt hb'
        omega
      have hdrop : e.2 ∈ (b.dropNode pos).items ↔ e.2 ∈ b.items ∧ e.2.node ≠ pos := mem_dropNode
      split
      case isTrue hempty =>
        rw [hempty] at hdrop
        rw [mem_entries_push, mem_entries_cons]
        grind
      case isFalse hkept =>
        rw [mem_entries_cons, mem_entries_push, mem_entries_cons, hdrop]
        have hsame : (b.dropNode pos).freq = b.freq := rfl
        grind
    case isFalse hne =>
      have hlater : ∃ b ∈ rest, b.freq = freq := by
        obtain ⟨b', hb', hb'freq⟩ := hfreq
        rcases mem_cons.mp hb' with rfl | hrest
        · exact absurd hb'freq hne
        · exact ⟨b', hrest, hb'freq⟩
      rw [mem_entries_cons, ih h.tail hlater, mem_entries_cons]
      grind

theorem freq_of_mem_increment (hb : b ∈ increment freq pos item buckets) :
    ∃ b' ∈ buckets, b'.freq ≤ b.freq := by
  induction buckets with
  | nil => simp [increment] at hb
  | cons head rest ih =>
    have hpush : b ∈ push (freq + 1) item rest → head.freq = freq →
        ∃ b' ∈ head :: rest, b'.freq ≤ b.freq := by
      intro hb heq
      rcases freq_of_mem_push hb with hnew | ⟨b', hb', hold⟩
      · exact ⟨head, by simp, by omega⟩
      · exact ⟨b', mem_cons_of_mem _ hb', hold.le⟩
    rw [increment] at hb
    split at hb
    case isTrue heq =>
      split at hb
      · exact hpush hb heq
      · rcases mem_cons.mp hb with rfl | hb
        · exact ⟨head, by simp, le_rfl⟩
        · exact hpush hb heq
    case isFalse hne =>
      rcases mem_cons.mp hb with rfl | hb
      · exact ⟨b, by simp, le_rfl⟩
      · obtain ⟨b', hb', hle⟩ := ih hb
        exact ⟨b', mem_cons_of_mem _ hb', hle⟩

theorem Ordered.increment (h : Ordered nodes buckets) (freq pos : Nat) (hitem : item.node = nodes) :
    Ordered (nodes + 1) (increment freq pos item buckets) := by
  induction buckets with
  | nil => exact h.mono (Nat.le_succ nodes)
  | cons b rest ih =>
    rw [FreqBucket.increment]
    split
    case isTrue heq =>
      have hleast : ∀ b' ∈ rest, freq + 1 ≤ b'.freq := by
        intro b' hb'
        have := h.freq_lt hb'
        omega
      have hpush := h.tail.push (Nat.succ_pos freq) hleast hitem
      split
      case isTrue hempty => exact hpush
      case isFalse hkept =>
        refine h.dropNode pos hpush ?_ hkept
        intro b' hb'
        rcases freq_of_mem_push hb' with hnew | ⟨b'', hb'', hold⟩
        · omega
        · exact hold ▸ h.freq_lt hb''
    case isFalse hne =>
      refine (ih h.tail).cons ?_ (h.positive b (by simp)) (h.nonempty b (by simp))
        (h.sorted b (by simp)) ?_
      · intro b' hb'
        obtain ⟨b'', hb'', hle⟩ := freq_of_mem_increment hb'
        exact (h.freq_lt hb'').trans_le hle
      · intro x hx
        exact (h.made b (by simp) x hx).trans (Nat.lt_succ_self nodes)

theorem popFront_spec (h : Ordered nodes (b :: rest)) :
    ∃ item left, popFront (b :: rest) = some (item, left) ∧ Ordered nodes left ∧
      entries (b :: rest) = (b.freq, item) :: entries left := by
  obtain ⟨freq, items⟩ := b
  cases items with
  | nil => exact absurd rfl (h.nonempty _ mem_cons_self)
  | cons item items =>
    cases items with
    | nil => exact ⟨item, rest, rfl, h.tail, by simp⟩
    | cons next items =>
      refine ⟨item, ⟨freq, next :: items⟩ :: rest, rfl, ?_, by simp⟩
      have hsort := h.sorted _ mem_cons_self
      have hmade := h.made _ mem_cons_self
      exact h.tail.cons (fun b' hb' => h.freq_lt hb')
        (h.positive ⟨freq, item :: next :: items⟩ mem_cons_self) (by simp)
        (pairwise_cons.mp hsort).2 (fun x hx => hmade x (mem_cons_of_mem _ hx))

/-- With a present key among the nodes the search ends at the first one; the
nodes before it are of keys that are not present. -/
theorem popPresent_spec (present : κ → Bool) {nodes fuel : Nat} (h : Ordered nodes buckets)
    (hfuel : (entries buckets).length ≤ fuel)
    (hsome : ∃ e ∈ entries buckets, present e.2.key = true) :
    ∃ gone freq item left, popPresent present fuel buckets = some (item, left) ∧
      Ordered nodes left ∧ entries buckets = gone ++ (freq, item) :: entries left ∧
      (∀ e ∈ gone, present e.2.key = false) ∧ present item.key = true := by
  induction fuel generalizing buckets with
  | zero =>
    obtain ⟨e, he, -⟩ := hsome
    rw [eq_nil_of_length_eq_zero (Nat.le_zero.mp hfuel)] at he
    simp at he
  | succ fuel ih =>
    cases buckets with
    | nil => simp at hsome
    | cons b rest =>
      obtain ⟨item, left, hpop, hleft, hents⟩ := popFront_spec h
      rw [popPresent, hpop]
      dsimp only
      by_cases hpres : present item.key = true
      · exact ⟨[], b.freq, item, left, by simp [hpres], hleft, hents, by simp, hpres⟩
      · rw [if_neg hpres]
        rw [hents] at hsome hfuel
        have hlater : ∃ e ∈ entries left, present e.2.key = true := by
          obtain ⟨e, he, hkey⟩ := hsome
          rcases mem_cons.mp he with rfl | hmem
          · exact absurd hkey hpres
          · exact ⟨e, hmem, hkey⟩
        obtain ⟨gone, freq, found, last, hrun, hlast, hsplit, hgone, hfound⟩ :=
          ih hleft (Nat.le_of_succ_le_succ hfuel) hlater
        refine ⟨(b.freq, item) :: gone, freq, found, last, hrun, hlast, ?_, ?_, hfound⟩
        · rw [hents, hsplit, cons_append]
        · exact forall_mem_cons.mpr ⟨Bool.eq_false_of_not_eq_true hpres, hgone⟩

end FreqBucket

end UhCore.Caches
