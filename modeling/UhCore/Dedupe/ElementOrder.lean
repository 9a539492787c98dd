import UhCore.Dedupe.FragmentSet
import UhCore.Lib.Diverging

/-!
The order of the elements of the fragment set. Elements with different first
bytes are ordered by these; the others are compared on the length that they
have in common, so that an element is equivalent to all that begin with it.
-/

namespace UhCore.Dedupe

open Memory Diverging List Option Element

instance byteOrder : LinearOrder UInt8 where
  le_refl := UInt8.le_refl
  le_trans _ _ _ := UInt8.le_trans
  le_antisymm _ _ := UInt8.le_antisymm
  le_total := UInt8.le_total
  lt_iff_le_not_ge _ _ := by
    rw [UInt8.lt_iff_toNat_lt, UInt8.le_iff_toNat_le, UInt8.le_iff_toNat_le]
    omega
  toDecidableLE := inferInstance
  toDecidableLT := inferInstance

/-- The bytes an element stands for: those of the search, or those in storage. -/
def Element.bytes (mem : GlobalMemory) (e : Element) : Option (List UInt8) :=
  match e.data with
  | some data => some (data.take e.size)
  | none => load mem e.pointer e.size

/-- An element made of a fragment: one of the set, whose fragment is in storage,
or the one a search is made with. -/
inductive Element.Made (mem : GlobalMemory) : Element → Prop where
  | stored (data : List UInt8) (pointer : Nat) (hload : load mem pointer data.length = some data) :
      Element.Made mem (ofData data pointer none)
  | probe (data : List UInt8) : Element.Made mem (ofData data 0 (some data))

structure Element.Has (mem : GlobalMemory) (e : Element) (bytes : List UInt8) : Prop where
  content : e.bytes mem = some bytes
  size : bytes.length = e.size
  first : e.prefixBytes = bytes.take prefixSize

variable {mem : GlobalMemory} {u v : List UInt8} {e a b : Element}

theorem Element.Made.exists_has (h : e.Made mem) : ∃ bytes, e.Has mem bytes := by
  cases h with
  | stored data pointer hload =>
    refine ⟨data.take (min 65535 data.length), ?_, ?_, ?_⟩
    · have hsub := load_sub 0 (min 65535 data.length) hload (by omega)
      simpa [bytes, ofData] using hsub
    · simp [ofData]
    · simp [ofData, take_take, prefixSize]
      omega
  | probe data =>
    refine ⟨data.take (min 65535 data.length), rfl, ?_, ?_⟩
    · simp [ofData]
    · simp [ofData, take_take, prefixSize]
      omega

theorem Element.Has.catchFrag {bytes : List UInt8} (h : e.Has mem bytes) {size : Nat}
    (hsize : size ≤ e.size) : catchFrag mem e size = .ok (bytes.take size) := by
  have hbytes := h.content
  unfold Element.bytes at hbytes
  unfold Dedupe.catchFrag
  cases hdata : e.data with
  | some data =>
    rw [hdata] at hbytes
    rw [← some.inj hbytes, take_take, min_eq_left hsize]
  | none =>
    rw [hdata] at hbytes
    have hsub := load_sub 0 size hbytes (by rw [zero_add]; exact hsize)
    exact readStorage_ok (by simpa using hsub)

/-- The order in terms of the bytes. -/
def Before (u v : List UInt8) : Prop :=
  u.take prefixSize < v.take prefixSize ∨ u.take prefixSize = v.take prefixSize ∧ Diverges u v

theorem Element.less_eq_true_iff (ha : a.Has mem u) (hb : b.Has mem v) :
    a.less mem b = .ok true ↔ Before u v := by
  unfold less Before
  rw [ha.first, hb.first]
  split
  case isTrue hne => simp [hne]
  case isFalse heq =>
    rw [not_not] at heq
    dsimp only
    rw [ha.catchFrag (min_le_left _ _), hb.catchFrag (min_le_right _ _), ← ha.size, ← hb.size]
    simp only [heq, lt_irrefl, false_or, true_and]
    rw [← take_min_lt_iff]
    simp [Bind.bind, Except.bind, pure, Except.pure]

theorem not_before_self (u : List UInt8) : ¬ Before u u := by
  rintro (hlt | ⟨_, hdiverges⟩)
  · exact lt_irrefl _ hlt
  · exact not_diverges_self u hdiverges

theorem Before.trans {u v w : List UInt8} (huv : Before u v) (hvw : Before v w) : Before u w := by
  rcases huv with hlt | ⟨heq, huv⟩
  · rcases hvw with hlt' | ⟨heq', _⟩
    · exact .inl (hlt.trans hlt')
    · exact .inl (hlt.trans_eq heq')
  · rcases hvw with hlt' | ⟨heq', hvw⟩
    · exact .inl (heq.trans_lt hlt')
    · exact .inr ⟨heq.trans heq', huv.trans hvw⟩

/-- Neither is before the other when the first bytes are equal and one is an
initial part of the other. -/
theorem equivalent_iff : ¬ Before u v ∧ ¬ Before v u ↔
      u.take prefixSize = v.take prefixSize ∧ (u <+: v ∨ v <+: u) := by
  rw [← not_diverges_iff]
  unfold Before
  rcases lt_trichotomy (u.take prefixSize) (v.take prefixSize) with hlt | heq | hlt
  · simp [hlt, hlt.ne]
  · simp [heq]
  · simp [hlt, hlt.ne']

/-- What `std::set` requires of the order of its elements. -/
structure StrictWeakOrder (mem : GlobalMemory) (S : Set Element) : Prop where
  total : ∀ a ∈ S, ∀ b ∈ S, ∃ r, a.less mem b = .ok r
  irrefl : ∀ a ∈ S, a.less mem a ≠ .ok true
  asymm : ∀ a ∈ S, ∀ b ∈ S, a.less mem b = .ok true → b.less mem a ≠ .ok true
  trans : ∀ a ∈ S, ∀ b ∈ S, ∀ c ∈ S, a.less mem b = .ok true → b.less mem c = .ok true →
    a.less mem c = .ok true
  incomparable_trans : ∀ a ∈ S, ∀ b ∈ S, ∀ c ∈ S,
    a.less mem b ≠ .ok true ∧ b.less mem a ≠ .ok true →
    b.less mem c ≠ .ok true ∧ c.less mem b ≠ .ok true →
    a.less mem c ≠ .ok true ∧ c.less mem a ≠ .ok true

/-- No element is an initial part of two others that differ in a later byte,
where the three have the same first bytes. -/
def NoFork (mem : GlobalMemory) (S : Set Element) : Prop :=
  ∀ a ∈ S, ∀ b ∈ S, ∀ c ∈ S, ∀ u v w, a.bytes mem = some u → b.bytes mem = some v →
    c.bytes mem = some w → a.prefixBytes = b.prefixBytes → a.prefixBytes = c.prefixBytes →
    u <+: v → u <+: w → v <+: w ∨ w <+: v

theorem Element.exists_less (ha : a.Has mem u) (hb : b.Has mem v) : ∃ r, a.less mem b = .ok r := by
  unfold less
  split
  · exact ⟨_, rfl⟩
  · dsimp only
    rw [ha.catchFrag (min_le_left _ _), hb.catchFrag (min_le_right _ _)]
    exact ⟨_, rfl⟩

/-- The order is a strict weak one on the elements of which none is an initial
part of two others that differ. -/
theorem strict_weak_order_iff (mem : GlobalMemory) (S : Set Element)
    (hmade : ∀ e ∈ S, e.Made mem) : StrictWeakOrder mem S ↔ NoFork mem S := by
  have hhas : ∀ e ∈ S, ∃ bytes, e.Has mem bytes := fun e he => (hmade e he).exists_has
  have hequiv : ∀ {a b : Element} {u v : List UInt8}, a.Has mem u → b.Has mem v →
      (a.less mem b ≠ .ok true ∧ b.less mem a ≠ .ok true ↔
        u.take prefixSize = v.take prefixSize ∧ (u <+: v ∨ v <+: u)) := by
    intro a b u v ha hb
    rw [ne_eq, ne_eq, less_eq_true_iff ha hb, less_eq_true_iff hb ha]
    exact equivalent_iff
  constructor
  · intro horder a ha b hb c hc u v w hu hv hw hab hac huv huw
    obtain ⟨u', hu'⟩ := hhas a ha
    obtain ⟨v', hv'⟩ := hhas b hb
    obtain ⟨w', hw'⟩ := hhas c hc
    obtain rfl := some.inj (hu.symm.trans hu'.content)
    obtain rfl := some.inj (hv.symm.trans hv'.content)
    obtain rfl := some.inj (hw.symm.trans hw'.content)
    rw [hu'.first, hv'.first] at hab
    rw [hu'.first, hw'.first] at hac
    have hba := (hequiv hv' hu').mpr ⟨hab.symm, .inr huv⟩
    have hac' := (hequiv hu' hw').mpr ⟨hac, .inl huw⟩
    exact ((hequiv hv' hw').mp (horder.incomparable_trans b hb a ha c hc hba hac')).2
  · intro hfork
    refine ⟨?_, ?_, ?_, ?_, ?_⟩
    · intro a ha b hb
      obtain ⟨u, hu⟩ := hhas a ha
      obtain ⟨v, hv⟩ := hhas b hb
      exact exists_less hu hv
    · intro a ha hless
      obtain ⟨u, hu⟩ := hhas a ha
      exact not_before_self u ((less_eq_true_iff hu hu).mp hless)
    · intro a ha b hb hab hba
      obtain ⟨u, hu⟩ := hhas a ha
      obtain ⟨v, hv⟩ := hhas b hb
      exact not_before_self u (((less_eq_true_iff hu hv).mp hab).trans
        ((less_eq_true_iff hv hu).mp hba))
    · intro a ha b hb c hc hab hbc
      obtain ⟨u, hu⟩ := hhas a ha
      obtain ⟨v, hv⟩ := hhas b hb
      obtain ⟨w, hw⟩ := hhas c hc
      exact (less_eq_true_iff hu hw).mpr (((less_eq_true_iff hu hv).mp hab).trans
        ((less_eq_true_iff hv hw).mp hbc))
    · intro a ha b hb c hc hab hbc
      obtain ⟨u, hu⟩ := hhas a ha
      obtain ⟨v, hv⟩ := hhas b hb
      obtain ⟨w, hw⟩ := hhas c hc
      obtain ⟨huv, huv'⟩ := (hequiv hu hv).mp hab
      obtain ⟨hvw, hvw'⟩ := (hequiv hv hw).mp hbc
      refine (hequiv hu hw).mpr ⟨huv.trans hvw, ?_⟩
      rcases huv' with huv' | hvu'
      · rcases hvw' with hvw' | hwv'
        · exact .inl (huv'.trans hvw')
        · exact prefix_or_prefix_of_prefix huv' hwv'
      · rcases hvw' with hvw' | hwv'
        · refine hfork b hb a ha c hc v u w hv.content hu.content hw.content ?_ ?_ hvu' hvw'
          · rw [hv.first, hu.first, huv]
          · rw [hv.first, hw.first, hvw]
        · exact .inr (hwv'.trans hvu')

/-- Sixteen bytes, and twice the same sixteen bytes with one more behind them. -/
def forkMemory : GlobalMemory := fun p =>
  if p < 16 then some 0
  else if 100 ≤ p ∧ p < 116 then some 0
  else if p = 116 then some 1
  else if 200 ≤ p ∧ p < 216 then some 0
  else if p = 216 then some 2
  else none

def trunk : List UInt8 := List.replicate 16 0

def trunkElement : Element := ofData trunk 0 none

def leftElement : Element := ofData (trunk ++ [1]) 100 none

def rightElement : Element := ofData (trunk ++ [2]) 200 none

theorem fork_made : ∀ e ∈ ({trunkElement, leftElement, rightElement} : Set Element),
    e.Made forkMemory := by
  rintro e (rfl | rfl | rfl)
  · exact .stored trunk 0 (by decide +kernel)
  · exact .stored (trunk ++ [1]) 100 (by decide +kernel)
  · exact .stored (trunk ++ [2]) 200 (by decide +kernel)

/-- The sixteen bytes are equivalent to both longer ones, which are not
equivalent to each other. -/
theorem fork_not_strict_weak :
    (∀ e ∈ ({trunkElement, leftElement, rightElement} : Set Element), e.Made forkMemory) ∧
      ¬ StrictWeakOrder forkMemory {trunkElement, leftElement, rightElement} := by
  refine ⟨fork_made, fun horder => ?_⟩
  have hequiv := horder.incomparable_trans leftElement (by simp) trunkElement (by simp)
    rightElement (by simp) (by decide +kernel) (by decide +kernel)
  exact hequiv.1 (by decide +kernel)

/-- Of two elements neither forks. -/
theorem strict_weak_order_pair :
    (∀ e ∈ ({trunkElement, leftElement} : Set Element), e.Made forkMemory) ∧
      StrictWeakOrder forkMemory {trunkElement, leftElement} := by
  have hmade : ∀ e ∈ ({trunkElement, leftElement} : Set Element), e.Made forkMemory := by
    rintro e (rfl | rfl)
    · exact fork_made _ (by simp)
    · exact fork_made _ (by simp)
  refine ⟨hmade, (strict_weak_order_iff forkMemory _ hmade).mpr ?_⟩
  have hbytes : ∀ e ∈ ({trunkElement, leftElement} : Set Element), ∀ u,
      e.bytes forkMemory = some u → u = trunk ∨ u = trunk ++ [1] := by
    rintro e (rfl | rfl) u hu
    · exact .inl (some.inj (hu.symm.trans (by decide +kernel)))
    · exact .inr (some.inj (hu.symm.trans (by decide +kernel)))
  intro a ha b hb c hc u v w hu hv hw _ _ _ _
  rcases hbytes b hb v hv with rfl | rfl
  · rcases hbytes c hc w hw with rfl | rfl
    · exact .inl (prefix_refl _)
    · exact .inl (prefix_append _ _)
  · rcases hbytes c hc w hw with rfl | rfl
    · exact .inr (prefix_append _ _)
    · exact .inl (prefix_refl _)

end UhCore.Dedupe
