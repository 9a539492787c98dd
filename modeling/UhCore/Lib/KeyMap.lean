import Mathlib.Tactic
import Mathlib.Data.List.Sort

/-!
Finite maps with natural number keys, as the list of their entries in
increasing order of the keys. The order is a field, so that iterating over a
map visits every key once.
-/

structure KeyMap (β : Type*) where
  entries : List (Nat × β)
  sorted : entries.Pairwise (fun a b => a.1 < b.1)

namespace KeyMap

open List

variable {β γ : Type*}

protected def empty : KeyMap β := ⟨[], List.Pairwise.nil⟩

def lookup (m : KeyMap β) (key : Nat) : Option β := m.entries.lookup key

def size (m : KeyMap β) : Nat := m.entries.length

/-- Set the value of a key, given the one it has. -/
def alterEntries (key : Nat) (f : Option β → β) : List (Nat × β) → List (Nat × β)
  | [] => [(key, f none)]
  | (k, v) :: rest =>
    if key < k then (key, f none) :: (k, v) :: rest
    else if key = k then (k, f (some v)) :: rest
    else (k, v) :: alterEntries key f rest

variable {entries : List (Nat × β)} (m : KeyMap β) {key : Nat}

theorem fst_mem_alterEntries {f : Option β → β} {e : Nat × β}
    (he : e ∈ alterEntries key f entries) : e.1 = key ∨ ∃ e' ∈ entries, e'.1 = e.1 := by
  induction entries with
  | nil =>
    simp only [alterEntries, mem_singleton] at he
    exact Or.inl (by rw [he])
  | cons head rest ih =>
    obtain ⟨k, v⟩ := head
    unfold alterEntries at he
    split at he
    · rcases mem_cons.mp he with rfl | he
      · exact Or.inl rfl
      · exact Or.inr ⟨e, he, rfl⟩
    · split at he
      · rcases mem_cons.mp he with rfl | he
        · exact Or.inr ⟨(k, v), by simp, rfl⟩
        · exact Or.inr ⟨e, by simp [he], rfl⟩
      · rcases mem_cons.mp he with rfl | he
        · exact Or.inr ⟨(k, v), by simp, rfl⟩
        · rcases ih he with h | ⟨e', he', h⟩
          · exact Or.inl h
          · exact Or.inr ⟨e', by simp [he'], h⟩

theorem sorted_alterEntries (key : Nat) (f : Option β → β)
    (h : entries.Pairwise (fun a b => a.1 < b.1)) :
    (alterEntries key f entries).Pairwise (fun a b => a.1 < b.1) := by
  induction entries with
  | nil => simp [alterEntries]
  | cons head rest ih =>
    obtain ⟨k, v⟩ := head
    obtain ⟨hhead, hrest⟩ := pairwise_cons.mp h
    unfold alterEntries
    split
    case isTrue hlt =>
      refine pairwise_cons.mpr ⟨?_, h⟩
      intro e he
      rcases mem_cons.mp he with rfl | he
      · exact hlt
      · exact hlt.trans (hhead e he)
    case isFalse hge =>
      split
      · exact pairwise_cons.mpr ⟨hhead, hrest⟩
      · refine pairwise_cons.mpr ⟨?_, ih hrest⟩
        intro e he
        rcases fst_mem_alterEntries he with heq | ⟨e', he', heq⟩
        · show k < e.1
          omega
        · exact heq ▸ hhead e' he'

def alter (m : KeyMap β) (key : Nat) (f : Option β → β) : KeyMap β :=
  ⟨alterEntries key f m.entries, sorted_alterEntries key f m.sorted⟩

def insert (m : KeyMap β) (key : Nat) (value : β) : KeyMap β := m.alter key (fun _ => value)

/-- Change the value of a key that is there. -/
def modify (m : KeyMap β) (key : Nat) (f : β → β) : KeyMap β where
  entries := m.entries.map fun e => (e.1, if e.1 = key then f e.2 else e.2)
  sorted := pairwise_map.mpr m.sorted

def erase (m : KeyMap β) (key : Nat) : KeyMap β where
  entries := m.entries.filter fun e => e.1 ≠ key
  sorted := m.sorted.filter _

protected def filter (m : KeyMap β) (p : Nat × β → Bool) : KeyMap β where
  entries := m.entries.filter p
  sorted := m.sorted.filter _

def mapValues (m : KeyMap β) (f : β → γ) : KeyMap γ where
  entries := m.entries.map fun e => (e.1, f e.2)
  sorted := pairwise_map.mpr m.sorted

/-- The entry with the largest key among those with a property. -/
def findLast (m : KeyMap β) (p : Nat × β → Bool) : Option (Nat × β) := m.entries.reverse.find? p

/-- Enter every row of `rows` into `m`, as a loop over the rows does. -/
def merge (m : KeyMap γ) (f : β → Option γ → γ) (rows : KeyMap β) : KeyMap γ :=
  rows.entries.foldl (fun acc row => acc.alter row.1 (f row.2)) m

theorem lookup_cons_ite (k : Nat) (e : Nat × β) (rest : List (Nat × β)) :
    (e :: rest).lookup k = if k = e.1 then some e.2 else rest.lookup k := by
  obtain ⟨key, v⟩ := e
  by_cases h : k = key
  · subst h
    simp
  · rw [lookup_cons, beq_false_of_ne h, if_neg h]

theorem lookup_eq_none_of_lt (h : ∀ e ∈ entries, key < e.1) : entries.lookup key = none := by
  induction entries with
  | nil => rfl
  | cons e rest ih =>
    have hlt := h e (by simp)
    rw [lookup_cons_ite, if_neg (by omega)]
    exact ih fun e' he' => h e' (by simp [he'])

theorem lookup_alterEntries (key k : Nat) (f : Option β → β)
    (h : entries.Pairwise (fun a b => a.1 < b.1)) : (alterEntries key f entries).lookup k =
      if k = key then some (f (entries.lookup key)) else entries.lookup k := by
  induction entries with
  | nil => simp [alterEntries, lookup_cons_ite]
  | cons e rest ih =>
    obtain ⟨hhead, hrest⟩ := pairwise_cons.mp h
    unfold alterEntries
    split
    case isTrue hlt =>
      have hnone : (e :: rest).lookup key = none := by
        refine lookup_eq_none_of_lt fun e' he' => ?_
        rcases mem_cons.mp he' with rfl | he'
        · exact hlt
        · exact hlt.trans (hhead e' he')
      rw [lookup_cons_ite, hnone]
    case isFalse hge =>
      split
      case isTrue heq => by_cases hk : k = key <;> simp_all [lookup_cons_ite]
      case isFalse hne =>
        rw [lookup_cons_ite, ih hrest, lookup_cons_ite, lookup_cons_ite, if_neg hne]
        by_cases hk : k = e.1
        · have hkey : k ≠ key := fun hkk => hne (hkk ▸ hk)
          simp [hk, hk ▸ hkey]
        · simp [hk]

@[simp] theorem lookup_empty (k : Nat) : (KeyMap.empty : KeyMap β).lookup k = none := rfl

@[simp] theorem lookup_alter (key k : Nat) (f : Option β → β) :
    (m.alter key f).lookup k = if k = key then some (f (m.lookup key)) else m.lookup k :=
  lookup_alterEntries key k f m.sorted

theorem lookup_insert (key k : Nat) (value : β) :
    (m.insert key value).lookup k = if k = key then some value else m.lookup k :=
  lookup_alter m key k _

/-- A key above all others is entered at the end. -/
theorem entries_insert_of_lt {m : KeyMap β} (h : ∀ e ∈ m.entries, e.1 < key) (value : β) :
    (m.insert key value).entries = m.entries ++ [(key, value)] := by
  show alterEntries key (fun _ => value) m.entries = m.entries ++ [(key, value)]
  generalize m.entries = entries at h
  induction entries with
  | nil => rfl
  | cons e rest ih =>
    have hlt := h e (by simp)
    rw [alterEntries, if_neg (by omega), if_neg (by omega), cons_append,
      ih fun f hf => h f (by simp [hf])]

@[simp] theorem lookup_modify (key k : Nat) (f : β → β) :
    (m.modify key f).lookup k = (m.lookup k).map fun v => if k = key then f v else v := by
  show List.lookup k (m.entries.map _) = (m.entries.lookup k).map _
  induction m.entries with
  | nil => rfl
  | cons e rest ih =>
    rw [map_cons, lookup_cons_ite, lookup_cons_ite, ih]
    by_cases hk : k = e.1
    · simp [← hk]
    · simp [hk]

@[simp] theorem lookup_erase (key k : Nat) :
    (m.erase key).lookup k = if k = key then none else m.lookup k := by
  show List.lookup k (m.entries.filter _) = if k = key then none else m.entries.lookup k
  induction m.entries with
  | nil => simp
  | cons e rest ih =>
    rw [filter_cons]
    by_cases he : e.1 = key
    · rw [if_neg (by simp [he]), ih, lookup_cons_ite]
      by_cases hk : k = key
      · simp [hk]
      · simp [hk, he]
    · rw [if_pos (by simpa using he), lookup_cons_ite, lookup_cons_ite, ih]
      by_cases hk : k = e.1
      · simp [hk, he]
      · simp [hk]

/-- An entry that goes may be changed before. -/
theorem erase_modify (key : Nat) (f : β → β) : (m.modify key f).erase key = m.erase key := by
  have hents : ((m.modify key f).erase key).entries = (m.erase key).entries := by
    simp only [erase, modify, List.filter_map]
    refine (map_congr_left fun e he => ?_).trans (List.map_id _)
    have hne : e.1 ≠ key := by simpa using (mem_filter.mp he).2
    rw [if_neg hne]
    rfl
  cases h : (m.modify key f).erase key
  cases h' : m.erase key
  simp only [h, h'] at hents
  subst hents
  rfl

theorem mem_iff_lookup_entries (h : entries.Pairwise (fun a b => a.1 < b.1)) (k : Nat) (v : β) :
    (k, v) ∈ entries ↔ entries.lookup k = some v := by
  induction entries with
  | nil => simp
  | cons e rest ih =>
    obtain ⟨hhead, hrest⟩ := pairwise_cons.mp h
    rw [lookup_cons_ite, mem_cons, ih hrest]
    by_cases hk : k = e.1
    · have hnone : rest.lookup k = none := lookup_eq_none_of_lt (hk ▸ hhead)
      rw [if_pos hk, hnone]
      constructor
      · rintro (rfl | hnot)
        · rfl
        · exact absurd hnot (by simp)
      · intro heq
        exact Or.inl (Prod.ext hk (Option.some.inj heq).symm)
    · rw [if_neg hk]
      constructor
      · rintro (rfl | hmem)
        · exact absurd rfl hk
        · exact hmem
      · exact Or.inr

theorem mem_entries_iff (k : Nat) (v : β) :
    (k, v) ∈ m.entries ↔ m.lookup k = some v := mem_iff_lookup_entries m.sorted k v

@[simp] theorem lookup_mapValues (f : β → γ) (k : Nat) :
    (m.mapValues f).lookup k = (m.lookup k).map f := by
  show List.lookup k (m.entries.map _) = (m.entries.lookup k).map _
  induction m.entries with
  | nil => rfl
  | cons e rest ih =>
    rw [map_cons, lookup_cons_ite, lookup_cons_ite, ih]
    by_cases hk : k = e.1
    · simp [hk]
    · simp [hk]

@[simp] theorem lookup_filter (p : Nat × β → Bool) (k : Nat) :
    (m.filter p).lookup k = (m.lookup k).filter fun v => p (k, v) := by
  ext v
  rw [← mem_entries_iff, Option.filter_eq_some_iff, ← mem_entries_iff]
  exact mem_filter

theorem findLast_eq (p : Nat × β → Bool) : m.findLast p = (m.entries.filter p).getLast? := by
  rw [findLast, ← head?_filter, filter_reverse, head?_reverse]

/-- The last entry with a property is the one with the largest key. -/
theorem getLast_filter_iff (p : Nat × β → Bool) (e : Nat × β) :
    (m.entries.filter p).getLast? = some e ↔
      m.lookup e.1 = some e.2 ∧ p e = true ∧
        ∀ k v, m.lookup k = some v → p (k, v) = true → k ≤ e.1 := by
  have hsort := (m.filter p).sorted
  have hmem : ∀ k v, (k, v) ∈ m.entries.filter p ↔ m.lookup k = some v ∧ p (k, v) = true := by
    intro k v
    rw [mem_filter, mem_entries_iff]
  constructor
  · intro h
    obtain ⟨rows, hrows⟩ := getLast?_eq_some_iff.mp h
    have he := (hmem e.1 e.2).mp (hrows ▸ mem_append_right rows (mem_singleton_self e))
    refine ⟨he.1, he.2, fun k v hk hp => ?_⟩
    have hv := (hmem k v).mpr ⟨hk, hp⟩
    rw [hrows] at hv
    rcases mem_append.mp hv with hv | hv
    · have hpair : (rows ++ [e]).Pairwise fun a b => a.1 < b.1 := hrows ▸ hsort
      exact ((pairwise_append.mp hpair).2.2 _ hv e (by simp)).le
    · exact (congrArg Prod.fst (mem_singleton.mp hv)).le
  · rintro ⟨he, hp, hmax⟩
    have hin := (hmem e.1 e.2).mpr ⟨he, hp⟩
    cases hlast : (m.entries.filter p).getLast? with
    | none =>
      rw [getLast?_eq_none_iff] at hlast
      exact absurd hin (by simp [hlast])
    | some f =>
      obtain ⟨rows, hrows⟩ := getLast?_eq_some_iff.mp hlast
      have hf := (hmem f.1 f.2).mp (hrows ▸ mem_append_right rows (mem_singleton_self f))
      have hle := hmax f.1 f.2 hf.1 hf.2
      have hpair : (rows ++ [f]).Pairwise fun a b => a.1 < b.1 := hrows ▸ hsort
      rw [hrows] at hin
      rcases mem_append.mp hin with hin | hin
      · have hlt := (pairwise_append.mp hpair).2.2 _ hin f (by simp)
        exact absurd hlt (by simp only [not_lt]; exact hle)
      · rw [← mem_singleton.mp hin]

theorem lookup_foldl_alter (f : β → Option γ → γ) (h : entries.Pairwise (fun a b => a.1 < b.1))
    (m : KeyMap γ) (k : Nat) :
    (entries.foldl (fun acc row => acc.alter row.1 (f row.2)) m).lookup k =
      match entries.lookup k with
      | some row => some (f row (m.lookup k))
      | none => m.lookup k := by
  induction entries generalizing m with
  | nil => rfl
  | cons e rest ih =>
    obtain ⟨hhead, hrest⟩ := pairwise_cons.mp h
    rw [foldl_cons, ih hrest, lookup_alter, lookup_cons_ite]
    by_cases hk : k = e.1
    · have hnone : rest.lookup k = none := lookup_eq_none_of_lt (hk ▸ hhead)
      simp only [hnone, if_pos hk]
      rw [hk]
    · simp only [if_neg hk]

/-- A row that is there is entered over what the map has for its key; every
other key keeps its value. -/
theorem lookup_merge (m : KeyMap γ) (f : β → Option γ → γ) (rows : KeyMap β) (k : Nat) :
    (m.merge f rows).lookup k =
      match rows.lookup k with
      | some row => some (f row (m.lookup k))
      | none => m.lookup k :=
  lookup_foldl_alter f rows.sorted m k

end KeyMap
