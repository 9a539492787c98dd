import Mathlib.Data.List.Sort
import Mathlib.Order.Defs.LinearOrder
import Mathlib.Data.List.Lex
import Mathlib.Data.List.TakeWhile
import Mathlib.Tactic.Ring

/-!
Listings of sorted keys in pages. A grouping lists all keys that start with one
text as a single entry. A page has the first entries of the keys that are left,
and a token; the next page is for the keys above the token that do not start
with it.
-/

namespace UhCore.Paging

open List Option

variable {α β : Type}

/-- A listed item, or the text of a group. -/
inductive Entry (α β : Type) where
  | item (b : β)
  | common (p : List α)

def items (es : List (Entry α β)) : List β :=
  es.filterMap fun
    | .item b => some b
    | .common _ => none

def commons (es : List (Entry α β)) : List (List α) :=
  es.filterMap fun
    | .item _ => none
    | .common p => some p

@[simp] theorem items_append (es fs : List (Entry α β)) :
    items (es ++ fs) = items es ++ items fs := filterMap_append

@[simp] theorem commons_append (es fs : List (Entry α β)) :
    commons (es ++ fs) = commons es ++ commons fs := filterMap_append

theorem items_map_item (bs : List β) : items (bs.map (Entry.item : β → Entry α β)) = bs := by
  induction bs with
  | nil => rfl
  | cons b bs ih => exact congrArg (b :: ·) ih

theorem items_flatten (ps : List (List (Entry α β))) : items ps.flatten = ps.flatMap items := by
  induction ps with
  | nil => rfl
  | cons p ps ih => rw [flatten_cons, items_append, ih, flatMap_cons]

theorem commons_flatten (ps : List (List (Entry α β))) :
    commons ps.flatten = ps.flatMap commons := by
  induction ps with
  | nil => rfl
  | cons p ps ih => rw [flatten_cons, commons_append, ih, flatMap_cons]

theorem length_items_add_commons (es : List (Entry α β)) :
    (items es).length + (commons es).length = es.length := by
  induction es with
  | nil => rfl
  | cons e es ih =>
    cases e <;> simp only [items, commons, filterMap_cons, length_cons] at ih ⊢ <;> omega

variable {es : List (Entry α β)}

theorem mem_items {b : β} : b ∈ items es ↔ .item b ∈ es := by
  simp only [items, mem_filterMap]
  constructor
  · rintro ⟨e, he, heq⟩
    cases e with
    | item c => simpa using (some.inj heq) ▸ he
    | common p => simp at heq
  · exact fun h => ⟨_, h, rfl⟩

theorem mem_commons {p : List α} : p ∈ commons es ↔ .common p ∈ es := by
  simp only [commons, mem_filterMap]
  constructor
  · rintro ⟨e, he, heq⟩
    cases e with
    | item c => simp at heq
    | common q => simpa using (some.inj heq) ▸ he
  · exact fun h => ⟨_, h, rfl⟩

/-- Two lists of entries with the same items and the same groups have the same
entries. -/
theorem mem_of_parts {fs : List (Entry α β)} (hitems : items es = items fs)
    (hcommons : commons es = commons fs) {e : Entry α β} (he : e ∈ es) : e ∈ fs := by
  cases e with
  | item b => exact mem_items.mp (hitems ▸ mem_items.mpr he)
  | common p => exact mem_commons.mp (hcommons ▸ mem_commons.mpr he)

variable [LinearOrder α]

theorem cons_le_cons_iff {a b : α} {l m : List α} : a :: l ≤ b :: m ↔ a < b ∨ a = b ∧ l ≤ m := by
  rw [← not_lt, ← not_lt (a := m), cons_lt_cons_iff]
  rcases lt_trichotomy a b with h | rfl | h
  · simp [h, h.ne', lt_asymm h]
  · simp
  · simp [h, h.ne', lt_asymm h]

/-- Between a text and one that starts with it all texts start with it. -/
theorem isPrefix_of_between {t k k' : List α} (h : t <+: k') (hlow : t ≤ k) (hhigh : k ≤ k') :
    t <+: k := by
  induction t generalizing k k' with
  | nil => exact nil_prefix
  | cons a t ih =>
    obtain ⟨u, rfl⟩ := h
    cases k with
    | nil => exact absurd hlow (not_le.mpr (nil_lt_cons a t))
    | cons b k =>
      rw [cons_append] at hhigh
      rcases cons_le_cons_iff.mp hlow with hab | ⟨rfl, hrest⟩
      · rcases cons_le_cons_iff.mp hhigh with hba | ⟨rfl, _⟩
        · exact absurd hab (lt_asymm hba)
        · exact absurd hab (lt_irrefl _)
      · rcases cons_le_cons_iff.mp hhigh with haa | ⟨_, hrest'⟩
        · exact absurd haa (lt_irrefl _)
        · exact cons_prefix_cons.mpr ⟨rfl, ih (prefix_append t u) hrest hrest'⟩

theorem le_of_isPrefix {t k : List α} (h : t <+: k) : t ≤ k := by
  induction t generalizing k with
  | nil => exact not_lt.mp (not_lt_nil k)
  | cons a t ih =>
    obtain ⟨u, rfl⟩ := h
    exact cons_le_cons_iff.mpr (.inr ⟨rfl, ih (prefix_append t u)⟩)

/-- Which keys are listed as one entry: all that start with the text of the
entry. -/
structure Grouping (α : Type) where
  group : List α → Option (List α)
  ne_nil : ∀ {k p}, group k = some p → p ≠ []
  starts : ∀ {k p}, group k = some p → p <+: k
  same : ∀ {k k' p}, group k = some p → p <+: k' → group k' = some p

section Entries

variable (g : Grouping α) (name : β → List α)

def entryOf (b : β) : Entry α β :=
  match g.group (name b) with
  | none => .item b
  | some p => .common p

/-- The entries of sorted items; `previous` is the group listed last. -/
def entriesFrom : List α → List β → List (Entry α β)
  | _, [] => []
  | previous, b :: bs =>
    match g.group (name b) with
    | none => .item b :: entriesFrom previous bs
    | some p =>
      if previous = p then entriesFrom previous bs else .common p :: entriesFrom p bs

def entries (bs : List β) : List (Entry α β) := entriesFrom g name [] bs

/-- The items behind the entry of `b`. -/
def rest (b : β) (bs : List β) : List β :=
  match g.group (name b) with
  | none => bs
  | some p => bs.dropWhile fun c => p.isPrefixOf (name c)

/-- The items behind the first entries. -/
def behind : Nat → List β → List β
  | 0, bs => bs
  | _ + 1, [] => []
  | n + 1, b :: bs => behind n (rest g name b bs)

def Sorted (bs : List β) : Prop := bs.Pairwise fun b c => name b < name c

variable {g name}

theorem Sorted.sublist {bs cs : List β} (h : Sorted name bs) (hsub : cs.Sublist bs) :
    Sorted name cs :=
  List.Pairwise.sublist hsub h

variable {bs : List β} {p previous : List α} {b : β}

theorem Sorted.head_le (h : Sorted name (b :: bs)) {c : β} (hc : c ∈ b :: bs) : name b ≤ name c := by
  rcases mem_cons.mp hc with rfl | hc
  · exact le_refl _
  · exact ((pairwise_cons.mp h).1 c hc).le

/-- Behind the items of a group none of its texts comes any more. -/
theorem not_isPrefix_of_mem_dropWhile (hsort : Sorted name bs) (hlow : ∀ c ∈ bs, p ≤ name c) {c : β}
    (hc : c ∈ bs.dropWhile fun c => p.isPrefixOf (name c)) : ¬ p <+: name c := by
  induction bs with
  | nil => simp at hc
  | cons b bs ih =>
    obtain ⟨hb, hbs⟩ := pairwise_cons.mp hsort
    rw [dropWhile_cons] at hc
    split at hc
    · exact ih hbs (fun c hc => hlow c (by simp [hc])) hc
    case isFalse hstarts =>
      rw [ isPrefixOf_iff_prefix] at hstarts
      rcases mem_cons.mp hc with rfl | hc
      · exact hstarts
      · intro hpc
        exact hstarts (isPrefix_of_between hpc (hlow b (by simp)) (hb c hc).le)

theorem entriesFrom_of_ne (h : ∀ c ∈ bs, g.group (name c) ≠ some previous) :
    entriesFrom g name previous bs = entries g name bs := by
  induction bs with
  | nil => rfl
  | cons b bs ih =>
    have hb := h b (by simp)
    have hbs := ih fun c hc => h c (by simp [hc])
    unfold entries entriesFrom
    cases hgroup : g.group (name b) with
    | none => simpa [entries] using hbs
    | some p =>
      have hprevious : previous ≠ p := by
        rintro rfl
        exact hb hgroup
      simp [hprevious, (g.ne_nil hgroup).symm]

theorem entriesFrom_dropWhile (hp : g.group (name b) = some p) (bs : List β) :
    entriesFrom g name p bs =
      entriesFrom g name p (bs.dropWhile fun c => p.isPrefixOf (name c)) := by
  induction bs with
  | nil => rfl
  | cons c bs ih =>
    rw [dropWhile_cons]
    split
    case isTrue hstarts =>
      have hc := g.same hp ( isPrefixOf_iff_prefix.mp hstarts)
      rw [← ih]
      simp [entriesFrom, hc]
    case isFalse => rfl

/-- The first entry, and those of the items behind it. -/
theorem entries_cons (hsort : Sorted name (b :: bs)) :
    entries g name (b :: bs) = entryOf g name b :: entries g name (rest g name b bs) := by
  obtain ⟨hb, hbs⟩ := pairwise_cons.mp hsort
  cases hgroup : g.group (name b) with
  | none => simp [entries, entriesFrom, entryOf, rest, hgroup]
  | some p =>
    have hlow : ∀ c ∈ bs, p ≤ name c := fun c hc =>
      (le_of_isPrefix (g.starts hgroup)).trans (hb c hc).le
    have hne : ∀ c ∈ bs.dropWhile (fun c => p.isPrefixOf (name c)), g.group (name c) ≠ some p := by
      intro c hc hgroup'
      exact not_isPrefix_of_mem_dropWhile hbs hlow hc (g.starts hgroup')
    have hents : entries g name (b :: bs) = .common p :: entriesFrom g name p bs := by
      simp [entries, entriesFrom, hgroup, (g.ne_nil hgroup).symm]
    rw [hents, entriesFrom_dropWhile hgroup, entriesFrom_of_ne hne]
    simp [entryOf, rest, hgroup]

theorem rest_suffix (b : β) (bs : List β) : rest g name b bs <:+ bs := by
  unfold rest
  cases g.group (name b) with
  | none => exact suffix_refl bs
  | some p => exact dropWhile_suffix _

theorem behind_suffix (n : Nat) (bs : List β) : behind g name n bs <:+ bs := by
  induction n generalizing bs with
  | zero => exact suffix_refl bs
  | succ n ih =>
    cases bs with
    | nil => exact suffix_refl []
    | cons b bs =>
      exact ((ih _).trans (rest_suffix b bs)).trans (suffix_cons b bs)

theorem behind_nil (n : Nat) : behind g name n [] = [] := by
  cases n <;> rfl

theorem behind_add (m n : Nat) (bs : List β) :
    behind g name (m + n) bs = behind g name n (behind g name m bs) := by
  induction m generalizing bs with
  | zero => rw [zero_add, behind]
  | succ m ih =>
    cases bs with
    | nil => rw [behind_nil, behind_nil, behind_nil]
    | cons b bs =>
      rw [Nat.succ_add]
      exact ih _

theorem entries_behind (hsort : Sorted name bs) (n : Nat) :
    entries g name (behind g name n bs) = (entries g name bs).drop n := by
  induction n generalizing bs with
  | zero => rfl
  | succ n ih =>
    cases bs with
    | nil => rfl
    | cons b bs =>
      have hrest : Sorted name (rest g name b bs) :=
        hsort.sublist ((rest_suffix b bs).sublist.cons b)
      rw [entries_cons hsort, drop_succ_cons, ← ih hrest]
      rfl

theorem behind_ne_nil (hsort : Sorted name bs) {n : Nat} (h : n < (entries g name bs).length) :
    behind g name n bs ≠ [] := by
  intro hnil
  have hlast := entries_behind (g := g) hsort n
  rw [hnil] at hlast
  exact absurd (drop_eq_nil_iff.mp hlast.symm) (not_le.mpr h)

theorem exists_of_mem_entriesFrom {e : Entry α β} (he : e ∈ entriesFrom g name previous bs) :
    ∃ b ∈ bs, e = entryOf g name b := by
  induction bs generalizing previous with
  | nil => simp [entriesFrom] at he
  | cons b bs ih =>
    have hrest : ∀ {previous}, e ∈ entriesFrom g name previous bs →
        ∃ c ∈ b :: bs, e = entryOf g name c := by
      intro previous he
      obtain ⟨c, hc, hec⟩ := ih he
      exact ⟨c, by simp [hc], hec⟩
    unfold entriesFrom at he
    cases hgroup : g.group (name b) with
    | none =>
      simp only [hgroup, mem_cons] at he
      rcases he with rfl | he
      · exact ⟨b, by simp, by simp [entryOf, hgroup]⟩
      · exact hrest he
    | some p =>
      simp only [hgroup] at he
      split at he
      · exact hrest he
      · rcases mem_cons.mp he with rfl | he
        · exact ⟨b, by simp, by simp [entryOf, hgroup]⟩
        · exact hrest he

theorem entries_of_none (h : ∀ b ∈ bs, g.group (name b) = none) :
    entries g name bs = bs.map .item := by
  unfold entries
  induction bs with
  | nil => rfl
  | cons b bs ih =>
    rw [entriesFrom, h b (by simp)]
    simp only [map_cons]
    rw [ih fun c hc => h c (by simp [hc])]

/-- Behind `n` entries at least `n` items are left out. -/
theorem behind_eq_drop (n : Nat) (bs : List β) : ∃ i, n ≤ i ∧ behind g name n bs = bs.drop i := by
  induction n generalizing bs with
  | zero => exact ⟨0, le_refl 0, rfl⟩
  | succ n ih =>
    cases bs with
    | nil => exact ⟨n + 1, le_refl _, by simp [behind]⟩
    | cons b bs =>
      obtain ⟨i, hi, hdrop⟩ := ih (rest g name b bs)
      obtain ⟨front, hfront⟩ : rest g name b bs <:+ bs := rest_suffix b bs
      refine ⟨front.length + i + 1, by omega, ?_⟩
      rw [drop_succ_cons, behind, hdrop, ← drop_drop]
      congr 1
      conv_rhs => rw [← hfront]
      exact drop_left.symm

theorem entries_eq_nil_iff (hsort : Sorted name bs) : entries g name bs = [] ↔ bs = [] := by
  cases bs with
  | nil => simp [entries, entriesFrom]
  | cons b bs => simp [entries_cons hsort]

end Entries

section Pages

variable (g : Grouping α) (name : β → List α) (m : Nat) (all : List β)

/-- The items of the page behind a token; no token is an empty one. -/
def next (token : List α) : List β :=
  if token = [] then all
  else all.filter fun b => decide (token < name b ∧ ¬ token <+: name b)

/-- The token of a full page: its last entry if this is a group, else the name
of the item that stands at the number of the last entry. -/
def token (bs : List β) : List α :=
  match (entries g name bs)[m - 1]? with
  | some (.common p) => p
  | _ => (bs[m - 1]?.map name).getD []

def pages : Nat → List β → Option (List (List (Entry α β)))
  | 0, _ => none
  | fuel + 1, bs =>
    if m < (entries g name bs).length then
      (pages fuel (next name all (token g name m bs))).map ((entries g name bs).take m :: ·)
    else some [entries g name bs]

/-- At every end of a page that is an item with further items behind it, the
item that stands at the number of the last entry has a name that the last one
starts with and none behind it. -/
def Clear (bs : List β) : Prop :=
  ∀ j b cs, behind g name (j * m + (m - 1)) bs = b :: cs → cs ≠ [] → g.group (name b) = none →
    ∃ t, (behind g name (j * m) bs)[m - 1]? = some t ∧ name t <+: name b ∧
      ∀ c ∈ cs, ¬ name t <+: name c

variable {g name m all}

variable {bs : List β} {b : β} {t : List α} {as cs : List β} {fuel : Nat}
  {ps : List (List (Entry α β))} {p : List α}

/-- The conditions at the end of the first page and of those behind it. -/
theorem clear_iff : Clear g name m bs ↔
      (∀ b cs, behind g name (m - 1) bs = b :: cs → cs ≠ [] → g.group (name b) = none →
        ∃ t, bs[m - 1]? = some t ∧ name t <+: name b ∧ ∀ c ∈ cs, ¬ name t <+: name c) ∧
      Clear g name m (behind g name m bs) := by
  have hshift : ∀ j n, behind g name ((j + 1) * m + n) bs =
      behind g name (j * m + n) (behind g name m bs) := by
    intro j n
    rw [← behind_add]
    congr 1
    ring
  constructor
  · intro h
    refine ⟨fun b cs hb => ?_, fun j b cs hb => ?_⟩
    · simpa [behind] using h 0 b cs (by simpa using hb)
    · have hj := h (j + 1) b cs (by rw [hshift, hb])
      rwa [← add_zero ((j + 1) * m), hshift, add_zero] at hj
  · rintro ⟨hfirst, hrest⟩ j b cs hb
    cases j with
    | zero => simpa [behind] using hfirst b cs (by simpa using hb)
    | succ j =>
      rw [hshift] at hb
      rw [← add_zero ((j + 1) * m), hshift, add_zero]
      exact hrest j b cs hb

theorem next_of_isPrefix {as bs : List β} (hsort : Sorted name (as ++ b :: bs)) (ht : t ≠ [])
    (hb : t <+: name b) :
    next name (as ++ b :: bs) t = bs.filter fun c => decide (¬ t <+: name c) := by
  obtain ⟨_, hbs, has⟩ := pairwise_append.mp hsort
  obtain ⟨hbs, _⟩ := pairwise_cons.mp hbs
  have hfront : as.filter (fun c => decide (t < name c ∧ ¬ t <+: name c)) = [] := by
    rw [filter_eq_nil_iff]
    intro c hc
    have hcb := has c hc b (by simp)
    simp only [decide_eq_true_eq, not_and, not_not]
    intro htc
    exact isPrefix_of_between hb htc.le hcb.le
  rw [next, if_neg ht, filter_append, hfront, nil_append, filter_cons_of_neg]
  · apply filter_congr
    intro c hc
    have htc : t < name c := (le_of_isPrefix hb).trans_lt (hbs c hc)
    simp [htc]
  · simp [hb]

theorem mem_next (ht : t ≠ []) : b ∈ next name all t ↔ b ∈ all ∧ t < name b ∧ ¬ t <+: name b := by
  simp [next, ht]

theorem exists_last (hsort : Sorted name bs) (hm : 0 < m) (hfull : m < (entries g name bs).length)
    : ∃ b cs, behind g name (m - 1) bs = b :: cs ∧ behind g name m bs = rest g name b cs ∧
      rest g name b cs ≠ [] ∧ (entries g name bs)[m - 1]? = some (entryOf g name b) := by
  have hlast := entries_behind (g := g) hsort (m - 1)
  have hsub : Sorted name (behind g name (m - 1) bs) := hsort.sublist (behind_suffix _ _).sublist
  obtain ⟨b, cs, hbcs⟩ := exists_cons_of_ne_nil (behind_ne_nil (g := g) (n := m - 1) hsort (by omega))
  have hrest : behind g name m bs = rest g name b cs := by
    have hsum : m = m - 1 + 1 := by omega
    rw [hsum, behind_add, hbcs]
    rfl
  refine ⟨b, cs, hbcs, hrest, ?_, ?_⟩
  · rw [← hrest]
    exact behind_ne_nil hsort hfull
  · rw [hbcs, entries_cons (hbcs ▸ hsub)] at hlast
    have hhead := congrArg (fun es => es[0]?) hlast
    simpa using hhead.symm

/-- The item at the number of the last entry comes no later than the last
item. -/
theorem exists_at_number (hsort : Sorted name bs) {n : Nat} {cs : List β}
    (h : behind g name n bs = b :: cs) : ∃ t, bs[n]? = some t ∧ t ∈ bs ∧ name t ≤ name b := by
  obtain ⟨i, hi, hdrop⟩ : ∃ i, n ≤ i ∧ behind g name n bs = bs.drop i := behind_eq_drop n bs
  rw [h] at hdrop
  have hib : bs[i]? = some b := by
    have hhead := congrArg (fun es => es[0]?) hdrop
    simpa using hhead.symm
  obtain ⟨hlt, hb⟩ := List.getElem?_eq_some_iff.mp hib
  have hn : n < bs.length := by omega
  refine ⟨bs[n], getElem?_eq_getElem hn, getElem_mem hn, ?_⟩
  rcases Nat.eq_or_lt_of_le hi with rfl | hlt'
  · exact le_of_eq (by rw [hb])
  · rw [← hb]
    exact (pairwise_iff_getElem.mp hsort n i hn hlt hlt').le

theorem token_of_group (hlast : (entries g name bs)[m - 1]? = some (entryOf g name b))
    (hgroup : g.group (name b) = some p) : token g name m bs = p := by
  simp [token, hlast, entryOf, hgroup]

theorem token_of_item {b t : β} (hlast : (entries g name bs)[m - 1]? = some (entryOf g name b))
    (hgroup : g.group (name b) = none) (ht : bs[m - 1]? = some t) : token g name m bs = name t := by
  simp [token, hlast, entryOf, hgroup, ht]

/-- A page that ends in a group is followed by the items behind it. -/
theorem next_of_group (hsort : Sorted name (as ++ b :: cs)) (hgroup : g.group (name b) = some p) :
    next name (as ++ b :: cs) p = rest g name b cs := by
  rw [next_of_isPrefix hsort (g.ne_nil hgroup) (g.starts hgroup)]
  obtain ⟨hb, hcs⟩ := pairwise_cons.mp (pairwise_append.mp hsort).2.1
  have hlow : ∀ c ∈ cs, p ≤ name c := fun c hc =>
    (le_of_isPrefix (g.starts hgroup)).trans (hb c hc).le
  have hnot := fun c => not_isPrefix_of_mem_dropWhile (c := c) hcs hlow
  have hsplit : cs.filter (fun c => decide (¬ p <+: name c)) =
      ((cs.takeWhile fun c => p.isPrefixOf (name c)) ++
        cs.dropWhile fun c => p.isPrefixOf (name c)).filter fun c => decide (¬ p <+: name c) := by
    rw [takeWhile_append_dropWhile]
  have hfront : (cs.takeWhile fun c => p.isPrefixOf (name c)).filter
      (fun c => decide (¬ p <+: name c)) = [] := by
    rw [filter_eq_nil_iff]
    intro c hc
    have hstarts := mem_takeWhile_imp hc
    simpa [← isPrefixOf_iff_prefix] using hstarts
  rw [hsplit, filter_append, hfront, nil_append, filter_eq_self.mpr, rest, hgroup]
  intro c hc
  exact decide_eq_true (hnot c hc)

/-- A page that ends in an item is followed by the items behind it, if the name
at its number clears them. -/
theorem next_of_item (hsort : Sorted name (as ++ b :: cs)) (hcs : cs ≠ []) (hb : t <+: name b)
    (hclear : ∀ c ∈ cs, ¬ t <+: name c) : next name (as ++ b :: cs) t = cs := by
  have ht : t ≠ [] := by
    rintro rfl
    obtain ⟨c, cs', rfl⟩ := exists_cons_of_ne_nil hcs
    exact hclear c (by simp) nil_prefix
  rw [next_of_isPrefix hsort ht hb, filter_eq_self]
  intro c hc
  exact decide_eq_true (hclear c hc)

/-- The first entry of what is left is on the first page. -/
theorem head_mem_pages (hsort : Sorted name (b :: bs)) (hm : 0 < m)
    (h : pages g name m all fuel (b :: bs) = some ps) : entryOf g name b ∈ ps.flatten := by
  cases fuel with
  | zero => simp [pages] at h
  | succ fuel =>
    unfold pages at h
    rw [entries_cons hsort] at h
    split at h
    · obtain ⟨ps', _, rfl⟩ := map_eq_some_iff.mp h
      obtain ⟨n, rfl⟩ := Nat.exists_eq_succ_of_ne_zero hm.ne'
      simp
    · rw [← some.inj h]
      simp

/-- Above the token of a page there is nothing in front of the page. -/
theorem mem_of_mem_next {as bs : List β} (hsort : Sorted name (as ++ bs)) (hm : 0 < m)
    (hne : ∀ b ∈ bs, name b ≠ []) (hfull : m < (entries g name bs).length) {c : β}
    (hc : c ∈ next name (as ++ bs) (token g name m bs)) : c ∈ bs := by
  have hsub : Sorted name bs := hsort.sublist (sublist_append_right as bs)
  obtain ⟨b, cs, hbcs, _, _, hlast⟩ := exists_last hsub hm hfull
  have hb : b ∈ bs := (behind_suffix _ _).subset (hbcs ▸ mem_cons_self)
  have hfront := (pairwise_append.mp hsort).2.2
  cases hgroup : g.group (name b) with
  | none =>
    obtain ⟨t, ht, htmem, _⟩ := exists_at_number hsub hbcs
    rw [token_of_item hlast hgroup ht, mem_next (hne t htmem)] at hc
    rcases mem_append.mp hc.1 with hcas | hcbs
    · exact absurd hc.2.1 (lt_asymm (hfront c hcas t htmem))
    · exact hcbs
  | some p =>
    rw [token_of_group hlast hgroup, mem_next (g.ne_nil hgroup)] at hc
    rcases mem_append.mp hc.1 with hcas | hcbs
    · exact absurd (isPrefix_of_between (g.starts hgroup) hc.2.1.le (hfront c hcas b hb).le) hc.2.2
    · exact hcbs

theorem sorted_next (hsort : Sorted name all) (t : List α) : Sorted name (next name all t) := by
  unfold next
  split
  · exact hsort
  · exact hsort.sublist filter_sublist

/-- What lies above a token is what is left of the items from some point on. -/
theorem next_suffix (hsort : Sorted name all) (t : List α) : next name all t <:+ all := by
  unfold next
  split
  · exact suffix_refl all
  case isFalse ht =>
    clear ht
    induction all with
    | nil => exact suffix_refl []
    | cons b bs ih =>
      obtain ⟨hb, hbs⟩ := pairwise_cons.mp hsort
      by_cases hkeep : t < name b ∧ ¬ t <+: name b
      · have hall : ∀ c ∈ b :: bs, t < name c ∧ ¬ t <+: name c := by
          intro c hc
          rcases mem_cons.mp hc with rfl | hc
          · exact hkeep
          · refine ⟨hkeep.1.trans (hb c hc), fun hstarts => ?_⟩
            exact hkeep.2 (isPrefix_of_between hstarts hkeep.1.le (hb c hc).le)
        exact ⟨[], filter_eq_self.mpr fun c hc => decide_eq_true (hall c hc)⟩
      · rw [filter_cons_of_neg (by simpa using hkeep)]
        exact (ih hbs).trans (suffix_cons b bs)

/-- All pages list what is left only. -/
theorem exists_of_mem_pages (hsort : Sorted name all) (hm : 0 < m) (hsuf : bs <:+ all)
    (hne : ∀ b ∈ bs, name b ≠ []) (h : pages g name m all fuel bs = some ps) {e : Entry α β}
    (he : e ∈ ps.flatten) : ∃ b ∈ bs, e = entryOf g name b := by
  induction fuel generalizing bs ps with
  | zero => simp [pages] at h
  | succ fuel ih =>
    unfold pages at h
    split at h
    case isTrue hfull =>
      obtain ⟨ps', hps', rfl⟩ := map_eq_some_iff.mp h
      rw [flatten_cons] at he
      rcases mem_append.mp he with he | he
      · exact exists_of_mem_entriesFrom (mem_of_mem_take he)
      · obtain ⟨as, rfl⟩ := hsuf
        have hsub := fun c => mem_of_mem_next (c := c) hsort hm hne hfull
        obtain ⟨b, hb, heb⟩ := ih (next_suffix hsort _) (fun c hc => hne c (hsub c hc)) hps' he
        exact ⟨b, hsub b hb, heb⟩
    · rw [← some.inj h] at he
      have he : e ∈ entries g name bs := by simpa using he
      exact exists_of_mem_entriesFrom he

omit [LinearOrder α] in
theorem entryOf_eq {x y : β} (h : entryOf g name x = entryOf g name y) :
    x = y ∨ ∃ p, g.group (name x) = some p ∧ g.group (name y) = some p := by
  unfold entryOf at h
  cases hx : g.group (name x) <;> cases hy : g.group (name y) <;> simp_all

/-- If the pages behind a page that ends in an item list what is behind it, the
name at its number clears them. -/
theorem clear_of_next (hsort : Sorted name (as ++ b :: cs)) (hm : 0 < m) (htb : t ≤ name b)
    (hgroup : g.group (name b) = none)
    (h : pages g name m (as ++ b :: cs) fuel (next name (as ++ b :: cs) t) = some ps)
    (hitems : items ps.flatten = items (entries g name cs))
    (hcommons : commons ps.flatten = commons (entries g name cs)) :
    t <+: name b ∧ ∀ c ∈ cs, ¬ t <+: name c := by
  obtain ⟨hbcs, hcs⟩ := pairwise_cons.mp (pairwise_append.mp hsort).2.1
  have hbmem : b ∈ as ++ b :: cs := by simp
  have hout : b ∉ next name (as ++ b :: cs) t := by
    intro hb
    have hsub := sorted_next hsort t
    obtain ⟨s, ss, hs⟩ := exists_cons_of_ne_nil (ne_nil_of_mem hb)
    rw [hs] at h hsub hb
    have hsb := hsub.head_le hb
    obtain ⟨y, hy, hsy⟩ := exists_of_mem_entriesFrom
      (mem_of_parts hitems hcommons (head_mem_pages hsub hm h))
    rcases entryOf_eq hsy with rfl | ⟨p, hp, hp'⟩
    · exact absurd hsb (not_le.mpr (hbcs s hy))
    · have hpb := isPrefix_of_between (g.starts hp')
        ((le_of_isPrefix (g.starts hp)).trans hsb) (hbcs y hy).le
      rw [g.same hp hpb] at hgroup
      exact absurd hgroup (by simp)
  have ht : t ≠ [] := by
    rintro rfl
    exact hout (by simp [next])
  have hstarts : t <+: name b := by
    by_contra hno
    have hlt : t < name b := lt_of_le_of_ne htb fun heq => hno (heq ▸ prefix_refl _)
    exact hout ((mem_next ht).mpr ⟨hbmem, hlt, hno⟩)
  refine ⟨hstarts, fun c hc htc => ?_⟩
  obtain ⟨r, rs, rfl⟩ := exists_cons_of_ne_nil (ne_nil_of_mem hc)
  have htr : t <+: name r :=
    isPrefix_of_between htc (htb.trans (hbcs r (by simp)).le) (Sorted.head_le hcs hc)
  have hne : ∀ x ∈ next name (as ++ b :: r :: rs) t, name x ≠ [] := by
    intro x hx hnil
    have hlt := ((mem_next ht).mp hx).2.1
    rw [hnil] at hlt
    exact not_lt_nil t hlt
  have hr : entryOf g name r ∈ entries g name (r :: rs) := by
    rw [entries_cons hcs]
    exact mem_cons_self
  obtain ⟨y, hy, hry⟩ := exists_of_mem_pages hsort hm (next_suffix hsort t) hne h
    (mem_of_parts hitems.symm hcommons.symm hr)
  have hty := ((mem_next ht).mp hy).2.2
  rcases entryOf_eq hry with rfl | ⟨p, hp, hp'⟩
  · exact hty htr
  · rcases prefix_or_prefix_of_prefix (g.starts hp) htr with hpt | htp
    · rw [g.same hp (hpt.trans hstarts)] at hgroup
      exact absurd hgroup (by simp)
    · exact hty (htp.trans (g.starts hp'))

theorem rest_of_item (h : g.group (name b) = none) (cs : List β) : rest g name b cs = cs := by
  simp [rest, h]

theorem clear_of_not_full (hsort : Sorted name bs) (hlen : (entries g name bs).length ≤ m) :
    Clear g name m bs := by
  intro j b cs hb hcs hgroup
  have hsub : Sorted name (b :: cs) := hb ▸ hsort.sublist (behind_suffix _ _).sublist
  have hdrop := congrArg List.length (entries_behind (g := g) hsort (j * m + (m - 1)))
  have hrest : 0 < (entries g name cs).length := by
    rw [length_pos_iff, ne_eq, entries_eq_nil_iff (hsub.sublist (sublist_cons_self b cs))]
    exact hcs
  rw [hb, entries_cons hsub, rest_of_item hgroup, length_cons, length_drop] at hdrop
  omega

/-- Pages that list everything once end where the names clear. -/
theorem clear_of_pages (hsort : Sorted name all) (hm : 0 < m) (hsuf : bs <:+ all)
    (h : pages g name m all fuel bs = some ps)
    (hitems : items ps.flatten = items (entries g name bs))
    (hcommons : commons ps.flatten = commons (entries g name bs)) : Clear g name m bs := by
  induction fuel generalizing bs ps with
  | zero => simp [pages] at h
  | succ fuel ih =>
    have hsub : Sorted name bs := hsort.sublist hsuf.sublist
    unfold pages at h
    split at h
    case isFalse hfull => exact clear_of_not_full hsub (not_lt.mp hfull)
    case isTrue hfull =>
      obtain ⟨ps', hps', rfl⟩ := map_eq_some_iff.mp h
      obtain ⟨b, cs, hbcs, hrest, hne, hlast⟩ := exists_last hsub hm hfull
      have hsplit : entries g name bs =
          (entries g name bs).take m ++ entries g name (rest g name b cs) := by
        rw [← hrest, entries_behind hsub, take_append_drop]
      rw [flatten_cons, hsplit, take_left' (by simp; omega)] at hitems hcommons
      rw [items_append, items_append, append_cancel_left_eq] at hitems
      rw [commons_append, commons_append, append_cancel_left_eq] at hcommons
      have hbehind : b :: cs <:+ all := hbcs ▸ (behind_suffix _ _).trans hsuf
      obtain ⟨as, rfl⟩ := hbehind
      have hstep : next name (as ++ b :: cs) (token g name m bs) = rest g name b cs ∧
          (g.group (name b) = none → ∃ t, bs[m - 1]? = some t ∧ name t <+: name b ∧
            ∀ c ∈ cs, ¬ name t <+: name c) := by
        cases hgroup : g.group (name b) with
        | some p =>
          rw [token_of_group hlast hgroup]
          exact ⟨next_of_group hsort hgroup, by simp⟩
        | none =>
          obtain ⟨t, ht, _, htb⟩ := exists_at_number hsub hbcs
          rw [rest_of_item hgroup] at hitems hcommons hne ⊢
          rw [token_of_item hlast hgroup ht] at hps' ⊢
          obtain ⟨hstarts, hclear⟩ := clear_of_next hsort hm htb hgroup hps' hitems hcommons
          exact ⟨next_of_item hsort hne hstarts hclear, fun _ => ⟨t, ht, hstarts, hclear⟩⟩
      rw [hstep.1] at hps'
      refine clear_iff.mpr ⟨?_, ?_⟩
      · intro b' cs' hbcs' _ hgroup
        rw [hbcs, cons.injEq] at hbcs'
        rw [← hbcs'.1] at hgroup ⊢
        rw [← hbcs'.2]
        exact hstep.2 hgroup
      · rw [hrest]
        have hrestSuffix : rest g name b cs <:+ as ++ b :: cs :=
          ((rest_suffix b cs).trans (suffix_cons b cs)).trans (suffix_append as _)
        exact ih hrestSuffix hps' hitems hcommons

/-- Where the names clear, the pages come to an end and list everything once. -/
theorem pages_of_clear (hsort : Sorted name all) (hm : 0 < m) (hsuf : bs <:+ all)
    (hclear : Clear g name m bs) :
    ∃ fuel ps, pages g name m all fuel bs = some ps ∧ ps.flatten = entries g name bs := by
  induction hlen : bs.length using Nat.strong_induction_on generalizing bs with
  | _ n ih =>
    have hsub : Sorted name bs := hsort.sublist hsuf.sublist
    by_cases hfull : m < (entries g name bs).length
    · obtain ⟨b, cs, hbcs, hrest, hne, hlast⟩ := exists_last hsub hm hfull
      obtain ⟨hfirst, hclear⟩ := clear_iff.mp hclear
      have hbehind : b :: cs <:+ all := hbcs ▸ (behind_suffix _ _).trans hsuf
      obtain ⟨as, rfl⟩ := hbehind
      have hstep : next name (as ++ b :: cs) (token g name m bs) = rest g name b cs := by
        cases hgroup : g.group (name b) with
        | some p =>
          rw [token_of_group hlast hgroup]
          exact next_of_group hsort hgroup
        | none =>
          rw [rest_of_item hgroup] at hne ⊢
          obtain ⟨t, ht, hstarts, hnot⟩ := hfirst b cs hbcs hne hgroup
          rw [token_of_item hlast hgroup ht]
          exact next_of_item hsort hne hstarts hnot
      have hshort : (rest g name b cs).length < n := by
        have h₁ : (rest g name b cs).length ≤ cs.length := (rest_suffix b cs).length_le
        have h₂ : (behind g name (m - 1) bs).length ≤ bs.length :=
          (behind_suffix (m - 1) bs).length_le
        rw [hbcs, length_cons] at h₂
        omega
      have hrestSuffix : rest g name b cs <:+ as ++ b :: cs :=
        ((rest_suffix b cs).trans (suffix_cons b cs)).trans (suffix_append as _)
      obtain ⟨fuel, ps, hps, hflat⟩ := ih _ hshort hrestSuffix (hrest ▸ hclear) rfl
      refine ⟨fuel + 1, (entries g name bs).take m :: ps, ?_, ?_⟩
      · simp [pages, hfull, hstep, hps]
      · rw [flatten_cons, hflat, ← hrest, entries_behind hsub, take_append_drop]
    · exact ⟨1, [entries g name bs], by simp [pages, hfull], by simp⟩

theorem length_le_of_mem_pages (h : pages g name m all fuel bs = some ps) :
    ∀ p ∈ ps, p.length ≤ m := by
  induction fuel generalizing bs ps with
  | zero => simp [pages] at h
  | succ fuel ih =>
    unfold pages at h
    split at h
    · obtain ⟨ps', hps', rfl⟩ := map_eq_some_iff.mp h
      intro p hp
      rcases mem_cons.mp hp with rfl | hp
      · exact length_take_le m _
      · exact ih hps' p hp
    case isFalse hfull =>
      rw [← some.inj h]
      intro p hp
      rw [mem_singleton.mp hp]
      exact not_lt.mp hfull

end Pages

end UhCore.Paging
