import Mathlib.Data.List.Basic

/-!
Texts put together from parts with a separator between them determine the
parts, as far as the separator is in none of them; and texts that are read up
to the first occurrence of a delimiter.
-/

namespace UhCore.Delimited

open List

variable {α : Type}

variable {sep : α} {xs : List (List α)}

/-- What stands in front of the first separator and what stands behind it. -/
theorem append_cons_inj {xs ys s t : List α} (hx : sep ∉ xs) (hy : sep ∉ ys)
    (h : xs ++ sep :: s = ys ++ sep :: t) : xs = ys ∧ s = t := by
  induction xs generalizing ys with
  | nil =>
    cases ys with
    | nil => simpa using h
    | cons y ys =>
      simp only [nil_append, cons_append, cons.injEq] at h
      exact absurd (mem_cons.mpr (.inl h.1)) hy
  | cons x xs ih =>
    cases ys with
    | nil =>
      simp only [nil_append, cons_append, cons.injEq] at h
      exact absurd (mem_cons.mpr (.inl h.1.symm)) hx
    | cons y ys =>
      simp only [cons_append, cons.injEq] at h
      simp only [mem_cons, not_or] at hx hy
      obtain ⟨hxs, hst⟩ := ih hx.2 hy.2 h.2
      exact ⟨by rw [h.1, hxs], hst⟩

theorem intercalate_inj [BEq α] [LawfulBEq α] {ys : List (List α)} (hx : ∀ l ∈ xs, sep ∉ l ∧ l ≠ [])
    (hy : ∀ l ∈ ys, sep ∉ l ∧ l ≠ []) (h : [sep].intercalate xs = [sep].intercalate ys) :
    xs = ys := by
  have hempty : ∀ {zs : List (List α)}, (∀ l ∈ zs, sep ∉ l ∧ l ≠ []) → zs ≠ [] →
      [sep].intercalate zs ≠ [] := by
    intro zs hz hne hnil
    have hsplit := splitOn_intercalate sep (fun l hl => (hz l hl).1) hne
    rw [hnil] at hsplit
    exact (hz [] (by rw [← hsplit]; simp [List.splitOn])).2 rfl
  rcases eq_or_ne xs [] with rfl | hxs <;> rcases eq_or_ne ys [] with rfl | hys
  · rfl
  · exact absurd h.symm (hempty hy hys)
  · exact absurd h (hempty hx hxs)
  · rw [← splitOn_intercalate sep (fun l hl => (hx l hl).1) hxs, h,
      splitOn_intercalate sep (fun l hl => (hy l hl).1) hys]

theorem notMem_intercalate {a : α} (hsep : a ≠ sep) (hx : ∀ l ∈ xs, a ∉ l) :
    a ∉ [sep].intercalate xs := by
  induction xs with
  | nil => simp [List.intercalate]
  | cons x xs ih =>
    cases xs with
    | nil => simpa [List.intercalate] using hx
    | cons y ys =>
      rw [intercalate_cons_cons]
      simp only [mem_append, mem_singleton, not_or]
      exact ⟨⟨hx x (by simp), hsep⟩, ih fun l hl => hx l (by simp [hl])⟩

/-- Lines that each end in a separator, up to an empty line. -/
theorem lines_inj {ys : List (List α)} {s t : List α} (hx : ∀ l ∈ xs, sep ∉ l ∧ l ≠ [])
    (hy : ∀ l ∈ ys, sep ∉ l ∧ l ≠ [])
    (h : xs.flatMap (· ++ [sep]) ++ sep :: s = ys.flatMap (· ++ [sep]) ++ sep :: t) : xs = ys := by
  induction xs generalizing ys with
  | nil =>
    cases ys with
    | nil => rfl
    | cons y ys =>
      have h : [] ++ sep :: s = y ++ sep :: (ys.flatMap (· ++ [sep]) ++ sep :: t) := by
        simpa using h
      have hnil := (append_cons_inj (by simp) (hy y (by simp)).1 h).1
      exact absurd hnil.symm (hy y (by simp)).2
  | cons x xs ih =>
    cases ys with
    | nil =>
      have h : x ++ sep :: (xs.flatMap (· ++ [sep]) ++ sep :: s) = [] ++ sep :: t := by
        simpa using h
      exact absurd (append_cons_inj (hx x (by simp)).1 (by simp) h).1 (hx x (by simp)).2
    | cons y ys =>
      have h : x ++ sep :: (xs.flatMap (· ++ [sep]) ++ sep :: s) =
          y ++ sep :: (ys.flatMap (· ++ [sep]) ++ sep :: t) := by
        simpa using h
      obtain ⟨hxy, hrest⟩ := append_cons_inj (hx x (by simp)).1 (hy y (by simp)).1 h
      rw [hxy, ih (fun l hl => hx l (by simp [hl])) (fun l hl => hy l (by simp [hl])) hrest]

/-- An encoding of characters where no code word starts another one. -/
theorem flatMap_inj {β : Type} {p : α → Prop} {code : α → List β}
    (hne : ∀ a, code a ≠ [])
    (hcode : ∀ a b, p a → p b → ∀ s t, code a ++ s = code b ++ t → a = b ∧ s = t)
    {xs ys : List α} (hx : ∀ a ∈ xs, p a) (hy : ∀ a ∈ ys, p a)
    (h : xs.flatMap code = ys.flatMap code) : xs = ys := by
  induction xs generalizing ys with
  | nil =>
    cases ys with
    | nil => rfl
    | cons y ys => simp_all
  | cons x xs ih =>
    cases ys with
    | nil => simp_all
    | cons y ys =>
      simp only [flatMap_cons] at h
      obtain ⟨hxy, hrest⟩ := hcode x y (hx x (by simp)) (hy y (by simp)) _ _ h
      rw [hxy, ih (fun a ha => hx a (by simp [ha])) (fun a ha => hy a (by simp [ha])) hrest]

section FirstOccurrence

variable [DecidableEq α] {delim l front rest : List α}

/-- A list split behind the first occurrence of a delimiter. -/
def upTo (delim : List α) : List α → Option (List α × List α)
  | [] => if delim = [] then some ([], []) else none
  | a :: rest =>
    if delim <+: a :: rest then some (delim, (a :: rest).drop delim.length)
    else (upTo delim rest).map fun cut => (a :: cut.1, cut.2)

theorem upTo_eq_some (h : upTo delim l = some (front, rest)) :
    l = front ++ rest ∧ delim <:+ front := by
  induction l generalizing front with
  | nil =>
    unfold upTo at h
    split at h
    case isTrue hd => simp_all
    case isFalse => simp at h
  | cons a l ih =>
    unfold upTo at h
    split at h
    case isTrue hd =>
      obtain ⟨t, ht⟩ := hd
      rw [← ht, drop_left] at h
      cases h
      exact ⟨ht.symm, suffix_refl _⟩
    case isFalse hd =>
      obtain ⟨⟨front', rest'⟩, hcut, heq⟩ := Option.map_eq_some_iff.mp h
      cases heq
      obtain ⟨happ, hsuf⟩ := ih hcut
      exact ⟨by rw [happ]; rfl, hsuf.trans (suffix_cons _ _)⟩

/-- What follows does not move the first occurrence. -/
theorem upTo_append (h : upTo delim l = some (front, rest)) (more : List α) :
    upTo delim (l ++ more) = some (front, rest ++ more) := by
  induction l generalizing front with
  | nil =>
    unfold upTo at h
    split at h
    case isTrue hd =>
      cases h
      subst hd
      cases more <;> simp [upTo]
    case isFalse => simp at h
  | cons a l ih =>
    have hgrow : a :: l <+: a :: (l ++ more) := ⟨more, rfl⟩
    unfold upTo at h
    rw [cons_append]
    unfold upTo
    split at h
    case isTrue hd =>
      rw [if_pos (hd.trans hgrow)]
      obtain ⟨t, ht⟩ := hd
      rw [← ht, drop_left] at h
      cases h
      rw [← cons_append, ← ht, append_assoc, drop_left]
    case isFalse hd =>
      obtain ⟨⟨front', rest'⟩, hcut, heq⟩ := Option.map_eq_some_iff.mp h
      cases heq
      have hnot : ¬ delim <+: a :: (l ++ more) := by
        intro hpre
        have hlen : delim.length ≤ (a :: l).length := by
          obtain ⟨happ, hsuf⟩ := upTo_eq_some hcut
          have hle := hsuf.length_le
          rw [happ, length_cons, length_append]
          omega
        exact hd (prefix_of_prefix_length_le hpre hgrow hlen)
      rw [if_neg hnot, ih hcut]
      rfl

/-- An occurrence within a beginning of a list is found there. -/
theorem upTo_of_append {more : List α} (h : upTo delim (l ++ more) = some (front, rest))
    (hlen : front.length ≤ l.length) : upTo delim l = some (front, l.drop front.length) := by
  induction l generalizing front with
  | nil =>
    obtain rfl := eq_nil_of_length_eq_zero (Nat.le_zero.mp hlen)
    obtain ⟨_, hsuf⟩ := upTo_eq_some h
    obtain rfl := suffix_nil.mp hsuf
    simp [upTo]
  | cons a l ih =>
    have hgrow : a :: l <+: a :: (l ++ more) := ⟨more, rfl⟩
    rw [cons_append] at h
    unfold upTo at h ⊢
    split at h
    case isTrue hd =>
      cases h
      rw [if_pos (prefix_of_prefix_length_le hd hgrow hlen)]
    case isFalse hd =>
      obtain ⟨⟨front', rest'⟩, hcut, heq⟩ := Option.map_eq_some_iff.mp h
      cases heq
      rw [if_neg (fun hpre => hd (hpre.trans hgrow)), ih hcut (by simpa using hlen)]
      simp

theorem upTo_of_notMem {a : α} (h : a ∉ front) (rest : List α) :
    upTo (a :: delim) (front ++ (a :: delim) ++ rest) = some (front ++ (a :: delim), rest) := by
  induction front with
  | nil =>
    have hpre : a :: delim <+: a :: (delim ++ rest) := ⟨rest, rfl⟩
    rw [nil_append, cons_append, upTo, if_pos hpre]
    simp
  | cons b front ih =>
    obtain ⟨hab, hfront⟩ := not_or.mp (mem_cons.not.mp h)
    have hpre : ¬ a :: delim <+: b :: (front ++ (a :: delim) ++ rest) := by
      intro hpre
      exact hab (cons_prefix_cons.mp hpre).1
    rw [cons_append, cons_append, upTo, if_neg hpre, ih hfront]
    rfl

end FirstOccurrence

end UhCore.Delimited
