import Mathlib.Data.List.Basic
import Mathlib.Tactic

/-!
Chains of signatures. Each signature covers the hash of a content and the
signature before; the last one covers a hash that no content has. Where signing
has no collisions and never gives the seed of the chain, the last signature
determines all contents.
-/

namespace SignatureChain

open List

variable {κ η γ : Type} (sign : κ → η → κ) (hash : γ → η) (stop : η)

/-- The last signature over `contents` behind `seed`. -/
def after (seed : κ) (contents : List γ) : κ :=
  contents.foldl (fun previous content => sign previous (hash content)) seed

/-- The signatures over `contents` and the one that ends the chain. -/
def signatures : κ → List γ → List κ
  | previous, [] => [sign previous stop]
  | previous, content :: contents =>
    sign previous (hash content) :: signatures (sign previous (hash content)) contents

/-- Every entry, where there is none the one before. -/
def carried : κ → List (Option κ) → List κ
  | _, [] => []
  | previous, entry :: entries =>
    entry.getD previous :: carried (entry.getD previous) entries

/-- Signing has no collisions behind keys of a set that all signatures are in,
it never gives the seed, and the hash that ends a chain is not one of a
content in use. -/
structure Sound (valid : κ → Prop) (used : γ → Prop) (seed : κ) : Prop where
  injective : ∀ k k' x x', valid k → valid k' → sign k x = sign k' x' → k = k' ∧ x = x'
  valid_sign : ∀ k x, valid (sign k x)
  valid_seed : valid seed
  fresh : ∀ k x, sign k x ≠ seed
  hash_injective : Function.Injective hash
  stop_ne : ∀ c, used c → hash c ≠ stop

variable {sign hash stop} {valid : κ → Prop} {used : γ → Prop} {seed : κ} {contents : List γ}

theorem after_concat (contents : List γ) (content : γ) :
    after sign hash seed (contents ++ [content]) =
      sign (after sign hash seed contents) (hash content) := by
  simp [after]

theorem Sound.valid_after (hsound : Sound sign hash stop valid used seed) (contents : List γ) :
    valid (after sign hash seed contents) := by
  induction contents using reverseRecOn with
  | nil => exact hsound.valid_seed
  | append_singleton contents content _ =>
    rw [after_concat]
    exact hsound.valid_sign _ _

theorem Sound.after_injective (hsound : Sound sign hash stop valid used seed) :
    Function.Injective (after sign hash seed) := by
  intro contents
  induction contents using reverseRecOn with
  | nil =>
    intro others h
    induction others using reverseRecOn with
    | nil => rfl
    | append_singleton others other _ =>
      rw [after_concat] at h
      exact absurd h.symm (hsound.fresh _ _)
  | append_singleton contents content ih =>
    intro others h
    induction others using reverseRecOn with
    | nil =>
      rw [after_concat] at h
      exact absurd h (hsound.fresh _ _)
    | append_singleton others other _ =>
      rw [after_concat, after_concat] at h
      obtain ⟨hafter, hhash⟩ := hsound.injective _ _ _ _ (hsound.valid_after contents)
        (hsound.valid_after others) h
      rw [ih hafter, hsound.hash_injective hhash]

theorem getLast?_signatures (previous : κ) (contents : List γ) :
    (signatures sign hash stop previous contents).getLast? =
      some (sign (after sign hash previous contents) stop) := by
  induction contents generalizing previous with
  | nil => rfl
  | cons content contents ih =>
    rw [signatures, getLast?_cons, ih]
    rfl

/-- A signature is one over the contents up to some place, or the last one. -/
theorem mem_signatures {previous signature : κ}
    (h : signature ∈ signatures sign hash stop previous contents) :
    (∃ front content, content ∈ contents ∧
        signature = sign (after sign hash previous front) (hash content)) ∨
      signature = sign (after sign hash previous contents) stop := by
  induction contents generalizing previous with
  | nil => exact .inr (mem_singleton.mp h)
  | cons content contents ih =>
    rcases mem_cons.mp h with rfl | hrest
    · exact .inl ⟨[], content, mem_cons_self, rfl⟩
    · rcases ih hrest with ⟨front, c, hc, hsig⟩ | hlast
      · exact .inl ⟨content :: front, c, mem_cons_of_mem _ hc, hsig⟩
      · exact .inr hlast

/-- The signature that ends a chain is found among those of another chain only
when both are over the same contents. -/
theorem Sound.eq_of_stop_mem (hsound : Sound sign hash stop valid used seed) {others : List γ}
    (hused : ∀ c ∈ contents, used c)
    (h : sign (after sign hash seed others) stop ∈ signatures sign hash stop seed contents) :
    others = contents := by
  rcases mem_signatures h with ⟨front, content, hcont, hsign⟩ | hlast
  · obtain ⟨_, hhash⟩ := hsound.injective _ _ _ _ (hsound.valid_after others)
      (hsound.valid_after front) hsign
    exact absurd hhash.symm (hsound.stop_ne content (hused content hcont))
  · obtain ⟨hafter, _⟩ := hsound.injective _ _ _ _ (hsound.valid_after others)
      (hsound.valid_after contents) hlast
    exact hsound.after_injective hafter

/-- A key that no signature behind it equals; the signatures behind it are such
keys again. -/
theorem Sound.sign_ne_of_sign_ne (hsound : Sound sign hash stop valid used seed) {k : κ}
    (hvalid : valid k) (hk : ∀ x, sign k x ≠ k) (y : η) : ∀ x, sign (sign k y) x ≠ sign k y := by
  intro x h
  exact hk y (hsound.injective _ _ _ _ (hsound.valid_sign k y) hvalid h).1

theorem Sound.entries_eq (hsound : Sound sign hash stop valid used seed) {k start : κ}
    {entries : List (Option κ)} (hvalid : valid k) (hk : ∀ x, sign k x ≠ k)
    (hstart : ∀ x, sign k x ≠ start)
    (h : carried start entries = signatures sign hash stop k contents) :
    entries = (signatures sign hash stop k contents).map some := by
  induction contents generalizing k start entries with
  | nil =>
    cases entries with
    | nil => simp [carried, signatures] at h
    | cons entry entries =>
      obtain ⟨hentry, hents⟩ := cons.inj h
      cases entry with
      | none => exact absurd hentry.symm (hstart stop)
      | some signature =>
        cases entries with
        | nil => simpa [signatures] using hentry
        | cons entry' entries' => simp [carried] at hents
  | cons content contents ih =>
    cases entries with
    | nil => simp [carried, signatures] at h
    | cons entry entries =>
      obtain ⟨hentry, hents⟩ := cons.inj h
      cases entry with
      | none => exact absurd hentry.symm (hstart (hash content))
      | some signature =>
        obtain rfl : signature = sign k (hash content) := hentry
        have hnext := hsound.sign_ne_of_sign_ne hvalid hk (hash content)
        rw [ih (hsound.valid_sign _ _) hnext hnext hents]
        rfl

end SignatureChain
