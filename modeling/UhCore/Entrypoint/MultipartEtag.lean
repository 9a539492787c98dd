import UhCore.Entrypoint.ChunkedBody
import UhCore.Entrypoint.MultipartState
import UhCore.Entrypoint.Ranges
import UhCore.Entrypoint.SignedView

/-!
The ETag of a multipart object. The part ETags are read back from hexadecimal
digits and hashed together. `unhex` shifts the upper digit of a pair out of the
byte, so that only the lower half of each byte of a digest is hashed.
-/

namespace UhCore.Entrypoint.Multipart

open Http List

section Unhex

/-- The value of a digit in lower case. -/
def xvalue (c : Char) : Nat :=
  if 'a' ≤ c ∧ c ≤ 'f' then c.toNat - 'a'.toNat + 10 else c.toNat - '0'.toNat

def unhexLoop : Text → Except Exn Text
  | a :: b :: rest =>
    if (hexDigit a).isSome ∧ (hexDigit b).isSome then do
      let rv ← unhexLoop rest
      return Char.ofNat ((xvalue a <<< 8 ||| xvalue b) % 256) :: rv
    else .error (.invalidArgument "string contains non-hex characters")
  | _ => .ok []

def unhex (s : Text) : Except Exn Text :=
  if s.length % 2 ≠ 0 then .error (.invalidArgument "string size must be even")
  else unhexLoop (lowercase s)

def lowHalf (c : Char) : Char := Char.ofNat (c.toNat % 16)

theorem toNat_lowHalf (c : Char) : (lowHalf c).toNat = c.toNat % 16 := by
  have hsmall : ∀ n < 16, (Char.ofNat n).toNat = n := by decide
  exact hsmall _ (Nat.mod_lt _ (by decide))

theorem lowHalf_eq_self_iff (c : Char) : lowHalf c = c ↔ c.toNat < 16 := by
  rw [← Char.toNat_inj, toNat_lowHalf]
  omega

theorem digit_read : ∀ n < 16, (hexDigit (hexDigits.getD n '0').toLower).isSome ∧
    xvalue (hexDigits.getD n '0').toLower = n := by decide

theorem shifted_out : ∀ high < 16, ∀ low < 16, (high <<< 8 ||| low) % 256 = low := by decide

theorem unhexLoop_toHex (b : Text) : unhexLoop (lowercase (toHex b)) = .ok (b.map lowHalf) := by
  induction b with
  | nil => rfl
  | cons c rest ih =>
    have hhigh := digit_read (c.toNat / 16 % 16) (Nat.mod_lt _ (by decide))
    have hlow := digit_read (c.toNat % 16) (Nat.mod_lt _ (by decide))
    change unhexLoop (_ :: _ :: lowercase (toHex rest)) = _
    rw [unhexLoop, if_pos ⟨hhigh.1, hlow.1⟩, ih, hhigh.2, hlow.2,
      shifted_out _ (Nat.mod_lt _ (by decide)) _ (Nat.mod_lt _ (by decide))]
    rfl

theorem unhex_toHex (b : Text) : unhex (toHex b) = .ok (b.map lowHalf) := by
  have heven : (toHex b).length % 2 = 0 := by
    simp [toHex, hexPair, length_flatMap]
  rw [unhex, if_neg (by omega), unhexLoop_toHex]

theorem hexDigit_toLower (c : Char) : (hexDigit c.toLower).isSome = (hexDigit c).isSome := by
  have hascii : ∀ n < 128, (hexDigit (Char.ofNat n).toLower).isSome =
      (hexDigit (Char.ofNat n)).isSome := by decide +kernel
  by_cases hc : c.toNat < 128
  · simpa using hascii c.toNat hc
  · have hlower : c.toLower = c := by
      unfold Char.toLower
      rw [dif_neg]
      rintro ⟨-, hz⟩
      exact hc (lt_of_le_of_lt hz (by decide))
    rw [hlower]

theorem unhexLoop_throws_iff {s : Text} (heven : s.length % 2 = 0) :
    (∃ e, unhexLoop s = .error e) ↔ ∃ c ∈ s, hexDigit c = none := by
  induction s using unhexLoop.induct with
  | case1 a b rest hpair ih =>
    have ih := ih (by simp only [length_cons] at heven; omega)
    rw [unhexLoop, if_pos hpair]
    have ha := Option.isSome_iff_ne_none.mp hpair.1
    have hb := Option.isSome_iff_ne_none.mp hpair.2
    simp only [mem_cons, exists_eq_or_imp, ha, hb, false_or, ← ih]
    cases unhexLoop rest <;> simp [bind, Except.bind, pure, Except.pure]
  | case2 a b rest hpair =>
    rw [unhexLoop, if_neg hpair]
    simp only [mem_cons, exists_eq_or_imp]
    simp only [Option.isSome_iff_ne_none, ne_eq] at hpair
    grind
  | case3 s hs =>
    match s, hs with
    | [], _ => simp [unhexLoop]
    | [_], _ => simp at heven
    | a :: b :: rest, hs => exact absurd rfl (hs a b rest)

theorem unhex_throws_iff (s : Text) :
    (∃ e, unhex s = .error e) ↔ s.length % 2 = 1 ∨ ∃ c ∈ s, hexDigit c = none := by
  unfold unhex
  split
  · simp only [Except.error.injEq, exists_eq', true_iff]
    exact Or.inl (by omega)
  · have heven : (lowercase s).length % 2 = 0 := by rw [lowercase, length_map]; omega
    rw [unhexLoop_throws_iff heven, or_iff_right (by omega)]
    simp only [lowercase, List.mem_map, exists_exists_and_eq_and, ← Option.not_isSome_iff_eq_none,
      hexDigit_toLower]

end Unhex

section Etag

variable {α : Type} (md5 : Text → Text)

def multipartEtag (info : UploadInfo α) : Except Exn Text := do
  let buffer ← info.parts.entries.mapM fun entry => unhex entry.2.etag.toList
  return toHex (md5 buffer.flatten) ++ '-' :: decimal info.parts.size

/-- The MD5 digests of the parts, from which their ETags were written. -/
structure PartDigests (info : UploadInfo α) where
  digests : List Text
  bytes : ∀ d ∈ digests, IsBytes d
  size : ∀ d ∈ digests, d.length = 16
  etags : info.parts.entries.map (fun entry => entry.2.etag.toList) = digests.map toHex

def Collide (x y : Text) : Prop := x ≠ y ∧ md5 x = md5 y

variable {info info' : UploadInfo α} (parts : PartDigests info) (parts' : PartDigests info')

def PartDigests.expected : Text :=
  toHex (md5 parts.digests.flatten) ++ '-' :: decimal parts.digests.length

def PartDigests.lowHalves : Text := parts.digests.flatten.map lowHalf

theorem mapM_unhex {entries : List (Nat × Part α)} {digests : List Text}
    (h : entries.map (fun entry => entry.2.etag.toList) = digests.map toHex) :
    (entries.mapM fun entry => unhex entry.2.etag.toList) =
      .ok (digests.map (List.map lowHalf)) := by
  induction entries generalizing digests with
  | nil =>
    rw [map_nil, eq_comm, map_eq_nil_iff] at h
    rw [h]
    rfl
  | cons entry rest ih =>
    obtain ⟨d, others, rfl, hd, hothers⟩ := map_eq_cons_iff.mp h.symm
    change toHex d = entry.2.etag.toList at hd
    rw [mapM_cons, ih hothers.symm, ← hd, unhex_toHex]
    rfl

theorem multipartEtag_eq :
    multipartEtag md5 info =
      .ok (toHex (md5 parts.lowHalves) ++ '-' :: decimal parts.digests.length) := by
  have hsize : info.parts.size = parts.digests.length := by
    simpa [KeyMap.size] using congrArg List.length parts.etags
  rw [multipartEtag, mapM_unhex parts.etags, hsize, PartDigests.lowHalves, map_flatten]
  rfl

theorem dash_notMem_toHex (s : Text) : '-' ∉ toHex s := by
  have hdigits : ∀ i < 16, hexDigits.getD i '0' ≠ '-' := by decide
  simp only [toHex, mem_flatMap, hexPair, mem_cons, not_mem_nil, or_false]
  rintro ⟨c, -, h | h⟩
  · exact hdigits _ (Nat.mod_lt _ (by decide)) h.symm
  · exact hdigits _ (Nat.mod_lt _ (by decide)) h.symm

theorem decimal_injective : Function.Injective decimal := by
  intro m n h
  have hvalue := congrArg (Nat.ofDigitChars 10 · 0) h
  simpa [decimal, Nat.repr_eq_ofList_toDigits] using hvalue

variable {md5}

theorem etag_inj (hmd5 : ∀ s, IsBytes (md5 s)) {x y : Text} {m n : Nat} :
    toHex (md5 x) ++ '-' :: decimal m = toHex (md5 y) ++ '-' :: decimal n ↔
      md5 x = md5 y ∧ m = n := by
  constructor
  · intro h
    obtain ⟨hhex, hcount⟩ := Delimited.append_cons_inj (dash_notMem_toHex _) (dash_notMem_toHex _) h
    exact ⟨toHex_inj (hmd5 x) (hmd5 y) hhex, decimal_injective hcount⟩
  · rintro ⟨hhash, rfl⟩
    rw [hhash]

theorem digests_eq_of_flatten (hcount : parts.digests.length = parts'.digests.length)
    (h : parts.digests.flatten = parts'.digests.flatten) : parts.digests = parts'.digests := by
  rw [eq_iff_flatten_eq, map_eq_replicate_iff.mpr parts.size,
    map_eq_replicate_iff.mpr parts'.size, hcount]
  exact ⟨h, rfl⟩

/-- Reading digits back keeps the lower half of every byte and rejects exactly
what is not pairs of digits. So the ETag is the expected one exactly when MD5
does not tell the digests from their lower halves, and different digests give
the same ETag without a collision exactly when their lower halves collide and
they do not. -/
theorem multipartEtag_iff (hmd5 : ∀ s, IsBytes (md5 s)) (b s : Text) :
    (unhex (toHex b) = .ok b ↔ ∀ c ∈ b, c.toNat < 16) ∧
      ((∃ e, unhex s = .error e) ↔ s.length % 2 = 1 ∨ ∃ c ∈ s, hexDigit c = none) ∧
      (multipartEtag md5 info = .ok (parts.expected md5) ↔
        md5 parts.lowHalves = md5 parts.digests.flatten) ∧
      ((parts.digests ≠ parts'.digests → multipartEtag md5 info = multipartEtag md5 info' →
          Collide md5 parts.digests.flatten parts'.digests.flatten) ↔
        (parts.digests.length = parts'.digests.length →
          md5 parts.lowHalves = md5 parts'.lowHalves →
          md5 parts.digests.flatten = md5 parts'.digests.flatten)) := by
  rw [unhex_toHex, multipartEtag_eq md5 parts, multipartEtag_eq md5 parts']
  simp only [Except.ok.injEq, PartDigests.expected, etag_inj hmd5, and_true]
  refine ⟨?_, unhex_throws_iff s, trivial, ?_⟩
  · simp only [← lowHalf_eq_self_iff]
    simpa using map_inj_left (l := b) (f := lowHalf) (g := id)
  · constructor
    · intro h hcount hlow
      by_cases heq : parts.digests = parts'.digests
      · rw [heq]
      · exact (h heq ⟨hlow, hcount⟩).2
    · rintro h hne ⟨hlow, hcount⟩
      exact ⟨fun hflat => hne (digests_eq_of_flatten parts parts' hcount hflat), h hcount hlow⟩

/-- One part whose digest has the same byte sixteen times. -/
def sampleUpload (c : Char) : UploadInfo Nat :=
  ⟨false, false, ⟨[(1, ⟨String.ofList (toHex (List.replicate 16 c)), 5, []⟩)], by simp⟩⟩

def sampleDigests (c : Char) (hc : c.toNat < 256) : PartDigests (sampleUpload c) where
  digests := [List.replicate 16 c]
  bytes := by
    intro d hd b hb
    rw [mem_singleton.mp hd] at hb
    rwa [eq_of_mem_replicate hb]
  size := by simp
  etags := by simp [sampleUpload]

theorem multipartEtag_iff_sample :
    multipartEtag (List.map lowHalf) (sampleUpload '1') =
      .ok ((sampleDigests '1' (by decide)).expected (List.map lowHalf)) := by
  have hbytes : ∀ s : Text, IsBytes (s.map lowHalf) := by
    intro s c hc
    obtain ⟨d, -, rfl⟩ := List.mem_map.mp hc
    rw [toNat_lowHalf]
    omega
  apply (multipartEtag_iff (sampleDigests '1' (by decide)) (sampleDigests 'A' (by decide)) hbytes
    [] []).2.2.1.mpr
  decide

theorem unhex_toHex_upper_half :
    unhex (toHex ['A']) = .ok [Char.ofNat 1] ∧
      multipartEtag id (sampleUpload '1') = multipartEtag id (sampleUpload 'A') := by
  decide +kernel

end Etag

end UhCore.Entrypoint.Multipart
