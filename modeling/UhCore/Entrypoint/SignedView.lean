import Mathlib.Data.List.GetD
import UhCore.Entrypoint.Signature
import UhCore.Lib.Delimited

/-!
What a signature says about the request that a handler sees. The canonical
request determines the method, the path, the parameters and the canonical
headers; handlers look a header up among the fields themselves and get the first
one, while the signature is over the last one.
-/

namespace UhCore.Entrypoint.Http

open Delimited List Except List RawRequest

def IsBytes (s : Text) : Prop := ∀ c ∈ s, c.toNat < 256

/-- The two hash functions return bytes and have no collisions. -/
structure Crypto.Lawful (crypto : Crypto) : Prop where
  sha256_bytes : ∀ s, IsBytes (crypto.sha256 s)
  sha256_injective : Function.Injective crypto.sha256
  hmac_bytes : ∀ key s, IsBytes (crypto.hmacSha256 key s)
  hmac_injective : Function.Injective2 crypto.hmacSha256

/-- An encoded path has no control characters, and parameters are bytes. -/
structure UrlLibrary.Lawful (url : UrlLibrary) : Prop where
  encodedPath_newline : ∀ s encoded, url.encodedPath s = .ok encoded → '\n' ∉ encoded
  params_bytes : ∀ query pairs, url.params query = .ok pairs →
    ∀ p ∈ pairs, IsBytes p.1 ∧ IsBytes p.2

/-- A request as the HTTP library parsed it: names are tokens, values are within
one line and have no whitespace at their ends. -/
structure Received (url : UrlLibrary) where
  version : Nat
  method : Text
  target : Text
  peer : Text
  headers : List Field
  method_newline : '\n' ∉ method
  names : ∀ field ∈ headers, ':' ∉ field.name ∧ '\n' ∉ field.name
  values : ∀ field ∈ headers, '\n' ∉ field.value ∧ trim field.value = field.value
  raw : RawRequest
  raw_eq : fromString url version method target peer headers = .ok raw

def RawRequest.valuesOf (req : RawRequest) (name : Text) : List Text :=
  (req.headers.filter fun field => equalsNocase field.name name).map Field.value

theorem RawRequest.optional_eq_head (req : RawRequest) (name : Text) :
    req.optional name = (req.valuesOf name).head? := by
  rw [valuesOf, head?_map, head?_filter, optional]

section Encoding

variable {digits s t : Text} {c d : Char}

theorem hexDigits_inj (hlen : digits.length = 16) (hnodup : digits.Nodup) {m n : Nat} (hm : m < 16)
    (hn : n < 16) (h : digits.getD m '0' = digits.getD n '0') : m = n := by
  rw [getD_eq_getElem _ _ (by omega), getD_eq_getElem _ _ (by omega)] at h
  exact (hnodup.getElem_inj_iff).mp h

theorem hexPair_inj (hlen : digits.length = 16) (hnodup : digits.Nodup) (hc : c.toNat < 256)
    (hd : d.toNat < 256) (h : hexPair digits c ++ s = hexPair digits d ++ t) : c = d ∧ s = t := by
  simp only [hexPair, cons_append, nil_append, cons.injEq] at h
  have hhigh := hexDigits_inj hlen hnodup (Nat.mod_lt _ (by decide)) (Nat.mod_lt _ (by decide)) h.1
  have hlow := hexDigits_inj hlen hnodup (Nat.mod_lt _ (by decide)) (Nat.mod_lt _ (by decide)) h.2.1
  exact ⟨Char.toNat_inj.mp (by omega), h.2.2⟩

theorem toHex_inj (hs : IsBytes s) (ht : IsBytes t) (h : toHex s = toHex t) : s = t :=
  flatMap_inj (by simp [hexPair])
    (fun _ _ hc hd _ _ => hexPair_inj (by decide) (by decide) hc hd) hs ht h

theorem hexPair_unreserved (c : Char) : ∀ d ∈ hexPair hexDigitsUpper c, unreserved d := by
  have hdigit : ∀ n < 16, unreserved (hexDigitsUpper.getD n '0') := by decide
  intro d hd
  simp only [hexPair, mem_cons, not_mem_nil, or_false] at hd
  rcases hd with rfl | rfl <;> exact hdigit _ (Nat.mod_lt _ (by decide))

/-- Encoded texts have unreserved characters and percent signs only. -/
theorem mem_uriEncode (h : d ∈ uriEncode s) : unreserved d ∨ d = '%' := by
  obtain ⟨c, _, hd⟩ := mem_flatMap.mp h
  split at hd
  · exact .inl (by simp_all)
  · rcases mem_cons.mp hd with rfl | hd
    · exact .inr rfl
    · exact .inl (hexPair_unreserved c d hd)

theorem uriEncode_inj (hs : IsBytes s) (ht : IsBytes t) (h : uriEncode s = uriEncode t) :
    s = t := by
  refine flatMap_inj (by intro c; split <;> simp) ?_ hs ht h
  have hpercent : unreserved '%' = false := by decide
  intro c d hc hd u v huv
  split at huv <;> split at huv
  · simpa using huv
  · simp_all
  case isFalse.isTrue hd =>
    simp only [cons_append, nil_append, cons.injEq] at huv
    exact absurd hd (by simp [← huv.1, hpercent])
  · simp only [cons_append, cons.injEq, true_and] at huv
    exact hexPair_inj (by decide) (by decide) hc hd huv

theorem separator_notMem_uriEncode {sep : Char} (hsep : unreserved sep = false) (hne : sep ≠ '%')
    (s : Text) : sep ∉ uriEncode s := by
  intro hmem
  rcases mem_uriEncode hmem with h | h
  · simp [hsep] at h
  · exact hne h

theorem toLower_eq_iff (hd : d.toNat < 65) : c.toLower = d ↔ c = d := by
  unfold Char.toLower
  split
  case isTrue h =>
    have hc : 65 ≤ c.toNat := h.1
    constructor
    · rintro rfl
      have hbound : c.toNat ≤ 90 := h.2
      have hval : ((c.val + ('a'.val - 'A'.val)).toNat) = c.toNat + 32 := by
        have hc' : c.val.toNat = c.toNat := rfl
        rw [UInt32.toNat_add, hc']
        have : ('a'.val - 'A'.val).toNat = 32 := by decide
        omega
      have : ((c.val + ('a'.val - 'A'.val)).toNat) < 65 := hd
      omega
    · rintro rfl
      omega
  case isFalse => exact Iff.rfl

theorem notMem_lowercase (hd : d.toNat < 65) (h : d ∉ s) : d ∉ lowercase s := by
  intro hmem
  obtain ⟨c, hc, heq⟩ := mem_map.mp hmem
  exact h ((toLower_eq_iff hd).mp heq ▸ hc)

end Encoding

namespace Received

variable {url : UrlLibrary} (r : Received url)

theorem raw_fields : r.raw.method = r.method ∧ r.raw.headers = r.headers ∧
    r.raw.path = url.path r.raw.encodedPath ∧
    (∃ s, url.encodedPath s = .ok r.raw.encodedPath) ∧
    ∃ pairs, r.raw.params = mapOf pairs ∧ (pairs = [] ∨ ∃ q, url.params q = .ok pairs) := by
  have h := r.raw_eq
  simp only [fromString, bind, Except.bind, pure, Except.pure] at h
  split at h
  · exact absurd h (by simp [throw, throwThe, MonadExceptOf.throw])
  split at h
  · exact absurd h (by simp)
  case h_2 encoded hencoded =>
    split at h
    · split at h
      · exact absurd h (by simp)
      case h_2 pairs hpairs =>
        rw [← ok.inj h]
        exact ⟨rfl, rfl, rfl, ⟨_, hencoded⟩, pairs, rfl, .inr ⟨_, hpairs⟩⟩
    · rw [← ok.inj h]
      exact ⟨rfl, rfl, rfl, ⟨_, hencoded⟩, [], rfl, .inl rfl⟩

theorem mem_params_iff (name value : Text) (user : User) :
    (name, value) ∈ r.raw.params ↔ Request.query ⟨r.raw, user⟩ name = some value := by
  obtain ⟨_, _, _, _, pairs, hparams, _⟩ := r.raw_fields
  rw [Request.query, hparams]
  exact find_mapOf.symm

theorem params_bytes (hurl : url.Lawful) : ∀ p ∈ r.raw.params, IsBytes p.1 ∧ IsBytes p.2 := by
  obtain ⟨_, _, _, _, pairs, hparams, hpairs⟩ := r.raw_fields
  intro p hp
  have hmem : p ∈ pairs := mem_of_mem_mapOf (hparams ▸ hp)
  rcases hpairs with rfl | ⟨q, hq⟩
  · simp at hmem
  · exact hurl.params_bytes q pairs hq _ hmem

end Received

namespace Aws4HmacSha256

variable {url : UrlLibrary}

theorem canonicalParam_inj {p q : Text × Text} (hp : IsBytes p.1 ∧ IsBytes p.2)
    (hq : IsBytes q.1 ∧ IsBytes q.2) (h : canonicalParam p = canonicalParam q) : p = q := by
  obtain ⟨hkey, hvalue⟩ := append_cons_inj
    (separator_notMem_uriEncode (by decide) (by decide) p.1)
    (separator_notMem_uriEncode (by decide) (by decide) q.1) h
  exact Prod.ext (uriEncode_inj hp.1 hq.1 hkey) (uriEncode_inj hp.2 hq.2 hvalue)

theorem mem_sorted {s : List Text} {t : Text} : t ∈ sorted s ↔ t ∈ s := by
  rw [sorted, (perm_insertionSort _ _).mem_iff, mem_dedup]

theorem canonicalParam_separator {sep : Char} (hsep : unreserved sep = false) (hne : sep ≠ '%')
    (heq : sep ≠ '=') (p : Text × Text) : sep ∉ canonicalParam p := by
  simp [canonicalParam, separator_notMem_uriEncode hsep hne, heq]

variable {info₁ info₂ : SignatureInfo} {crypto : Crypto} {req : RawRequest} {parsed : Authorization}

theorem params_of_canonicalQuery (hurl : url.Lawful) (r₁ r₂ : Received url)
    (h₁ : info₁.queryIgnore = []) (h₂ : info₂.queryIgnore = [])
    (h : canonicalQuery r₁.raw info₁ = canonicalQuery r₂.raw info₂) (p : Text × Text) :
    p ∈ r₁.raw.params ↔ p ∈ r₂.raw.params := by
  have hparts : ∀ params : List (Text × Text), ∀ l ∈ sorted (params.map canonicalParam),
      '&' ∉ l ∧ l ≠ [] := by
    intro params l hl
    obtain ⟨q, _, rfl⟩ := mem_map.mp (mem_sorted.mp hl)
    exact ⟨canonicalParam_separator (by decide) (by decide) (by decide) q, by simp [canonicalParam]⟩
  simp only [canonicalQuery, h₁, h₂, not_mem_nil, not_false_eq_true, decide_true,
    filter_true, join] at h
  have hsort := intercalate_inj (hparts _) (hparts _) h
  have hone : ∀ r r' : Received url, sorted (r.raw.params.map canonicalParam) =
      sorted (r'.raw.params.map canonicalParam) → p ∈ r.raw.params → p ∈ r'.raw.params := by
    intro r r' heq hp
    have hmem : canonicalParam p ∈ sorted (r.raw.params.map canonicalParam) :=
      mem_sorted.mpr (mem_map_of_mem hp)
    rw [heq, mem_sorted] at hmem
    obtain ⟨q, hq, hqp⟩ := mem_map.mp hmem
    rwa [← canonicalParam_inj (r'.params_bytes hurl q hq) (r.params_bytes hurl p hp) hqp]
  exact ⟨hone r₁ r₂ hsort, hone r₂ r₁ hsort.symm⟩

theorem mem_canonicalHeadersMap (r : Received url) (info : SignatureInfo) {name : Text}
    (hname : includeHeader (lowercase name) info.signedHeaders) (value : Text) :
    (lowercase name, value) ∈ canonicalHeadersMap r.raw info ↔
      (r.raw.valuesOf name).getLast? = some value := by
  have hvalues : ((signedFields r.raw info).filter fun p => decide (p.1 = lowercase name)).map
      Prod.snd = r.raw.valuesOf name := by
    obtain ⟨_, hheaders, _⟩ := r.raw_fields
    rw [signedFields, filter_filter, filter_map, map_map, valuesOf,
      hheaders]
    have hfilter : (r.headers.filter ((fun p : Text × Text => decide (p.1 = lowercase name) &&
        includeHeader p.1 info.signedHeaders) ∘ fun field => (lowercase field.name,
          trim field.value))) = r.headers.filter fun field => equalsNocase field.name name := by
      apply filter_congr
      intro field _
      by_cases hfield : lowercase field.name = lowercase name
      · simp [equalsNocase, hfield, hname]
      · simp [equalsNocase, hfield]
    rw [hfilter]
    apply map_congr_left
    intro field hfield
    exact (r.values field (mem_of_mem_filter hfield)).2
  rw [canonicalHeadersMap, (perm_insertionSort _ _).mem_iff, mem_mapOf, ← hvalues,
    getLast?_map, getLast?_filter]

/-- Names and values of canonical headers keep to their lines. -/
theorem canonicalHeadersMap_newline (r : Received url) (info : SignatureInfo) :
    ∀ p ∈ canonicalHeadersMap r.raw info, ':' ∉ p.1 ∧ '\n' ∉ p.1 ∧ '\n' ∉ p.2 := by
  intro p hp
  rw [canonicalHeadersMap, (perm_insertionSort _ _).mem_iff] at hp
  obtain ⟨field, hfield, rfl⟩ := mem_map.mp (mem_of_mem_filter (mem_of_mem_mapOf hp))
  rw [r.raw_fields.2.1] at hfield
  obtain ⟨hcolon, hnewline⟩ := r.names field hfield
  obtain ⟨hvalue, htrim⟩ := r.values field hfield
  exact ⟨notMem_lowercase (by decide) hcolon, notMem_lowercase (by decide) hnewline,
    htrim.symm ▸ hvalue⟩

def headerLine (p : Text × Text) : Text := p.1 ++ ':' :: p.2

theorem canonicalHeaders_eq (headers : List (Text × Text)) :
    (headers.flatMap fun p => p.1 ++ ':' :: p.2 ++ ['\n']) =
      (headers.map headerLine).flatMap (· ++ ['\n']) := by
  rw [flatMap_map]
  rfl

theorem headers_of_lines (r₁ r₂ : Received url)
    (h : (canonicalHeadersMap r₁.raw info₁).map headerLine = (canonicalHeadersMap r₂.raw info₂).map headerLine)
    (p : Text × Text) :
    p ∈ canonicalHeadersMap r₁.raw info₁ ↔ p ∈ canonicalHeadersMap r₂.raw info₂ := by
  have hone : ∀ (r r' : Received url) (info info' : SignatureInfo),
      (canonicalHeadersMap r.raw info).map headerLine =
        (canonicalHeadersMap r'.raw info').map headerLine →
      p ∈ canonicalHeadersMap r.raw info → p ∈ canonicalHeadersMap r'.raw info' := by
    intro r r' info info' heq hp
    have hmem : headerLine p ∈ (canonicalHeadersMap r.raw info).map headerLine :=
      mem_map_of_mem hp
    rw [heq] at hmem
    obtain ⟨q, hq, hqp⟩ := mem_map.mp hmem
    obtain ⟨hname, hvalue⟩ := append_cons_inj (canonicalHeadersMap_newline r' info' q hq).1
      (canonicalHeadersMap_newline r info p hp).1 hqp
    rwa [← Prod.ext hname hvalue]
  exact ⟨hone r₁ r₂ _ _ h, hone r₂ r₁ _ _ h.symm⟩

theorem canonicalQuery_newline (req : RawRequest) (info : SignatureInfo) :
    '\n' ∉ canonicalQuery req info := by
  apply notMem_intercalate (by decide)
  intro l hl
  obtain ⟨q, _, rfl⟩ := mem_map.mp (mem_sorted.mp hl)
  exact canonicalParam_separator (by decide) (by decide) (by decide) q

theorem view_of_canonicalRequest (hurl : url.Lawful) (r₁ r₂ : Received url)
    (h : makeCanonicalRequest r₁.raw info₁ = makeCanonicalRequest r₂.raw info₂) :
    r₁.raw.method = r₂.raw.method ∧ r₁.raw.encodedPath = r₂.raw.encodedPath ∧
      canonicalQuery r₁.raw info₁ = canonicalQuery r₂.raw info₂ ∧
      ∀ p, p ∈ canonicalHeadersMap r₁.raw info₁ ↔ p ∈ canonicalHeadersMap r₂.raw info₂ := by
  have hmethod : ∀ r : Received url, '\n' ∉ r.raw.method := by
    intro r
    rw [r.raw_fields.1]
    exact r.method_newline
  have hpath : ∀ r : Received url, '\n' ∉ r.raw.encodedPath := by
    intro r
    obtain ⟨_, _, _, ⟨s, hs⟩, _⟩ := r.raw_fields
    exact hurl.encodedPath_newline s _ hs
  have hlines : ∀ (r : Received url) (info : SignatureInfo),
      ∀ l ∈ (canonicalHeadersMap r.raw info).map headerLine, '\n' ∉ l ∧ l ≠ [] := by
    intro r info l hl
    obtain ⟨p, hp, rfl⟩ := mem_map.mp hl
    obtain ⟨_, hname, hvalue⟩ := canonicalHeadersMap_newline r info p hp
    simp [headerLine, hname, hvalue]
  simp only [makeCanonicalRequest, canonicalHeaders_eq] at h
  obtain ⟨hm, h⟩ := append_cons_inj (hmethod r₁) (hmethod r₂) h
  obtain ⟨hp, h⟩ := append_cons_inj (hpath r₁) (hpath r₂) h
  obtain ⟨hq, h⟩ := append_cons_inj (canonicalQuery_newline _ _) (canonicalQuery_newline _ _) h
  exact ⟨hm, hp, hq, headers_of_lines r₁ r₂ (lines_inj (hlines r₁ info₁) (hlines r₂ info₂) h)⟩

theorem lift_eq_ok {α : Type} {x : Except Exn α} {a : α} (h : lift x = .ok a) : x = .ok a := by
  cases x <;> simp_all [lift, Except.mapError]

/-- What is known of a request that passed: its signature is over the canonical
request. -/
theorem create_ok {env : Surroundings} {auth : Text} {q : Request × Body}
    (hauth : parseAuthorization auth = .ok parsed) (h : create crypto env req auth = .ok q) :
    q.1.raw = req ∧ ∃ key amzDate contentSha, req.optional "x-amz-date".toList = some amzDate ∧
      requestSignature crypto req (parsed.info amzDate contentSha) key = parsed.signature := by
  simp only [create, hauth, lift, Except.mapError, bind, Except.bind] at h
  split at h
  · exact absurd h (by simp)
  split at h
  · exact absurd h (by simp)
  split at h
  · exact absurd h (by simp)
  case h_2 amzDate hdate =>
    split at h
    · exact absurd h (by simp [throw, throwThe, MonadExceptOf.throw])
    case isFalse hsig =>
      split at h
      · exact absurd h (by simp)
      · have hq := ok.inj h
        refine ⟨by rw [← hq], _, amzDate, _, ?_, not_not.mp hsig⟩
        have hrequire := lift_eq_ok hdate
        unfold require at hrequire
        split at hrequire
        · exact absurd hrequire (by simp)
        case h_2 value hvalue => rw [hvalue, ok.inj hrequire]

/-- A header that is signed and repeated has one value in its first and its last
field. -/
def RepeatsAgree (req : RawRequest) (signedHeaders : List Text) : Prop :=
  ∀ name, includeHeader (lowercase name) signedHeaders →
    (req.valuesOf name).head? = (req.valuesOf name).getLast?

theorem repeatsAgree_of_nodup {signedHeaders : List Text}
    (h : (req.headers.map fun field => lowercase field.name).Nodup) :
    RepeatsAgree req signedHeaders := by
  intro name _
  have hlen : (req.valuesOf name).length ≤ 1 := by
    have hcount := nodup_iff_count_le_one.mp h (lowercase name)
    rw [count, countP_map, countP_eq_length_filter] at hcount
    rw [valuesOf, length_map]
    refine le_trans (le_of_eq (congrArg length (filter_congr fun field _ => ?_))) hcount
    rw [Bool.eq_iff_iff]
    simp [equalsNocase]
  match hvalues : req.valuesOf name, hlen with
  | [], _ => rfl
  | [v], _ => rfl

theorem canonicalRequest_eq (hcrypto : crypto.Lawful) (r₁ r₂ : Received url)
    {key₁ key₂ date₁ date₂ sha₁ sha₂ : Text}
    (hdate₁ : r₁.raw.optional "x-amz-date".toList = some date₁)
    (hdate₂ : r₂.raw.optional "x-amz-date".toList = some date₂)
    (h : requestSignature crypto r₁.raw (parsed.info date₁ sha₁) key₁ =
      requestSignature crypto r₂.raw (parsed.info date₂ sha₂) key₂) :
    makeCanonicalRequest r₁.raw (parsed.info date₁ sha₁) =
      makeCanonicalRequest r₂.raw (parsed.info date₂ sha₂) := by
  have hnewline : ∀ (r : Received url) (date : Text),
      r.raw.optional "x-amz-date".toList = some date → '\n' ∉ date := by
    intro r date hdate
    obtain ⟨field, hfind, rfl⟩ := Option.map_eq_some_iff.mp hdate
    have hmem := mem_of_find?_eq_some hfind
    rw [r.raw_fields.2.1] at hmem
    exact (r.values field hmem).1
  have hsign := (hcrypto.hmac_injective
    (toHex_inj (hcrypto.hmac_bytes _ _) (hcrypto.hmac_bytes _ _) h)).2
  have htail := append_cancel_left hsign
  obtain ⟨_, hrest⟩ := append_cons_inj (hnewline r₁ date₁ hdate₁) (hnewline r₂ date₂ hdate₂) htail
  have hhash := append_cancel_left
    (show scope (parsed.info date₁ sha₁) ++ _ = scope (parsed.info date₁ sha₁) ++ _ from hrest)
  exact hcrypto.sha256_injective (toHex_inj (hcrypto.sha256_bytes _) (hcrypto.sha256_bytes _) hhash)

/-- A signature covers the method, the path and the parameters a handler sees.
It covers the headers if and only if no signed header is repeated with a last
value that differs from the first, as soon as one of the requests has none. -/
theorem signature_covers_view_iff {crypto : Crypto} (hcrypto : crypto.Lawful)
    (hurl : url.Lawful) (env₁ env₂ : Surroundings) (r₁ r₂ : Received url) (auth : Text)
    (parsed : Authorization) (q₁ q₂ : Request × Body)
    (hauth : parseAuthorization auth = .ok parsed)
    (h₁ : create crypto env₁ r₁.raw auth = .ok q₁)
    (h₂ : create crypto env₂ r₂.raw auth = .ok q₂) :
    q₁.1.raw.method = q₂.1.raw.method ∧ q₁.1.raw.path = q₂.1.raw.path ∧
    (∀ name, q₁.1.query name = q₂.1.query name) ∧
    (RepeatsAgree r₁.raw parsed.signedHeaders ∨ RepeatsAgree r₂.raw parsed.signedHeaders →
      ((∀ name, includeHeader (lowercase name) parsed.signedHeaders →
          q₁.1.header name = q₂.1.header name) ↔
        RepeatsAgree r₁.raw parsed.signedHeaders ∧ RepeatsAgree r₂.raw parsed.signedHeaders)) := by
  obtain ⟨hraw₁, key₁, date₁, sha₁, hdate₁, hsig₁⟩ := create_ok hauth h₁
  obtain ⟨hraw₂, key₂, date₂, sha₂, hdate₂, hsig₂⟩ := create_ok hauth h₂
  obtain ⟨hmethod, hpath, hquery, hheaders⟩ := view_of_canonicalRequest hurl r₁ r₂
    (canonicalRequest_eq hcrypto r₁ r₂ hdate₁ hdate₂ (hsig₁.trans hsig₂.symm))
  have hlast : ∀ name, includeHeader (lowercase name) parsed.signedHeaders →
      (r₁.raw.valuesOf name).getLast? = (r₂.raw.valuesOf name).getLast? := by
    intro name hname
    apply Option.ext
    intro value
    rw [← mem_canonicalHeadersMap r₁ (parsed.info date₁ sha₁) hname,
      ← mem_canonicalHeadersMap r₂ (parsed.info date₂ sha₂) hname]
    exact hheaders _
  refine ⟨by rw [hraw₁, hraw₂, hmethod], ?_, ?_, ?_⟩
  · rw [hraw₁, hraw₂, r₁.raw_fields.2.2.1, r₂.raw_fields.2.2.1, hpath]
  · intro name
    apply Option.ext
    intro value
    have hmem₁ := r₁.mem_params_iff name value q₁.1.user
    have hmem₂ := r₂.mem_params_iff name value q₂.1.user
    rw [← hraw₁] at hmem₁
    rw [← hraw₂] at hmem₂
    rw [← hmem₁, ← hmem₂, hraw₁, hraw₂]
    exact params_of_canonicalQuery hurl r₁ r₂ rfl rfl hquery _
  · intro hone
    simp only [Request.header, hraw₁, hraw₂, optional_eq_head]
    constructor
    · intro hfirst
      rcases hone with hagree | hagree
      · refine ⟨hagree, fun name hname => ?_⟩
        rw [← hfirst name hname, hagree name hname, hlast name hname]
      · refine ⟨fun name hname => ?_, hagree⟩
        rw [hfirst name hname, hagree name hname, hlast name hname]
    · rintro ⟨hagree₁, hagree₂⟩ name hname
      rw [hagree₁ name hname, hagree₂ name hname, hlast name hname]

section Sample

/-- Characters in bytes: one byte, or a mark and a number. -/
def byteCode (c : Char) : Text :=
  if c.toNat < 255 then [c] else Char.ofNat 255 :: (replicate c.toNat 'a' ++ ['b'])

theorem byteCode_bytes (c : Char) : IsBytes (byteCode c) := by
  intro d hd
  unfold byteCode at hd
  split at hd
  · simp_all
    omega
  · simp only [mem_cons, mem_append, mem_replicate, not_mem_nil, or_false] at hd
    rcases hd with rfl | ⟨_, rfl⟩ | rfl <;> decide

theorem byteCode_inj {c d : Char} {s t : Text} (h : byteCode c ++ s = byteCode d ++ t) :
    c = d ∧ s = t := by
  have hmark : (Char.ofNat 255).toNat = 255 := by decide
  unfold byteCode at h
  split at h <;> split at h <;> simp only [cons_append, nil_append, cons.injEq, append_assoc] at h
  · exact h
  case isTrue.isFalse hc _ => exact absurd (h.1 ▸ hc) (by omega)
  case isFalse.isTrue hd => exact absurd (h.1 ▸ hd) (by omega)
  · obtain ⟨hcount, hst⟩ := append_cons_inj (by simp) (by simp) h.2
    have hlen := congrArg length hcount
    simp only [length_replicate] at hlen
    exact ⟨Char.toNat_inj.mp hlen, hst⟩

/-- Functions without collisions in place of the hashes. -/
def sampleCrypto : Crypto :=
  { sha256 := fun s => s.flatMap byteCode
    hmacSha256 := fun key s => key.flatMap (fun c => '0' :: byteCode c) ++ '1' :: s.flatMap byteCode }

theorem sampleCrypto_key {key key' s t : Text}
    (h : key.flatMap (fun c => '0' :: byteCode c) ++ '1' :: s =
      key'.flatMap (fun c => '0' :: byteCode c) ++ '1' :: t) : key = key' ∧ s = t := by
  induction key generalizing key' with
  | nil =>
    cases key' with
    | nil => simpa using h
    | cons d key' => simp at h
  | cons c key ih =>
    cases key' with
    | nil => simp at h
    | cons d key' =>
      simp only [flatMap_cons, cons_append, append_assoc, cons.injEq, true_and] at h
      obtain ⟨hcd, hrest⟩ := byteCode_inj h
      obtain ⟨hkey, hst⟩ := ih hrest
      exact ⟨by rw [hcd, hkey], hst⟩

theorem flatMap_bytes {code : Char → Text} (h : ∀ c, IsBytes (code c)) (s : Text) :
    IsBytes (s.flatMap code) := by
  intro d hd
  obtain ⟨c, _, hc⟩ := mem_flatMap.mp hd
  exact h c d hc

theorem sampleCrypto_lawful : sampleCrypto.Lawful where
  sha256_bytes := flatMap_bytes byteCode_bytes
  sha256_injective := by
    intro s t h
    exact flatMap_inj (p := fun _ => True) (by intro c; unfold byteCode; split <;> simp)
      (fun _ _ _ _ _ _ => byteCode_inj) (by simp) (by simp) h
  hmac_bytes := by
    intro key s d hd
    rcases mem_append.mp hd with hd | hd
    · refine flatMap_bytes (fun c d hd => ?_) key d hd
      rcases mem_cons.mp hd with rfl | hd
      · decide
      · exact byteCode_bytes c d hd
    · rcases mem_cons.mp hd with rfl | hd
      · decide
      · exact flatMap_bytes byteCode_bytes s d hd
  hmac_injective := by
    intro key key' s t h
    obtain ⟨hkey, hst⟩ := sampleCrypto_key h
    exact ⟨hkey, flatMap_inj (p := fun _ => True) (by intro c; unfold byteCode; split <;> simp)
      (fun _ _ _ _ _ _ => byteCode_inj) (by simp) (by simp) hst⟩

def sampleUrl : UrlLibrary :=
  { encodedPath := fun s => .ok (s.filter fun c => decide (c ≠ '\n'))
    path := id
    params := fun _ => .ok [] }

theorem sampleUrl_lawful : sampleUrl.Lawful where
  encodedPath_newline := by
    intro s encoded h
    rw [← ok.inj h]
    simp
  params_bytes := by
    intro query pairs h
    rw [← ok.inj h]
    simp

/-- A request for `/b/k`. -/
def sampleReceived (headers : List Field)
    (names : ∀ field ∈ headers, ':' ∉ field.name ∧ '\n' ∉ field.name)
    (values : ∀ field ∈ headers, '\n' ∉ field.value ∧ trim field.value = field.value) :
    Received sampleUrl :=
  { version := 11
    method := "GET".toList
    target := "/b/k".toList
    peer := []
    headers := headers
    method_newline := by decide
    names := names
    values := values
    raw := ⟨"GET".toList, "/b/k".toList, "/b/k".toList, [], headers, []⟩
    raw_eq := rfl }

def dateField : Field := ⟨"x-amz-date".toList, ['d']⟩

def hostField (host : Char) : Field := ⟨"Host".toList, [host]⟩

def capturedRequest : Received sampleUrl :=
  sampleReceived [hostField 'a', dateField] (by decide) (by decide)

/-- The captured request with its fields in another order. -/
def reorderedRequest : Received sampleUrl :=
  sampleReceived [dateField, hostField 'a'] (by decide) (by decide)

/-- The captured request with a further field in front. -/
def alteredRequest : Received sampleUrl :=
  sampleReceived [hostField 'b', hostField 'a', dateField] (by decide) (by decide)

def sampleSurroundings : Surroundings :=
  { stream := []
    findByKey := fun key => .ok (⟨key, key, none, false⟩, ['s'])
    stoul := fun _ => .ok 0 }

def sampleInfo : SignatureInfo :=
  { date := ['t'], region := ['r'], service := ['s'], signedHeaders := ["host".toList]
    amzDate := ['d'], contentSha := "UNSIGNED-PAYLOAD".toList, queryIgnore := [] }

def sampleAuth : Text :=
  "AWS4-HMAC-SHA256 Credential=k/t/r/s/aws4_request,SignedHeaders=host,Signature=".toList ++
    requestSignature sampleCrypto capturedRequest.raw sampleInfo
      (makeSigningKey sampleCrypto ['s'] sampleInfo)

def passes (r : Received sampleUrl) : Bool :=
  (create sampleCrypto sampleSurroundings r.raw sampleAuth).toBool

theorem exists_ok {ε α : Type} {x : Except ε α} (h : x.toBool = true) : ∃ a, x = .ok a := by
  cases x with
  | error e => exact absurd h (by simp [Except.toBool])
  | ok a => exact ⟨a, rfl⟩

theorem sampleAuth_parses : (parseAuthorization sampleAuth).toBool = true := by decide +kernel

theorem samples_pass :
    passes capturedRequest ∧ passes reorderedRequest ∧ passes alteredRequest := by
  decide +kernel

theorem signature_covers_view_iff_reordered :
    ∃ (parsed : Authorization) (q₁ q₂ : Request × Body),
      parseAuthorization sampleAuth = .ok parsed ∧
      create sampleCrypto sampleSurroundings capturedRequest.raw sampleAuth = .ok q₁ ∧
      create sampleCrypto sampleSurroundings reorderedRequest.raw sampleAuth = .ok q₂ ∧
      q₁.1.raw.path = q₂.1.raw.path ∧
      ∀ name, includeHeader (lowercase name) parsed.signedHeaders →
        q₁.1.header name = q₂.1.header name := by
  obtain ⟨parsed, hauth⟩ := exists_ok sampleAuth_parses
  obtain ⟨q₁, h₁⟩ := exists_ok samples_pass.1
  obtain ⟨q₂, h₂⟩ := exists_ok samples_pass.2.1
  obtain ⟨_, hpath, _, hiff⟩ := signature_covers_view_iff sampleCrypto_lawful sampleUrl_lawful
    sampleSurroundings sampleSurroundings capturedRequest reorderedRequest sampleAuth parsed q₁ q₂
    hauth h₁ h₂
  have hagree₁ : RepeatsAgree capturedRequest.raw parsed.signedHeaders :=
    repeatsAgree_of_nodup (by decide)
  have hagree₂ : RepeatsAgree reorderedRequest.raw parsed.signedHeaders :=
    repeatsAgree_of_nodup (by decide)
  exact ⟨parsed, q₁, q₂, hauth, h₁, h₂, hpath, (hiff (.inl hagree₁)).mpr ⟨hagree₁, hagree₂⟩⟩

/-- A field put in front of a signed one changes what a handler gets, and the
signature still holds. -/
theorem repeated_header_not_covered :
    ¬ ∀ (crypto : Crypto) (url : UrlLibrary) (env : Surroundings) (r₁ r₂ : Received url)
      (auth : Text) (parsed : Authorization) (q₁ q₂ : Request × Body),
      crypto.Lawful → url.Lawful → parseAuthorization auth = .ok parsed →
      create crypto env r₁.raw auth = .ok q₁ → create crypto env r₂.raw auth = .ok q₂ →
      ∀ name, includeHeader name parsed.signedHeaders → q₁.1.header name = q₂.1.header name := by
  intro h
  obtain ⟨parsed, hauth⟩ := exists_ok sampleAuth_parses
  obtain ⟨q₁, h₁⟩ := exists_ok samples_pass.1
  obtain ⟨q₂, h₂⟩ := exists_ok samples_pass.2.2
  have hhost := h sampleCrypto sampleUrl sampleSurroundings capturedRequest alteredRequest
    sampleAuth parsed q₁ q₂ sampleCrypto_lawful sampleUrl_lawful hauth h₁ h₂ "host".toList rfl
  rw [Request.header, Request.header, (create_ok hauth h₁).1, (create_ok hauth h₂).1] at hhost
  revert hhost
  decide

end Sample

end Aws4HmacSha256

end UhCore.Entrypoint.Http
