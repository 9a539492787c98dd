import UhCore.Entrypoint.ChunkFrames
import UhCore.Entrypoint.SignedView
import UhCore.Lib.SignatureChain

/-!
What a signed body in chunks is accepted as. A reading that ends without an
exception delivered the chunks of the stream and found the signatures of the
chain, unless the header of a chunk ends where the buffer ends.
-/

namespace UhCore.Entrypoint.Http

open Effects Delimited Aws4HmacSha256 List Option

section Outcome

open SignatureChain ChunkSigner ChunkHeader Except

variable (crypto : Crypto) (key prelude : Text)

/-- The signature over the hash of a content, behind another signature. -/
def signChunk (previous hash : Text) : Text :=
  toHex (crypto.hmacSha256 key (signedStart prelude previous ++ hash))

def contentHash (content : Text) : Text := toHex (crypto.sha256 content)

def chunkSignatures (previous : Text) (contents : List Text) : List Text :=
  signatures (signChunk crypto key prelude) (contentHash crypto) sha256EmptyString previous contents

def ChunkHeader.signature (header : ChunkHeader) : Option Text :=
  valueOf header.extensions "chunk-signature"

def contents (frames : List Frame) : List Text := frames.map Frame.content

/-- The signatures that the headers of a stream have. -/
def found (frames : List Frame) (last : ChunkHeader) : List (Option Text) :=
  frames.map (fun frame => frame.header.signature) ++ [last.signature]

/-- The chunks of the stream were delivered, and the signatures are those of the
chain. -/
def DeliversRest (signature previous stream delivered : Text) : Prop :=
  ∃ frames last, Framed stream frames last ∧ delivered = (contents frames).flatten ∧
    carried signature (found frames last) = chunkSignatures crypto key prelude previous (contents frames)

/-- The same within a chunk, of which `left` bytes are missing. -/
def DeliversChunk (left : Nat) (signer : ChunkSigner) (previous stream delivered : Text) : Prop :=
  ∃ content rest frames last, stream = content ++ rest ∧ content.length = left ∧
    Framed (dropNewline rest) frames last ∧ delivered = content ++ (contents frames).flatten ∧
    signer.chunkSignature =
      signChunk crypto key prelude previous (contentHash crypto (signer.hash ++ content)) ∧
    carried signer.chunkSignature (found frames last) =
      chunkSignatures crypto key prelude signer.chunkSignature (contents frames)

/-- How a reading between two chunks ends that does not throw. -/
structure RestOutcome (size pos : Nat) (signature previous stream delivered : Text) : Prop where
  delivers : ¬ Overfull size pos stream →
    DeliversRest crypto key prelude signature previous stream delivered
  misses : Overfull size pos stream → ∀ frames last, Framed stream frames last →
    delivered ≠ (contents frames).flatten

/-- How a reading within a chunk ends that does not throw. -/
structure ChunkOutcome (size left : Nat) (signer : ChunkSigner) (previous stream delivered : Text) :
    Prop where
  delivers : (∀ content rest, stream = content ++ rest → content.length = left →
      ¬ Overfull size 0 (dropNewline rest)) →
    DeliversChunk crypto key prelude left signer previous stream delivered
  misses : ∀ content rest, stream = content ++ rest → content.length = left →
    Overfull size 0 (dropNewline rest) → ∀ frames last, Framed (dropNewline rest) frames last →
    delivered ≠ content ++ (contents frames).flatten

variable {crypto key prelude} {s : SocketStream} {pieces : List Text}
  {body : ChunkedBody ChunkSigner}

theorem ChunkOutcome.of_part {size left : Nat} {signer : ChunkSigner}
    {previous stream data delivered : Text} (hdata : data.length < left)
    (h : ChunkOutcome crypto key prelude size (left - data.length)
      (onChunkData data signer) previous stream delivered) :
    ChunkOutcome crypto key prelude size left signer previous (data ++ stream) (data ++ delivered) where
  delivers := by
    intro hover
    obtain ⟨content, rest, frames, last, rfl, hlen, hframe, rfl, hsig, hcarried⟩ :=
      h.delivers fun content rest hstream hlen =>
        hover (data ++ content) rest (by rw [hstream, append_assoc])
          (by rw [length_append]; omega)
    refine ⟨data ++ content, rest, frames, last, (append_assoc _ _ _).symm,
      by rw [length_append]; omega, hframe, (append_assoc _ _ _).symm, ?_, hcarried⟩
    rw [← append_assoc]
    exact hsig
  misses := by
    intro content rest hstream hlen hover frames last hframe hdeliv
    obtain ⟨content', rfl⟩ : data <+: content :=
      prefix_of_prefix_length_le ⟨stream, rfl⟩ ⟨rest, hstream.symm⟩ (by omega)
    rw [append_assoc] at hstream hdeliv
    exact h.misses content' rest (append_cancel_left hstream)
      (by rw [length_append] at hlen; omega) hover frames last hframe
      (append_cancel_left hdeliv)

theorem onChunkDone_ok {signer signer' : ChunkSigner} {previous : Text}
    (hstart : signer.toSign = signedStart signer.prelude previous)
    (h : signer.onChunkDone crypto = .ok signer') :
    signer.chunkSignature = signChunk crypto signer.signingKey signer.prelude previous
        (contentHash crypto signer.hash) ∧
      signer' = { signer with
        hash := []
        toSign := signedStart signer.prelude signer.chunkSignature } := by
  unfold onChunkDone at h
  dsimp only at h
  split at h
  case isTrue => simp at h
  case isFalse hsame =>
    have hsig := not_not.mp hsame
    rw [hstart] at hsig
    exact ⟨hsig.symm, by rw [← ok.inj h, hstart, hsig]⟩

theorem onBodyDone_ok {signer signer' : ChunkSigner} {previous : Text}
    (hstart : signer.toSign = signedStart signer.prelude previous)
    (h : signer.onBodyDone crypto = .ok signer') :
    signer.chunkSignature =
      signChunk crypto signer.signingKey signer.prelude previous sha256EmptyString := by
  unfold onBodyDone at h
  dsimp only at h
  split at h
  case isTrue => simp at h
  case isFalse hsame =>
    have hsig := not_not.mp hsame
    rw [hstart] at hsig
    exact hsig.symm

/-- The last part of a chunk, its line end and the header that follows. -/
theorem ChunkOutcome.of_rest {size : Nat} {signer : ChunkSigner}
    {previous stream data newline line rest delivered : Text} {header : ChunkHeader}
    (hsig : signer.chunkSignature =
      signChunk crypto key prelude previous (contentHash crypto (signer.hash ++ data)))
    (hnewline : newline <+: crlf) (hline : upTo crlf stream = some (line, rest))
    (hhead : parse line = .ok header)
    (h : RestOutcome crypto key prelude size 0 signer.chunkSignature signer.chunkSignature stream
      delivered) :
    ChunkOutcome crypto key prelude size data.length signer previous
      (data ++ newline ++ stream) (data ++ delivered) where
  delivers := by
    intro hover
    have hdrop := dropNewline_append hnewline hline hhead
    have hnot := hover data (newline ++ stream) (append_assoc _ _ _) rfl
    rw [hdrop] at hnot
    obtain ⟨frames, last, hframe, rfl, hcarried⟩ := h.delivers hnot
    exact ⟨data, newline ++ stream, frames, last, append_assoc _ _ _, rfl,
      by rw [hdrop]; exact hframe, rfl, hsig, hcarried⟩
  misses := by
    intro content rest' hstream hlen hover frames last hframe hdeliv
    rw [append_assoc] at hstream
    obtain ⟨rfl, rfl⟩ := append_inj hstream hlen.symm
    rw [dropNewline_append hnewline hline hhead] at hover hframe
    exact h.misses hover frames last hframe (append_cancel_left hdeliv)

section Header

variable {size pos : Nat} {signer : ChunkSigner} {previous stream line rest delivered : Text}
  {header : ChunkHeader}

theorem onChunkHeader_signature (header : ChunkHeader) (signer : ChunkSigner) :
    signer.onChunkHeader header =
      { signer with chunkSignature := header.signature.getD signer.chunkSignature } := by
  unfold onChunkHeader signature
  cases valueOf header.extensions "chunk-signature" <;> rfl

section

variable (hline : upTo crlf stream = some (line, rest)) (hhead : parse line = .ok header)

include hline hhead

theorem RestOutcome.of_last (hsize : header.size = 0)
    (hsig : header.signature.getD signer.chunkSignature =
      signChunk crypto key prelude previous sha256EmptyString) :
    RestOutcome crypto key prelude size pos signer.chunkSignature previous stream [] where
  delivers := fun _ =>
    ⟨[], header, .last hline hhead hsize, rfl, congrArg (fun s => [s]) hsig⟩
  misses := by
    intro hover
    exact absurd hover (not_overfull_last hline hhead hsize)

theorem Framed.content_of_size {frames : List Frame} {last : ChunkHeader}
    (hsize : header.size ≠ 0) (h : Framed stream frames last) :
    ∃ content rest' frames', rest = content ++ rest' ∧ content.length = header.size ∧
      content ≠ [] ∧ Framed (dropNewline rest') frames' last ∧
      frames = ⟨header, content⟩ :: frames' := by
  cases h with
  | last hline' hhead' hsize' =>
    obtain ⟨rfl, _⟩ := Prod.mk.inj (some.inj (hline.symm.trans hline'))
    obtain rfl := ok.inj (hhead.symm.trans hhead')
    exact absurd hsize' hsize
  | chunk hline' hhead' hsize' hcont hrest =>
    obtain ⟨rfl, rfl⟩ := Prod.mk.inj (some.inj (hline.symm.trans hline'))
    obtain rfl := ok.inj (hhead.symm.trans hhead')
    exact ⟨_, _, _, rfl, hsize'.symm, hcont, hrest, rfl⟩

/-- The buffer ends with the header, and nothing of the chunk is read. -/
theorem RestOutcome.of_full {signature : Text} (hsize : header.size ≠ 0)
    (hfull : pos + line.length = size) :
    RestOutcome crypto key prelude size pos signature previous stream [] where
  delivers := fun hover => absurd (.here hline hhead hsize hfull) hover
  misses := by
    intro _ frames last hframe hnone
    obtain ⟨content, _, _, _, _, hcont, _, rfl⟩ := hframe.content_of_size hline hhead hsize
    exact hcont (append_eq_nil_iff.mp hnone.symm).1

theorem RestOutcome.of_chunk (hsize : header.size ≠ 0)
    (hspace : pos + line.length ≠ size) (hhash : signer.hash = [])
    (h : ChunkOutcome crypto key prelude size header.size (signer.onChunkHeader header) previous rest
      delivered) :
    RestOutcome crypto key prelude size pos signer.chunkSignature previous stream delivered where
  delivers := by
    intro hover
    obtain ⟨content, rest', frames, last, rfl, hlen, hframe, rfl, hsig, hcarried⟩ :=
      h.delivers fun content rest' hrest hlen hover' => hover (.later (hrest ▸ hline) hhead
        hlen.symm (by rintro rfl; exact hsize hlen.symm) hover')
    rw [onChunkHeader_signature, hhash, nil_append] at hsig
    rw [onChunkHeader_signature] at hcarried
    refine ⟨⟨header, content⟩ :: frames, last, .chunk hline hhead hlen.symm
      (by rintro rfl; exact hsize hlen.symm) hframe, rfl, ?_⟩
    apply congrArg₂ List.cons hsig
    rw [← hsig]
    exact hcarried
  misses := by
    intro hover frames last hframe hdeliv
    obtain ⟨content, rest', frames', rfl, hlen, _, hframe', rfl⟩ :=
      hframe.content_of_size hline hhead hsize
    refine h.misses content rest' rfl hlen ?_ frames' last hframe' hdeliv
    cases hover with
    | here hline' hhead' _ hfull =>
      obtain ⟨rfl, _⟩ := Prod.mk.inj (some.inj (hline.symm.trans hline'))
      exact absurd hfull hspace
    | later hline' hhead' hsize' _ hover' =>
      obtain ⟨rfl, hrest⟩ := Prod.mk.inj (some.inj (hline.symm.trans hline'))
      obtain rfl := ok.inj (hhead.symm.trans hhead')
      obtain ⟨_, rfl⟩ := append_inj hrest (hlen.trans hsize')
      exact hover'

end

end Header

/-- The signer signs behind `previous`. -/
structure Signing (signer : ChunkSigner) (key prelude previous : Text) : Prop where
  key_eq : signer.signingKey = key
  prelude_eq : signer.prelude = prelude
  toSign_eq : signer.toSign = signedStart prelude previous

theorem Signing.onChunkHeader {signer : ChunkSigner} {previous : Text}
    (h : Signing signer key prelude previous) (header : ChunkHeader) :
    Signing (signer.onChunkHeader header) key prelude previous := by
  rw [onChunkHeader_signature]
  exact ⟨h.key_eq, h.prelude_eq, h.toSign_eq⟩

/-- What a reading comes to from here: between two chunks, or within one when
there is space in the buffer. -/
structure Outcome (crypto : Crypto) (key prelude : Text) (body : ChunkedBody ChunkSigner)
    (s : SocketStream) (previous delivered : Text) : Prop where
  rest : body.chunkBytesLeft = 0 → body.state.hash = [] →
    RestOutcome crypto key prelude s.bufferSize s.getPtr body.state.chunkSignature previous s.unread
      delivered
  chunk : body.chunkBytesLeft ≠ 0 → s.getPtr < s.bufferSize →
    ChunkOutcome crypto key prelude s.bufferSize body.chunkBytesLeft body.state previous s.unread
      delivered

theorem Reading.header {σ : Type} {hooks : Hooks σ} {body : ChunkedBody σ}
    (h : Reading hooks body s pieces (.ok ())) (hended : body.ended = false)
    (hleft : body.chunkBytesLeft = 0) :
    ∃ line rest header, upTo crlf s.unread = some (line, rest) ∧
      parse line = .ok header := by
  cases h with
  | ended _ hread =>
    obtain ⟨line, header, mid, hline, hhead, _⟩ := returns_read_between hended hleft hread
    exact ⟨line, mid.unread, header, hline, hhead⟩
  | more _ hread _ _ _ =>
    obtain ⟨line, header, mid, hline, hhead, _⟩ := returns_read_between hended hleft hread
    exact ⟨line, mid.unread, header, hline, hhead⟩

theorem chunkOutcome_of_readData {body' : ChunkedBody ChunkSigner} {s₁ s₂ : SocketStream}
    {count : Nat} {data previous : Text}
    (hread : Returns (body.readData (hooks crypto) count) s (data, body') s₁) (hcount : 0 < count)
    (hended : body.ended = false) (hleft : body.chunkBytesLeft ≠ 0)
    (hsign : Signing body.state key prelude previous) (hdata : data ≠ [])
    (hconsu : Returns SocketStream.consume s₁ () s₂)
    (hrest : Reading (hooks crypto) body' s₂ pieces (.ok ()))
    (ih : body'.ended = false → ∀ previous', Signing body'.state key prelude previous' →
      Outcome crypto key prelude body' s₂ previous' pieces.flatten) :
    ChunkOutcome crypto key prelude s.bufferSize body.chunkBytesLeft body.state previous s.unread
      (data ++ pieces.flatten) := by
  obtain ⟨hunread, hpos, hsize⟩ := SocketStream.returns_consume hconsu
  have hlen := length_pos_iff.mpr hdata
  obtain ⟨_, _, ⟨hpart, hadv, rfl⟩ | ⟨signer, newline, hall, hdone, hnewline, hadv, rfl⟩⟩ :=
    returns_readData hcount hleft hread
  · have hsize' : s₂.bufferSize = s.bufferSize := hsize.trans hadv.bufferSize
    have hspace : s₂.getPtr < s₂.bufferSize := by
      have hget := hadv.getPtr
      have hle := s₁.get_le_put.trans s₁.put_le_size
      omega
    have houtcome := (ih hended previous ⟨hsign.key_eq, hsign.prelude_eq, hsign.toSign_eq⟩).chunk
      (by dsimp only; omega) hspace
    rw [hunread, hsize'] at houtcome
    rw [hadv.unread]
    exact houtcome.of_part hpart
  · have hsize' : s₂.bufferSize = s.bufferSize := hsize.trans hadv.bufferSize
    have hstart : (onChunkData data body.state).toSign =
        signedStart body.state.prelude previous := by
      rw [hsign.prelude_eq]
      exact hsign.toSign_eq
    obtain ⟨hsig, rfl⟩ := onChunkDone_ok hstart hdone
    obtain ⟨line, rest, header, hline, hhead⟩ := hrest.header hended rfl
    have houtcome := (ih hended body.state.chunkSignature ⟨hsign.key_eq, hsign.prelude_eq,
      congrArg (fun p => signedStart p body.state.chunkSignature)
        hsign.prelude_eq⟩).rest rfl rfl
    rw [hunread] at hline
    rw [hunread, hpos, hsize'] at houtcome
    rw [hadv.unread, ← hall]
    refine ChunkOutcome.of_rest ?_ hnewline hline hhead houtcome
    rw [← hsign.key_eq, ← hsign.prelude_eq]
    exact hsig

/-- Every reading that does not throw. The cases follow the reading; the parts
of the body state say where in a chunk it goes on. -/
theorem Reading.outcome {result : Except Thrown Unit}
    (h : Reading (hooks crypto) body s pieces result) (hres : result = .ok ())
    (hended : body.ended = false) (previous : Text)
    (hsign : Signing body.state key prelude previous) :
    Outcome crypto key prelude body s previous pieces.flatten := by
  induction h generalizing previous with
  | failed _ _ => simp at hres
  | @ended body body' s s' count hcount hread =>
    constructor
    · intro hleft hhash
      obtain ⟨line, header, mid, hline, hhead, hadv, ⟨hzero, _, signer, hdone⟩ | ⟨hsize, hdata⟩⟩ :=
        returns_read_between hended hleft hread
      · have hstart := (hsign.onChunkHeader header).toSign_eq
        rw [← (hsign.onChunkHeader header).prelude_eq] at hstart
        have hsig := onBodyDone_ok hstart hdone
        rw [(hsign.onChunkHeader header).key_eq, (hsign.onChunkHeader header).prelude_eq,
          onChunkHeader_signature] at hsig
        exact .of_last hline hhead hzero hsig
      · obtain ⟨hfull, _⟩ := returns_readData hcount hsize hdata
        have hpos := hfull rfl
        rw [hadv.getPtr, hadv.bufferSize] at hpos
        exact .of_full hline hhead hsize hpos
    · intro hleft hspace
      unfold ChunkedBody.read at hread
      rw [if_neg (by rw [hended]; exact Bool.false_ne_true), if_neg hleft] at hread
      have hfull := (returns_readData hcount hleft hread).1 rfl
      omega
  | @more body body' s s₁ s₂ count data pieces result hcount hread hdata hconsu hrest ih =>
    subst hres
    constructor
    · intro hleft hhash
      obtain ⟨line, header, mid, hline, hhead, hadv, ⟨_, hnone, _⟩ | ⟨hsize, hchunk⟩⟩ :=
        returns_read_between hended hleft hread
      · exact absurd hnone hdata
      · have hspace : s.getPtr + line.length ≠ s.bufferSize := by
          obtain ⟨_, hroom, _⟩ := returns_readData hcount hsize hchunk
          have hlen := length_pos_iff.mpr hdata
          rw [hadv.getPtr, hadv.bufferSize] at hroom
          omega
        refine .of_chunk hline hhead hsize hspace hhash ?_
        rw [← hadv.bufferSize]
        exact chunkOutcome_of_readData hchunk hcount hended hsize (hsign.onChunkHeader header)
          hdata hconsu hrest (ih rfl)
    · intro hleft _
      unfold ChunkedBody.read at hread
      rw [if_neg (by rw [hended]; exact Bool.false_ne_true), if_neg hleft] at hread
      exact chunkOutcome_of_readData hread hcount hended hleft hsign hdata hconsu hrest (ih rfl)

end Outcome

section Accepted

open SignatureChain

/-- The digests are not empty, and that of nothing is the one written in the
source. -/
structure Crypto.LawfulDigests (crypto : Crypto) : Prop extends crypto.Lawful where
  hmac_ne_nil : ∀ key s, crypto.hmacSha256 key s ≠ []
  sha256_nil : toHex (crypto.sha256 []) = sha256EmptyString

/-- The body that `make_body` reads a request with whose chunks are signed. -/
def signedBody (crypto : Crypto) (req : RawRequest) (info : SignatureInfo) (key prelude : Text)
    (trailing : Bool) : ChunkedBody ChunkSigner :=
  { trailing := trailing
    chunkBytesLeft := 0
    ended := false
    state := ChunkSigner.start prelude key (requestSignature crypto req info key) }

/-- The stream has the chunks that were delivered, and each header has the
signature of the chain. -/
def AcceptedAsSigned (crypto : Crypto) (key prelude seed stream delivered : Text) : Prop :=
  ∃ frames last, Framed stream frames last ∧ delivered = (contents frames).flatten ∧
    found frames last = (chunkSignatures crypto key prelude seed (contents frames)).map some

theorem newline_notMem_toHex (s : Text) : '\n' ∉ toHex s := by
  intro h
  obtain ⟨c, _, hc⟩ := mem_flatMap.mp h
  have hdigits : ∀ i < 16, hexDigits.getD i '0' ≠ '\n' := by decide
  simp only [hexPair, mem_cons, not_mem_nil, or_false] at hc
  rcases hc with hc | hc
  · exact hdigits _ (Nat.mod_lt _ (by decide)) hc.symm
  · exact hdigits _ (Nat.mod_lt _ (by decide)) hc.symm

variable {stream : Text} {frames frames' : List Frame} {last last' : ChunkHeader}

theorem Framed.content_ne_nil (h : Framed stream frames last) :
    ∀ content ∈ contents frames, content ≠ [] := by
  induction h with
  | last => simp [contents]
  | chunk _ _ _ hcont _ ih =>
    intro content hmem
    rcases mem_cons.mp hmem with rfl | hrest
    · exact hcont
    · exact ih content hrest

theorem Framed.unique (h : Framed stream frames last) (h' : Framed stream frames' last') :
    frames = frames' ∧ last = last' := by
  induction h generalizing frames' with
  | last hline hhead hsize =>
    cases h' with
    | last hline' hhead' _ =>
      obtain ⟨rfl, _⟩ := Prod.mk.inj (some.inj (hline.symm.trans hline'))
      exact ⟨rfl, Except.ok.inj (hhead.symm.trans hhead')⟩
    | chunk hline' hhead' hsize' hcont' _ =>
      obtain ⟨rfl, _⟩ := Prod.mk.inj (some.inj (hline.symm.trans hline'))
      obtain rfl := Except.ok.inj (hhead.symm.trans hhead')
      exact absurd (eq_nil_of_length_eq_zero (hsize'.symm.trans hsize)) hcont'
  | @chunk stream line content rest header last frames hline hhead hsize hcont hrest ih =>
    have hnonzero : header.size ≠ 0 := by
      rw [hsize]
      exact fun hzero => hcont (eq_nil_of_length_eq_zero hzero)
    obtain ⟨content', rest', frames'', hsplit, hlen, _, hframe, rfl⟩ :=
      h'.content_of_size hline hhead hnonzero
    obtain ⟨rfl, rfl⟩ := append_inj hsplit (hsize.symm.trans hlen.symm)
    obtain ⟨rfl, rfl⟩ := ih hframe
    exact ⟨rfl, rfl⟩

variable {crypto : Crypto} {req : RawRequest} {info : SignatureInfo} {key prelude : Text}

theorem signChunk_inj (hcrypto : crypto.LawfulDigests) {previous previous' hash hash' : Text}
    (hprevious : '\n' ∉ previous) (hprevious' : '\n' ∉ previous')
    (h : signChunk crypto key prelude previous hash = signChunk crypto key prelude previous' hash') :
    previous = previous' ∧ hash = hash' := by
  have hhmac := toHex_inj (hcrypto.hmac_bytes _ _) (hcrypto.hmac_bytes _ _) h
  have hmsg := (hcrypto.hmac_injective hhmac).2
  simp only [ChunkSigner.signedStart, append_assoc] at hmsg
  obtain ⟨hprev, hrest⟩ := append_cons_inj hprevious hprevious' (append_cancel_left hmsg)
  exact ⟨hprev, append_cancel_left (append_cancel_left hrest)⟩

theorem makePrelude_ok (h : ChunkSigner.makePrelude req info = .ok prelude) :
    "AWS4-HMAC-SHA256-".toList <+: prelude := by
  unfold ChunkSigner.makePrelude at h
  cases hdate : req.require "x-amz-date".toList with
  | error e =>
    rw [hdate] at h
    exact absurd h (by simp [bind, Except.bind])
  | ok date =>
    rw [hdate] at h
    rw [← Except.ok.inj h, append_assoc]
    exact List.IsPrefix.trans (by decide +kernel) (prefix_append _ _)

theorem stringToSign_start : "AWS4-HMAC-SHA256\n".toList <+: stringToSign crypto req info :=
  prefix_append _ _

/-- What is signed for a chunk is not what is signed for a request. -/
theorem signChunk_ne_requestSignature (hcrypto : crypto.LawfulDigests)
    (hprel : ChunkSigner.makePrelude req info = .ok prelude) (previous hash : Text) :
    signChunk crypto key prelude previous hash ≠ requestSignature crypto req info key := by
  intro h
  have hhmac := toHex_inj (hcrypto.hmac_bytes _ _) (hcrypto.hmac_bytes _ _) h
  have hmsg := (hcrypto.hmac_injective hhmac).2
  have hchunk : "AWS4-HMAC-SHA256-".toList <+: stringToSign crypto req info := by
    rw [← hmsg, ChunkSigner.signedStart]
    simp only [append_assoc]
    exact (makePrelude_ok hprel).trans (prefix_append _ _)
  have hsame := prefix_of_prefix_length_le hchunk stringToSign_start (by decide +kernel)
  exact absurd hsame (by decide +kernel)

theorem chain_sound (hcrypto : crypto.LawfulDigests)
    (hprel : ChunkSigner.makePrelude req info = .ok prelude) :
    Sound (signChunk crypto key prelude) (contentHash crypto) sha256EmptyString (fun s => '\n' ∉ s)
      (fun content => content ≠ []) (requestSignature crypto req info key) where
  injective := fun _ _ _ _ hk hk' h => signChunk_inj hcrypto hk hk' h
  valid_sign := fun _ _ => newline_notMem_toHex _
  valid_seed := newline_notMem_toHex _
  fresh := signChunk_ne_requestSignature hcrypto hprel
  hash_injective := fun _ _ h =>
    hcrypto.sha256_injective (toHex_inj (hcrypto.sha256_bytes _) (hcrypto.sha256_bytes _) h)
  stop_ne := by
    intro content hcont h
    rw [← hcrypto.sha256_nil] at h
    exact hcont (hcrypto.sha256_injective
      (toHex_inj (hcrypto.sha256_bytes _) (hcrypto.sha256_bytes _) h))

theorem toHex_ne_nil {s : Text} (h : s ≠ []) : toHex s ≠ [] := by
  cases s with
  | nil => exact absurd rfl h
  | cons c s => simp [toHex, hexPair]

/-- Where no header fills the buffer, a reading that does not throw accepts the
stream as signed. -/
theorem Reading.accepted (hcrypto : crypto.LawfulDigests)
    (hprel : ChunkSigner.makePrelude req info = .ok prelude) {trailing : Bool}
    {s : SocketStream} {pieces : List Text}
    (h : Reading (ChunkSigner.hooks crypto) (signedBody crypto req info key prelude trailing) s
      pieces (.ok ())) :
    AcceptedAsSigned crypto key prelude (requestSignature crypto req info key) s.unread
      pieces.flatten ↔ ¬ Overfull s.bufferSize s.getPtr s.unread := by
  have houtcome := (h.outcome rfl rfl (requestSignature crypto req info key)
    ⟨rfl, rfl, rfl⟩).rest rfl rfl
  constructor
  · rintro ⟨frames, last, hframe, hdeliv, _⟩ hover
    exact houtcome.misses hover frames last hframe hdeliv
  · intro hover
    obtain ⟨frames, last, hframe, hdeliv, hcarried⟩ := houtcome.delivers hover
    have hsound : Sound (signChunk crypto key prelude) (contentHash crypto) sha256EmptyString _ _ _ :=
      chain_sound hcrypto hprel
    refine ⟨frames, last, hframe, hdeliv, hsound.entries_eq hsound.valid_seed
      (fun x => hsound.fresh _ x) (fun x => ?_) hcarried⟩
    exact toHex_ne_nil (hcrypto.hmac_ne_nil _ _)

theorem getLast?_found (frames : List Frame) (last : ChunkHeader) :
    (found frames last).getLast? = some last.signature := by
  simp [found]

/-- A stream whose last signature is one of another stream has the chunks of
that stream. -/
theorem contents_eq (hcrypto : crypto.LawfulDigests)
    (hprel : ChunkSigner.makePrelude req info = .ok prelude)
    (hconts : ∀ content ∈ contents frames, content ≠ [])
    (h : found frames last = (chunkSignatures crypto key prelude
      (requestSignature crypto req info key) (contents frames)).map some)
    (h' : found frames' last' = (chunkSignatures crypto key prelude
      (requestSignature crypto req info key) (contents frames')).map some)
    (hlast : last'.signature ∈ found frames last) : contents frames' = contents frames := by
  have hstop := congrArg List.getLast? h'
  rw [getLast?_found, getLast?_map, chunkSignatures, getLast?_signatures] at hstop
  obtain hstop := some.inj hstop
  rw [hstop, h] at hlast
  obtain ⟨signature, hmem, hsig⟩ := List.mem_map.mp hlast
  rw [some.inj hsig] at hmem
  exact (chain_sound hcrypto hprel).eq_of_stop_mem hconts hmem

/-- A signed body that is read to its end without an exception is accepted as
signed, exactly if no header of a chunk ends where the buffer ends. Then the
last signature determines the chunks, and a stream with other chunks and only
signatures of this one, or without a last chunk, always ends in an exception. -/
theorem signed_chunks_iff (hcrypto : crypto.LawfulDigests) (req : RawRequest) (info : SignatureInfo)
    (key prelude : Text) (hprelude : ChunkSigner.makePrelude req info = .ok prelude)
    (trailing : Bool) (s : SocketStream) (pieces : List Text)
    (h : Reading (ChunkSigner.hooks crypto) (signedBody crypto req info key prelude trailing) s
      pieces (.ok ())) :
    (AcceptedAsSigned crypto key prelude (requestSignature crypto req info key) s.unread
        pieces.flatten ↔ ¬ Overfull s.bufferSize s.getPtr s.unread) ∧
    (¬ Overfull s.bufferSize s.getPtr s.unread →
      ∀ s' : SocketStream, ¬ Overfull s'.bufferSize s'.getPtr s'.unread →
      (∀ pieces', Reading (ChunkSigner.hooks crypto)
          (signedBody crypto req info key prelude trailing) s' pieces' (.ok ()) →
        ∀ frames last frames' last', Framed s.unread frames last → Framed s'.unread frames' last' →
          last'.signature = last.signature →
          contents frames' = contents frames ∧ pieces'.flatten = pieces.flatten) ∧
      ((∀ frames last frames' last', Framed s.unread frames last → Framed s'.unread frames' last' →
          contents frames' ≠ contents frames ∧
            ∀ signature ∈ found frames' last', signature ∈ found frames last) →
        (∃ pieces' e, Reading (ChunkSigner.hooks crypto)
          (signedBody crypto req info key prelude trailing) s' pieces' (.error e)) ∧
        ∀ pieces' result, Reading (ChunkSigner.hooks crypto)
          (signedBody crypto req info key prelude trailing) s' pieces' result →
          ∃ e, result = .error e)) := by
  have haccepted := h.accepted hcrypto hprelude
  refine ⟨haccepted, fun hover s' hover' => ?_⟩
  obtain ⟨frames, last, hframed, hdelivered, hfound⟩ := haccepted.mpr hover
  have hsame : ∀ pieces', Reading (ChunkSigner.hooks crypto)
      (signedBody crypto req info key prelude trailing) s' pieces' (.ok ()) →
      ∃ frames' last', Framed s'.unread frames' last' ∧ pieces'.flatten = (contents frames').flatten ∧
        (last'.signature ∈ found frames last → contents frames' = contents frames) := by
    intro pieces' h'
    obtain ⟨frames', last', hframed', hdelivered', hfound'⟩ :=
      (h'.accepted hcrypto hprelude).mpr hover'
    exact ⟨frames', last', hframed', hdelivered', fun hlast =>
      contents_eq hcrypto hprelude hframed.content_ne_nil hfound hfound' hlast⟩
  have hlast : ∀ (frames : List Frame) (last : ChunkHeader), last.signature ∈ found frames last := by
    intro frames last
    simp [found]
  constructor
  · intro pieces' h' frames₁ last₁ frames₂ last₂ hframed₁ hframed₂ hsignature
    obtain ⟨frames', last', hframed', hdelivered', hcontents⟩ := hsame pieces' h'
    obtain ⟨rfl, rfl⟩ := hframed.unique hframed₁
    obtain ⟨rfl, rfl⟩ := hframed'.unique hframed₂
    have heq := hcontents (hsignature ▸ hlast frames last)
    exact ⟨heq, by rw [hdelivered, hdelivered', heq]⟩
  · intro haltered
    have herror : ∀ pieces' result, Reading (ChunkSigner.hooks crypto)
        (signedBody crypto req info key prelude trailing) s' pieces' result →
        ∃ e, result = .error e := by
      intro pieces' result h'
      cases result with
      | error e => exact ⟨e, rfl⟩
      | ok u =>
        obtain ⟨frames', last', hframed', _, hcontents⟩ := hsame pieces' h'
        obtain ⟨hne, hmem⟩ := haltered frames last frames' last' hframed hframed'
        exact absurd (hcontents (hmem _ (hlast frames' last'))) hne
    obtain ⟨pieces', result, h'⟩ := exists_reading (ChunkSigner.hooks crypto) Nat.one_pos
      (signedBody crypto req info key prelude trailing) s'
    obtain ⟨e, rfl⟩ := herror pieces' result h'
    exact ⟨⟨pieces', e, h'⟩, herror⟩

end Accepted

section Honest

/-- The header of a chunk with a size of one digit. -/
def signedLine (size : Char) (signature : Text) : Text :=
  size :: ';' :: ("chunk-signature".toList ++ '=' :: signature)

def signedHeader (size : Nat) (signature : Text) : ChunkHeader :=
  ⟨size, [("chunk-signature".toList, signature)]⟩

/-- A body with one chunk of one byte and the signatures of a chain. -/
def signedStream (crypto : Crypto) (key prelude seed : Text) (c : Char) : Text :=
  let first := signChunk crypto key prelude seed (contentHash crypto [c])
  let last := signChunk crypto key prelude first sha256EmptyString
  signedLine '1' first ++ crlf ++ ([c] ++ (crlf ++ (signedLine '0' last ++ crlf ++ crlf)))

theorem pass_signedStream (crypto : Crypto) (key prelude seed : Text) (c : Char) :
    (ChunkSigner.hooks crypto).Pass (ChunkSigner.start prelude key seed)
      [⟨signedHeader 1 (signChunk crypto key prelude seed (contentHash crypto [c])), [c]⟩]
      (signedHeader 0 (signChunk crypto key prelude
        (signChunk crypto key prelude seed (contentHash crypto [c])) sha256EmptyString)) :=
  ⟨_, if_neg (not_not.mpr rfl), _, if_neg (not_not.mpr rfl)⟩

end Honest

section Sample

/-- The bytes of `sha256EmptyString`. -/
def emptyDigest : Text :=
  [227, 176, 196, 66, 152, 252, 28, 20, 154, 251, 244, 200, 153, 111, 185, 36, 39, 174, 65, 228,
    100, 155, 147, 76, 164, 149, 153, 27, 120, 82, 184, 85].map Char.ofNat

/-- The functions without collisions, with the digest of nothing that is
expected. -/
def sampleDigests : Crypto :=
  { sampleCrypto with sha256 := fun s => emptyDigest ++ sampleCrypto.sha256 s }

theorem sampleDigests_lawful : sampleDigests.LawfulDigests where
  sha256_bytes := by
    intro s c hc
    have hdigest : IsBytes emptyDigest := by
      unfold IsBytes emptyDigest
      simp
    rcases mem_append.mp hc with hc | hc
    · exact hdigest c hc
    · exact sampleCrypto_lawful.sha256_bytes s c hc
  sha256_injective := by
    intro s t h
    exact sampleCrypto_lawful.sha256_injective (append_cancel_left h)
  hmac_bytes := sampleCrypto_lawful.hmac_bytes
  hmac_injective := sampleCrypto_lawful.hmac_injective
  hmac_ne_nil := by
    intro key s h
    exact absurd (append_eq_nil_iff.mp h).2 (cons_ne_nil _ _)
  sha256_nil := by decide +kernel

def sampleSigned : RawRequest := ⟨"PUT".toList, "/b/k".toList, "/b/k".toList, [], [dateField], []⟩

def samplePrelude : Text := "AWS4-HMAC-SHA256-PAYLOAD\nd\n".toList ++ scope sampleInfo

theorem makePrelude_sample : ChunkSigner.makePrelude sampleSigned sampleInfo = .ok samplePrelude := by
  have hdate : sampleSigned.require "x-amz-date".toList = .ok ['d'] := by decide +kernel
  rw [ChunkSigner.makePrelude, hdate]
  rfl

def sampleSeed : Text := requestSignature sampleDigests sampleSigned sampleInfo ['k']

def sampleStream : Text := signedStream sampleDigests ['k'] samplePrelude sampleSeed 'x'

def sampleFirst : Text :=
  signChunk sampleDigests ['k'] samplePrelude sampleSeed (contentHash sampleDigests ['x'])

def sampleLast : Text := signChunk sampleDigests ['k'] samplePrelude sampleFirst sha256EmptyString

theorem sent_sampleStream :
    Sent false sampleStream [⟨signedHeader 1 sampleFirst, ['x']⟩] (signedHeader 0 sampleLast) [] := by
  have hsplit : '\r' ∉ signedLine '0' sampleLast ∧ '\r' ∉ signedLine '1' sampleFirst ∧
      ChunkHeader.parse (signedLine '1' sampleFirst ++ crlf) = .ok (signedHeader 1 sampleFirst) ∧
      ChunkHeader.parse (signedLine '0' sampleLast ++ crlf) = .ok (signedHeader 0 sampleLast) := by
    decide +kernel
  obtain ⟨hlast, hfirst, hhead, hhead'⟩ := hsplit
  apply Sent.chunk (upTo_of_notMem hfirst _) hhead rfl (cons_ne_nil _ _)
  exact .last (upTo_of_notMem hlast _) hhead' rfl
    (rfl : upTo (endOfBody false) crlf = some (crlf, []))

theorem signed_chunks_iff_sample : ∃ s : SocketStream, Reading (ChunkSigner.hooks sampleDigests)
        (signedBody sampleDigests sampleSigned sampleInfo ['k'] samplePrelude false) s [['x']] (.ok ()) ∧
      ¬ Overfull s.bufferSize s.getPtr s.unread ∧
      AcceptedAsSigned sampleDigests ['k'] samplePrelude
        (requestSignature sampleDigests sampleSigned sampleInfo ['k']) s.unread ['x'] := by
  have haccepted : AcceptedAsSigned sampleDigests ['k'] samplePrelude sampleSeed
      (SocketStream.buffered sampleStream).unread ['x'] := by
    rw [SocketStream.unread_buffered]
    exact ⟨_, _, sent_sampleStream.framed, rfl, by decide +kernel⟩
  have hsent := sent_sampleStream
  rw [← SocketStream.current_buffered sampleStream] at hsent
  obtain ⟨_, s₁, hfirst, hcont, hended, hleft, hsent, hpass, _⟩ := exists_read_chunk (le_refl _)
    (rfl : (signedBody sampleDigests sampleSigned sampleInfo ['k'] samplePrelude false).ended = false)
    rfl hsent (pass_signedStream sampleDigests ['k'] samplePrelude sampleSeed 'x')
  obtain ⟨s₂, hconsu, hmoves⟩ := SocketStream.exists_consume s₁
  rw [hmoves.current] at hsent
  obtain ⟨_, _, hlast, _⟩ := exists_read_last hended hleft hsent hpass
  have hsize : 0 < (SocketStream.buffered sampleStream).bufferSize := by decide +kernel
  have hreading := Reading.more hsize hfirst hcont hconsu (.ended Nat.one_pos hlast)
  exact ⟨_, hreading, (signed_chunks_iff sampleDigests_lawful sampleSigned sampleInfo ['k']
    samplePrelude makePrelude_sample false _ _ hreading).1.mp haccepted, haccepted⟩

/-- The header of a chunk of one byte, with spaces behind the size. -/
def spacedLine (n : Nat) : Text := '1' :: ' ' :: List.replicate n ' '

theorem parse_spacedLine (n : Nat) : ChunkHeader.parse (spacedLine n ++ crlf) = .ok ⟨1, []⟩ := by
  have hline : (spacedLine n ++ crlf).dropLast = spacedLine n ++ ['\r'] := by
    have hconcat : spacedLine n ++ crlf = spacedLine n ++ ['\r'] ++ ['\n'] := by simp [crlf]
    rw [hconcat, dropLast_concat]
  have hchars : fromChars (spacedLine n ++ ['\r']) = .ok (1, 1) := by
    have hone : hexDigit '1' = some 1 := by decide
    have hspace : hexDigit ' ' = none := by decide
    simp [fromChars, spacedLine, hone, hspace]
  have hne : spacedLine n ++ crlf ≠ [] := cons_ne_nil _ _
  have hnext : ((spacedLine n ++ crlf).drop 1).head? ≠ some ';' := by simp [spacedLine]
  simp only [ChunkHeader.parse, if_neg hne, hline, hchars, bind, Except.bind, pure, Except.pure]
  rw [if_neg hnext]

theorem length_spacedLine (n : Nat) : (spacedLine n ++ crlf).length = n + 4 := by
  simp [spacedLine, crlf]

theorem upTo_spacedLine (n : Nat) :
    upTo crlf (spacedLine n ++ crlf) = some (spacedLine n ++ crlf, []) := by
  have hcr : '\r' ∉ spacedLine n := by simp [spacedLine]
  have hfound : upTo crlf (spacedLine n ++ crlf ++ []) = some (spacedLine n ++ crlf, []) :=
    upTo_of_notMem hcr []
  rwa [append_nil] at hfound

/-- In place of a signed body, a header as long as the buffer is read to the end
without an exception. -/
theorem spacedLine_accepted (crypto : Crypto) (req : RawRequest) (info : SignatureInfo)
    (key prelude : Text) (trailing : Bool) (n : Nat) :
    ∃ s : SocketStream, s.bufferSize = n + 4 ∧ s.getPtr = 0 ∧
      Reading (ChunkSigner.hooks crypto) (signedBody crypto req info key prelude trailing) s []
        (.ok ()) ∧
      ¬ AcceptedAsSigned crypto key prelude (requestSignature crypto req info key) s.unread [] := by
  refine ⟨SocketStream.buffered (spacedLine n ++ crlf), length_spacedLine n, rfl, ?_, ?_⟩
  · have hline : upTo crlf (SocketStream.buffered (spacedLine n ++ crlf)).current =
        some (spacedLine n ++ crlf, []) := by
      rw [SocketStream.current_buffered]
      exact upTo_spacedLine n
    exact .of_full rfl rfl hline (parse_spacedLine n) Nat.one_ne_zero (zero_add _)
  · rw [SocketStream.unread_buffered]
    rintro ⟨frames, last, hframe, hnone, _⟩
    obtain ⟨content, _, _, hrest, hcont, _⟩ :=
      hframe.content_of_size (upTo_spacedLine n) (parse_spacedLine n) Nat.one_ne_zero
    rw [(append_eq_nil_iff.mp hrest.symm).1] at hcont
    exact absurd hcont (by decide)

/-- The buffer of a connection has four mebibytes. A header of that size is
accepted in place of a signed body, which ends without a byte and without a
signature. -/
theorem long_header_accepted : ∃ s : SocketStream, s.bufferSize = 4 * 1024 * 1024 ∧ s.getPtr = 0 ∧
      Reading (ChunkSigner.hooks sampleDigests)
        (signedBody sampleDigests sampleSigned sampleInfo ['k'] samplePrelude false) s [] (.ok ()) ∧
      ¬ AcceptedAsSigned sampleDigests ['k'] samplePrelude
        (requestSignature sampleDigests sampleSigned sampleInfo ['k']) s.unread [] :=
  spacedLine_accepted sampleDigests sampleSigned sampleInfo ['k'] samplePrelude false 4194300

end Sample

end UhCore.Entrypoint.Http
