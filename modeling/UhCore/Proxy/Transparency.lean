import UhCore.Proxy.Exchanges

/-!
The proxy is transparent where the key of an object says all of its response.
The responses in the cache are those of earlier requests; one that is relayed
is the one the server sent.
-/

namespace UhCore.Proxy

open Entrypoint (Text Failure)
open Entrypoint.Http List Function Round
open Effects Transition

namespace Round

variable {σ : Type} {setup : Setup σ} {w : Round σ}

variable {body : BodyState} {response : ServerResponse} {h : ResponseHeader} {raw : RawRequest}
  {r : DiskSource} {s : SocketStream} {e : Thrown}

/-- An object that is a response is served as this response, with another `Via`. -/
theorem returns_serve (hinv : Disk.Inv setup.dataView w.disk) (hr : r ∈ w.disk.sources)
    (hidle : r.reading = none) (hstart : r.requested = 0) (hsound : Sound w.faults)
    (hsendable : setup.library.Sendable response.header)
    (hcont : (w.disk.handles r.objh).content = setup.library.serialize response.header ++ response.body)
    (hsize : (w.disk.handles r.objh).headerSize = (setup.library.serialize response.header).length)
    (hbody : Returns (readBody setup.services.crypto body) w.connection.incoming () s) :
    ∃ (chunks : List Text) (disk' : Disk σ) (faults' : List (Option Failure)),
      Returns (serve setup r body) w ()
        { w with
          disk := disk'
          faults := faults'
          connection := { w.connection with forwarding := false, incoming := s }
          output := w.output ++
            ([.header (response.header.set viaName setup.via)] ++ chunks.map .data) } ∧
      chunks.flatten = response.body ∧ Kept setup.dataView w.disk disk' ∧ handed s = [] := by
  obtain ⟨forwarded, hdrain, hpass, hhanded⟩ := returns_drain
    (w := { w with connection := { w.connection with forwarding := false } }) hbody
  obtain rfl : forwarded = w.connection.forwarded := hpass.deleting rfl
  obtain ⟨r', disk₁, faults₁, hfetch, hread, hsound₁, hobjh, hrequested⟩ := returns_fetch
    (w := { w with connection := { w.connection with forwarding := false, incoming := s } })
    hinv hr hidle hsound (w.disk.handles r.objh).headerSize
  have hlen : (w.disk.handles r.objh).content.length =
      (w.disk.handles r.objh).address.dataSize := by
    have hstore := (hinv.content.stored_source hr).content
    rw [← hstore, DataView.readAddress, length_map, length_places]
  have hhandle : disk₁.handles r'.objh = w.disk.handles r.objh := by
    rw [hread.handles, hobjh]
  obtain ⟨chunks, disk₂, faults₂, hloop, hflat, hkept, _⟩ := returns_serveLoop
    (n := (w.disk.handles r.objh).address.dataSize + 1)
    (w := { w with
      disk := disk₁
      faults := faults₁
      connection := { w.connection with forwarding := false, incoming := s }
      output := w.output ++ [.header (response.header.set viaName setup.via)] })
    hread.inv hread.source hread.idle hsound₁ (by dsimp only; rw [hhandle]; omega)
  rw [hhandle, hrequested, hstart, zero_add, hsize, hcont, drop_left] at hflat
  refine ⟨chunks, disk₂, faults₂, ?_, hflat, hread.toKept.trans hkept, hhanded⟩
  have hparse : setup.library.parse
      (((w.disk.handles r.objh).content.drop r.requested).take
        (w.disk.handles r.objh).headerSize) = .header response.header [] := by
    have hserialized := setup.library.parse_serialize response.header [] hsendable
    rw [append_nil] at hserialized
    rw [hstart, drop_zero, hsize, hcont, take_left, hserialized]
  refine returns_bind.mpr ⟨(), _, returns_modify.mpr rfl, ?_⟩
  refine hdrain.bind (returns_get_bind.mpr ?_)
  apply hfetch.bind
  dsimp only
  rw [hparse]
  apply Returns.bind (returns_write _ _)
  rw [← append_assoc]
  exact hloop

/-- The bytes of the body are there, and the buffer has less than a chunk of it,
or all. -/
structure Arrived (c : Connection) (chunkSize : Nat) (body : Text) : Prop where
  bytes : c.buffer ++ c.outgoing = body
  buffer : c.buffer.length < chunkSize ∨ body.length ≤ c.buffer.length

theorem returns_readPayload {chunkSize : Nat} (hchunk : 0 < chunkSize) {body : Text}
    (h : Arrived w.connection chunkSize body) :
    ∃ chunks,
      Returns (readPayload chunkSize body.length) w (chunks, true)
        { w with connection := { w.connection with buffer := [], outgoing := [] } } ∧
      chunks.flatten = body := by
  have hwhole := asyncRead_whole hchunk (by rw [h.bytes]) h.buffer
  rw [h.bytes] at hwhole
  have hleft := hwhole.left
  rw [drop_length, append_eq_nil_iff] at hleft
  refine ⟨(asyncRead chunkSize body.length w.connection.buffer w.connection.outgoing).chunks, ?_,
    by rw [hwhole.chunks, take_length]⟩
  unfold Returns readPayload
  rw [run_act]
  dsimp only
  rw [hwhole.done, hleft.1, hleft.2]

theorem returns_contentLength {size : Nat} (hsize : setup.library.getContentLength h = some size)
    (w : Round σ) : Returns (contentLength setup h) w size w := by
  unfold contentLength
  rw [hsize]
  exact rfl

theorem returns_serializeHeader (hsendable : setup.library.Sendable h) (w : Round σ) :
    Returns (serializeHeader setup h) w (setup.library.serialize h) w := by
  unfold serializeHeader
  rw [if_neg (setup.library.serialize_ne_nil h hsendable)]
  exact rfl

theorem returns_relayChunks (chunks : List Text) (w : Round σ) :
    Returns (relayChunks chunks) w () { w with output := w.output ++ chunks.flatMap dataOutput } := by
  induction chunks generalizing w with
  | nil =>
    refine returns_pure.mpr ⟨rfl, ?_⟩
    simp
  | cons data chunks ih =>
    apply Returns.bind (returns_write _ w)
    have hrest := ih { w with output := w.output ++ dataOutput data }
    rwa [append_assoc] at hrest

theorem returns_relayBody
    (hsize : setup.library.getContentLength response.header = some response.body.length)
    (harrived : Arrived w.connection relaySize response.body) : ∃ chunks : List Text,
      Returns (relayBody setup response.header) w ()
        { w with
          connection := { w.connection with buffer := [], outgoing := [] }
          output := w.output ++ ([.header response.header] ++ chunks.flatMap dataOutput) } ∧
      chunks.flatten = response.body := by
  obtain ⟨chunks, hpay, hflat⟩ := returns_readPayload (by decide)
    (w := { w with output := w.output ++ [.header response.header] }) harrived
  refine ⟨chunks, ?_, hflat⟩
  apply Returns.bind (returns_contentLength hsize w)
  apply Returns.bind (returns_write _ w)
  apply hpay.bind
  apply Returns.bind (returns_relayChunks chunks _)
  refine returns_pure.mpr ⟨rfl, ?_⟩
  rw [append_assoc]

theorem inv_newSink {dv : DataView σ} {disk : Disk σ} (h : Disk.Inv dv disk) :
    Disk.Inv dv disk.newSink :=
  ⟨h.ledger.newSink, h.content.newSink⟩

/-- From `disk` to `disk'` a response was stored, and cached under this key. -/
structure Filled (setup : Setup σ) (disk disk' : Disk σ) (key : ObjectMetadata)
    (response : ServerResponse) : Prop where
  inv : Disk.Inv setup.dataView disk'
  puts : disk'.puts = []
  content : (disk'.handles disk.created).content =
    setup.library.serialize response.header ++ response.body
  headerSize : (disk'.handles disk.created).headerSize =
    (setup.library.serialize response.header).length
  others : ∀ id ≠ disk.created, disk'.handles id = disk.handles id
  items : ∀ k e, (k, some e) ∈ disk'.cache.items →
    (k = key ∧ e = disk.created) ∨ (k, some e) ∈ disk.cache.items

/-- The response goes to the client and into the cache, under the key of the
request. -/
theorem returns_relayAndStore (raw : RawRequest) (hinv : Disk.Inv setup.dataView w.disk)
    (hputs : w.disk.puts = []) (hsound : Sound w.faults)
    (hsendable : setup.library.Sendable response.header)
    (hsize : setup.library.getContentLength response.header = some response.body.length)
    (harrived : Arrived w.connection storeSize response.body) :
    ∃ (chunks : List Text) (disk' : Disk σ) (faults' : List (Option Failure)),
      Returns (relayAndStore setup raw response.header) w ()
        { w with
          disk := disk'
          faults := faults'
          connection := { w.connection with buffer := [], outgoing := [] }
          output := w.output ++ ([.header response.header] ++ chunks.flatMap dataOutput) } ∧
      chunks.flatten = response.body ∧ Filled setup w.disk disk' (cacheKey raw) response := by
  have hsink : w.disk.created ∈ w.disk.newSink.sinks := mem_cons_self
  have hnew : w.disk.newSink.handles w.disk.created = ⟨[], 0, []⟩ := update_self ..
  obtain ⟨disk₂, faults₂, hhead, hwrite₂, hsound₂⟩ := returns_sinkPut
    (w := { w with disk := w.disk.newSink, output := w.output ++ [.header response.header] })
    (inv_newSink hinv) hsink hsound (setup.library.serialize response.header)
  have hnext : disk₂.next setup.dataView
      (.setHeaderSize w.disk.created (setup.library.serialize response.header).length) =
      some (disk₂.setHeaderSize w.disk.created
        (setup.library.serialize response.header).length) := if_pos hwrite₂.sink
  have hok : disk₂.Undisturbed
      (.setHeaderSize w.disk.created (setup.library.serialize response.header).length) := trivial
  have hinv₃ := hwrite₂.inv.step hok hnext
  obtain ⟨chunks, hpay, hflat⟩ := returns_readPayload (by decide)
    (w := { w with
      disk := disk₂.setHeaderSize w.disk.created (setup.library.serialize response.header).length
      faults := faults₂
      output := w.output ++ [.header response.header] }) harrived
  obtain ⟨disk₄, faults₄, hstore, hwrite₄, hsound₄⟩ := returns_storeChunks
    (w := { w with
      disk := disk₂.setHeaderSize w.disk.created (setup.library.serialize response.header).length
      faults := faults₂
      connection := { w.connection with buffer := [], outgoing := [] }
      output := w.output ++ [.header response.header] })
    chunks hinv₃ hwrite₂.sink hsound₂
  have hputs₄ : disk₄.puts = [] := hwrite₄.puts.trans (hwrite₂.puts.trans hputs)
  obtain ⟨disk₅, faults₅, hput, hins, _⟩ := returns_put
    (w := { w with
      disk := disk₄
      faults := faults₄
      connection := { w.connection with buffer := [], outgoing := [] }
      output := w.output ++ [.header response.header] ++ chunks.flatMap dataOutput })
    hwrite₄.inv hwrite₄.sink hputs₄ hsound₄ (cacheKey raw)
  refine ⟨chunks, disk₅, faults₅, ?_, hflat, ⟨hins.inv, hins.puts, ?_, ?_, ?_, ?_⟩⟩
  · rw [← append_assoc]
    refine Returns.bind (returns_contentLength hsize w) (returns_get_bind.mpr ?_)
    apply Returns.bind (returns_onDisk _ w)
    apply Returns.bind (returns_serializeHeader hsendable _)
    apply Returns.bind (returns_write _ _)
    apply hhead.bind
    apply Returns.bind (returns_onDisk _ _)
    apply hpay.bind
    apply hstore.bind
    exact Returns.bind rfl hput
  · have hheaderContent : ((disk₂.setHeaderSize w.disk.created
        (setup.library.serialize response.header).length).handles w.disk.created).content =
        (disk₂.handles w.disk.created).content := by
      simp [Disk.setHeaderSize]
    have hcont₄ := hwrite₄.content
    have hcont₂ := hwrite₂.content
    rw [hins.handles]
    rw [hcont₄, hheaderContent, hcont₂, hnew, hflat]
    rfl
  · have hsize₄ := hwrite₄.headerSize
    rw [hins.handles]
    rw [hsize₄]
    simp [Disk.setHeaderSize]
  · intro id hne
    rw [hins.handles]
    have hothers₄ := hwrite₄.others id hne
    have hothers₂ := hwrite₂.others id hne
    rw [hothers₄]
    simp only [Disk.setHeaderSize, update_of_ne hne]
    rw [hothers₂]
    exact update_of_ne hne ..
  · intro k e hmem
    have hcache := hwrite₄.cache.trans hwrite₂.cache
    have hitems := hins.items k e hmem
    rwa [hcache] at hitems

theorem returns_readHeader {rest : Text} (hbuf : w.connection.buffer = [])
    (hout : w.connection.outgoing = setup.library.serialize h ++ rest)
    (hsendable : setup.library.Sendable h) : Returns (readHeader setup) w h
      { w with
        connection := { w.connection with
          buffer := rest.take (w.connection.ahead.headD 0)
          outgoing := rest.drop (w.connection.ahead.headD 0)
          ahead := w.connection.ahead.tail } } := by
  unfold Returns readHeader
  rw [run_act]
  dsimp only
  rw [hbuf, hout, nil_append, setup.library.parse_serialize h rest hsendable]
  simp

/-- The interim response is passed on if the client asked for it. -/
theorem returns_forwardContinue (hbuf : w.connection.buffer = [])
    (hout : w.connection.outgoing = [])
    (hinterim : expects raw = true → (setup.server.interim w.connection.forwarded).isSome = true) :
    ∃ interims : List Output,
      Returns (forwardContinue setup raw) w ()
        { w with
          connection := { w.connection with
            ahead := if expects raw then w.connection.ahead.tail else w.connection.ahead }
          output := w.output ++ interims } ∧
      ∀ rest, received (interims ++ rest) = received rest := by
  obtain ⟨disk, ⟨incoming, forwarding, forwarded, buffer, outgoing, ahead⟩, faults, output⟩ := w
  subst hbuf hout
  unfold forwardContinue
  by_cases hexpects : expects raw = true
  · obtain ⟨h, hsome⟩ := Option.isSome_iff_exists.mp (hinterim hexpects)
    have hread : Returns (readHeader setup)
        ⟨disk, ⟨incoming, forwarding, forwarded, [], setup.library.serialize h, ahead⟩, faults,
          output⟩ h
        ⟨disk, ⟨incoming, forwarding, forwarded, [], [], ahead.tail⟩, faults, output⟩ := by
      have hhead := returns_readHeader (w := ⟨disk, ⟨incoming, forwarding, forwarded, [],
        setup.library.serialize h, ahead⟩, faults, output⟩) rfl (append_nil _).symm
        (setup.interim_sendable _ h hsome)
      rwa [take_nil, drop_nil] at hhead
    refine ⟨[.interim h], ?_, fun rest => rfl⟩
    rw [if_pos hexpects, if_pos hexpects]
    refine returns_bind.mpr ⟨(), _, returns_modify.mpr ?_, hread.bind (returns_write _ _)⟩
    rw [hsome]
    rfl
  · refine ⟨[], ?_, fun rest => rfl⟩
    rw [if_neg hexpects, if_neg hexpects, append_nil]
    exact rfl

theorem bodyOf_dataOutput (chunks : List Text) :
    bodyOf (chunks.flatMap dataOutput) = some chunks.flatten := by
  induction chunks with
  | nil => rfl
  | cons data chunks ih =>
    by_cases hdata : data = []
    · simpa [dataOutput, hdata] using ih
    · simp [dataOutput, hdata, bodyOf, ih]

theorem received_dataOutput (h : ResponseHeader) (chunks : List Text) :
    received ([.header h] ++ chunks.flatMap dataOutput) = some ⟨h, chunks.flatten⟩ := by
  change (bodyOf (chunks.flatMap dataOutput)).map _ = _
  rw [bodyOf_dataOutput]
  rfl

theorem cleared {c : Connection} (hbuf : c.buffer = []) (hout : c.outgoing = []) :
    { c with buffer := [], outgoing := [] } = c := by
  obtain ⟨incoming, forwarding, forwarded, buffer, outgoing, ahead⟩ := c
  dsimp only at hbuf hout
  rw [hbuf, hout]

def Relayed (setup : Setup σ) (raw : RawRequest) (response : ServerResponse)
    (disk disk' : Disk σ) : Prop :=
  disk' = disk ∨ isGetObject raw = true ∧ Filled setup disk disk' (cacheKey raw) response

theorem returns_relay {ahead : Nat} (hinv : Disk.Inv setup.dataView w.disk)
    (hputs : w.disk.puts = []) (hsound : Sound w.faults)
    (hsendable : setup.library.Sendable response.header)
    (hbuf : w.connection.buffer = response.body.take ahead)
    (hout : w.connection.outgoing = response.body.drop ahead)
    (hframe : Framed setup raw response ahead) :
    ∃ (out : List Output) (disk' : Disk σ) (faults' : List (Option Failure)),
      Returns (relay setup raw response.header) w ()
        { w with
          disk := disk'
          faults := faults'
          connection := { w.connection with buffer := [], outgoing := [] }
          output := w.output ++ out } ∧
      received out = some response ∧ Relayed setup raw response w.disk disk' := by
  have harrived : ∀ {chunkSize}, ahead < chunkSize ∨ response.body.length ≤ ahead →
      Arrived w.connection chunkSize response.body := by
    intro chunkSize hahead
    refine ⟨by rw [hbuf, hout, take_append_drop], ?_⟩
    rw [hbuf, length_take]
    omega
  unfold relay
  unfold Framed at hframe
  split
  case isTrue hhead =>
    rw [if_pos hhead] at hframe
    rw [hframe, take_nil] at hbuf
    rw [hframe, drop_nil] at hout
    refine ⟨[.header response.header], w.disk, w.faults, ?_, ?_, .inl rfl⟩
    · rw [cleared hbuf hout]
      exact returns_write _ w
    · change some (ServerResponse.mk response.header []) = some response
      rw [← hframe]
  case isFalse hhead =>
    rw [if_neg hhead] at hframe
    obtain ⟨hsize, hahead⟩ := hframe
    split
    case isTrue hget =>
      rw [if_pos hget] at hahead
      obtain ⟨chunks, disk', faults', hret, hflat, hfilled⟩ :=
        returns_relayAndStore raw hinv hputs hsound hsendable hsize (harrived hahead)
      refine ⟨_, disk', faults', hret, ?_, .inr ⟨hget, hfilled⟩⟩
      rw [received_dataOutput, hflat]
    case isFalse hget =>
      rw [if_neg hget] at hahead
      obtain ⟨chunks, hret, hflat⟩ := returns_relayBody hsize (harrived hahead)
      refine ⟨_, w.disk, w.faults, hret, ?_, .inl rfl⟩
      rw [received_dataOutput, hflat]

theorem returns_forward {request : Text} (hinv : Disk.Inv setup.dataView w.disk)
    (hputs : w.disk.puts = []) (hsound : Sound w.faults)
    (hforwarding : w.connection.forwarding = true) (hforwarded : w.connection.forwarded = [])
    (hbuf : w.connection.buffer = []) (hout : w.connection.outgoing = [])
    (hinterim : expects raw = true → (setup.server.interim (handed w.connection.incoming)).isSome = true)
    (hbody : Returns (readBody setup.services.crypto body) (consumed w.connection.incoming) () s)
    (hreq : contents w.connection.incoming = request ++ contents s)
    (hframe : Framed setup raw (setup.server.response request) (aheadOf w.connection raw)) :
    ∃ (out : List Output) (disk' : Disk σ) (faults' : List (Option Failure)) (ahead : List Nat),
      Returns (forward setup raw body) w ()
        { w with
          disk := disk'
          faults := faults'
          connection :=
            { incoming := s, forwarding := true, forwarded := [], buffer := [], outgoing := []
              ahead := ahead }
          output := w.output ++ out } ∧
      received out = some (setup.server.response request) ∧
      Relayed setup raw (setup.server.response request) w.disk disk' ∧ handed s = [] := by
  obtain ⟨disk, ⟨incoming, forwarding, forwarded, buffer, outgoing, ahead⟩, faults, output⟩ := w
  subst hforwarding hforwarded hbuf hout
  obtain ⟨interims, hcontinue, hskip⟩ := returns_forwardContinue
    (w := ⟨disk, ⟨consumed incoming, true, handed incoming, [], [], ahead⟩, faults, output⟩)
    rfl rfl hinterim
  obtain ⟨forwarded, hdrain, hpass, hhanded⟩ := returns_drain
    (w := ⟨disk, ⟨consumed incoming, true, handed incoming, [], [],
      if expects raw then ahead.tail else ahead⟩, faults, output ++ interims⟩) hbody
  obtain rfl : forwarded = request := by
    have hall := hpass.forwarding rfl
    rw [contents_consumed, handed_append_unread, hreq] at hall
    exact append_cancel_right hall
  have hhead := returns_readHeader
    (w := ⟨disk, ⟨s, true, [], [], setup.library.serialize (setup.server.response forwarded).header ++
      (setup.server.response forwarded).body, if expects raw then ahead.tail else ahead⟩, faults,
      output ++ interims⟩) rfl rfl (setup.response_sendable forwarded)
  obtain ⟨out, disk', faults', hrelay, hrecv, hrelayed⟩ := returns_relay
    (w := ⟨disk, ⟨s, true, [], _, _, (if expects raw then ahead.tail else ahead).tail⟩, faults,
      output ++ interims⟩)
    hinv hputs hsound (setup.response_sendable forwarded) rfl rfl hframe
  refine ⟨interims ++ out, disk', faults', (if expects raw then ahead.tail else ahead).tail, ?_, ?_,
    hrelayed, hhanded⟩
  · refine returns_bind.mpr ⟨(), _, returns_modify.mpr rfl, ?_⟩
    apply hcontinue.bind
    apply hdrain.bind
    refine returns_bind.mpr ⟨(), _, returns_modify.mpr rfl, ?_⟩
    apply hhead.bind
    rw [← append_assoc]
    exact hrelay
  · rw [hskip, hrecv]

theorem throws_serve
    (hbody : Throws (readBody setup.services.crypto body) w.connection.incoming e s) :
    ∃ c, Throws (serve setup r body) w (.thrown e) { w with connection := c } := by
  obtain ⟨c, hdrain⟩ := throws_drain
    (w := { w with connection := { w.connection with forwarding := false } }) hbody
  exact ⟨c, throws_bind.mpr (.inr ⟨(), _, returns_modify.mpr rfl, throws_bind.mpr (.inl hdrain)⟩)⟩

theorem throws_forward (hforwarding : w.connection.forwarding = true)
    (hforwarded : w.connection.forwarded = []) (hbuf : w.connection.buffer = [])
    (hout : w.connection.outgoing = [])
    (hinterim : expects raw = true → (setup.server.interim (handed w.connection.incoming)).isSome = true)
    (hbody : Throws (readBody setup.services.crypto body) (consumed w.connection.incoming) e s) :
    ∃ c output, Throws (forward setup raw body) w (.thrown e)
      { w with connection := c, output := output } := by
  obtain ⟨disk, ⟨incoming, forwarding, forwarded, buffer, outgoing, ahead⟩, faults, output⟩ := w
  subst hforwarding hforwarded hbuf hout
  obtain ⟨interims, hcontinue, _⟩ := returns_forwardContinue
    (w := ⟨disk, ⟨consumed incoming, true, handed incoming, [], [], ahead⟩, faults, output⟩)
    rfl rfl hinterim
  obtain ⟨c, hdrain⟩ := throws_drain
    (w := ⟨disk, ⟨consumed incoming, true, handed incoming, [], [],
      if expects raw then ahead.tail else ahead⟩, faults, output ++ interims⟩) hbody
  refine ⟨c, output ++ interims, ?_⟩
  refine throws_bind.mpr (.inr ⟨(), _, returns_modify.mpr rfl, ?_⟩)
  exact throws_bind.mpr (.inr ⟨(), _, hcontinue, throws_bind.mpr (.inl hdrain)⟩)

theorem returns_cached_of_lookup {id : Nat} (hget : isGetObject raw = true)
    (hlook : w.disk.cache.lookup (cacheKey raw) = some id) :
    Returns (cached raw) w (some ⟨id, 0, 0, 0, [], none⟩)
      { w with disk := w.disk.get (cacheKey raw) } := by
  unfold cached
  rw [if_pos hget]
  unfold Returns lookup
  rw [run_act, LruCache.get_fst, hlook]
  rfl

theorem returns_cached_of_miss (raw : RawRequest)
    (h : isGetObject raw = true → w.disk.cache.lookup (cacheKey raw) = none) :
    Returns (cached raw) w none w := by
  unfold cached
  split
  case isTrue hget =>
    have hlook := h hget
    have hdisk : w.disk.get (cacheKey raw) = w.disk := by
      unfold Disk.get LruCache.get
      rw [hlook]
    unfold Returns lookup
    rw [run_act, LruCache.get_fst, hlook, hdisk]
    rfl
  case isFalse => exact rfl

theorem run_handleRequest (hraw : Returns setup.services.readRawRequest w.connection.incoming raw s)
    (hbody : makeBody setup.services raw = .ok body) :
    run (handleRequest setup) w = run (answer setup raw body)
      { w with connection := { w.connection with incoming := s, forwarding := true } } := by
  have hstream := returns_onStream hraw
  unfold handleRequest
  rw [run_bind, hstream]
  dsimp only
  rw [run_bind]
  have hmode : run (setMode true) { w with
      connection := w.connection.at s w.connection.forwarded } = (.ok (), { w with
      connection := { w.connection with incoming := s, forwarding := true } }) := rfl
  rw [hmode]
  dsimp only
  rw [run_bind, hbody]
  rfl

end Round

namespace System

variable {σ : Type} {setup : Setup σ}

/-- Nothing is on the way between the client and the server. -/
structure Ready (c : Connection) : Prop where
  handed : handed c.incoming = []
  forwarded : c.forwarded = []
  buffer : c.buffer = []
  outgoing : c.outgoing = []

def Caches (setup : Setup σ) (log : List Exchange) (key : ObjectMetadata) (h : ObjectHandle) :
    Prop :=
  ∃ e ∈ log, ∃ raw, e.raw = some raw ∧ isGetObject raw = true ∧ cacheKey raw = key ∧
    h.content = setup.library.serialize (setup.server.response e.request).header ++
      (setup.server.response e.request).body ∧
    h.headerSize = (setup.library.serialize (setup.server.response e.request).header).length

/-- What holds of the disk cache between rounds. -/
structure DiskInv (setup : Setup σ) (log : List Exchange) (disk : Disk σ) : Prop where
  inv : Disk.Inv setup.dataView disk
  puts : disk.puts = []
  caches : ∀ key id, (key, some id) ∈ disk.cache.items → Caches setup log key (disk.handles id)

structure Inv (setup : Setup σ) (s : System σ) : Prop where
  disk : DiskInv setup s.log s.disk
  sources : s.disk.sources = []
  ready : ∀ id, ∀ c ∈ s.connections id, Ready c
  log : ∀ e ∈ s.log, Transparent setup e

theorem Caches.of_log {log log' : List Exchange} {key : ObjectMetadata} {h : ObjectHandle}
    (hcaches : Caches setup log key h) (hlog : log ⊆ log') : Caches setup log' key h := by
  obtain ⟨e, he, hrest⟩ := hcaches
  exact ⟨e, hlog he, hrest⟩

variable {log : List Exchange} {disk : Disk σ} {raw : RawRequest} {e : Exchange}

theorem DiskInv.close (h : DiskInv setup log disk) :
    DiskInv setup log { disk with sources := [] } where
  inv := ⟨h.inv.ledger.of_owned_eq rfl rfl,
    h.inv.content.frame rfl rfl rfl rfl (List.Subset.refl _) (nil_subset _)⟩
  puts := h.puts
  caches := h.caches

theorem DiskInv.of_log {log log' : List Exchange} (h : DiskInv setup log disk) (hlog : log ⊆ log') :
    DiskInv setup log' disk :=
  ⟨h.inv, h.puts, fun key id hmem => (h.caches key id hmem).of_log hlog⟩

theorem DiskInv.of_kept {disk disk' : Disk σ} (h : DiskInv setup log disk)
    (hkept : Round.Kept setup.dataView disk disk') : DiskInv setup log disk' where
  inv := hkept.inv
  puts := hkept.puts.trans h.puts
  caches key id hmem := by
    rw [hkept.cache] at hmem
    rw [hkept.handles]
    exact h.caches key id hmem

theorem handles_get (disk : Disk σ) (key : ObjectMetadata) :
    (disk.get key).handles = disk.handles ∧ (disk.get key).puts = disk.puts ∧
      (disk.get key).cache = (disk.cache.get key).2 := by
  unfold Disk.get
  cases disk.cache.get key with
  | mk found cache => cases found <;> exact ⟨rfl, rfl, rfl⟩

theorem DiskInv.get (h : DiskInv setup log disk) (key : ObjectMetadata) :
    DiskInv setup log (disk.get key) := by
  obtain ⟨hhandles, hputs, hcache⟩ := handles_get disk key
  refine ⟨h.inv.get key, hputs.trans h.puts, ?_⟩
  intro k id hmem
  rw [hcache] at hmem
  rw [hhandles]
  exact h.caches k id (LruCache.mem_items_get hmem)

theorem inv_after {s : System σ} (h : Inv setup s) {id : Nat} {w : Round σ}
    {connection : Option Connection} (hdisk : DiskInv setup (log ++ s.log) w.disk)
    (hready : ∀ c ∈ connection, Ready c) (hlog : ∀ e ∈ log, Transparent setup e) :
    Inv setup (s.after id w connection log) where
  disk := hdisk.close
  sources := rfl
  ready id' c hc := by
    by_cases hid : id' = id
    · subst hid
      have hself : (s.after id' w connection log).connections id' = connection :=
        update_self ..
      exact hready c (hself ▸ hc)
    · have hother : (s.after id w connection log).connections id' = s.connections id' :=
        update_of_ne hid ..
      exact h.ready id' c (hother ▸ hc)
  log e he := (mem_append.mp he).elim (hlog e) (h.log e)

/-- The bytes between two points of the stream at which nothing is handed out. -/
theorem requestTo_eq {c : Connection} {s : SocketStream} {request : Text}
    (hstart : handed c.incoming = []) (hend : handed s = [])
    (hconts : contents c.incoming = request ++ contents s) : c.requestTo s = request := by
  rw [← handed_append_unread, ← handed_append_unread, hstart, hend, nil_append,
    nil_append] at hconts
  unfold Connection.requestTo
  rw [hconts, length_append, Nat.add_sub_cancel, take_left]

theorem exists_request (setup : Setup σ) (w : Round σ) {body : BodyState} {s₁ s₂ : SocketStream}
    (h : Returns (readBody setup.services.crypto body) (consumed s₁) () s₂) :
    ∃ request, contents s₁ = request ++ contents s₂ ∧ handed s₂ = [] := by
  obtain ⟨forwarded, _, hpass, hhanded⟩ := returns_drain
    (w := { w with connection := { w.connection with
      incoming := consumed s₁, forwarding := true, forwarded := [] } }) h
  have htaken := hpass.forwarding rfl
  refine ⟨handed s₁ ++ forwarded, ?_, hhanded⟩
  rw [append_assoc, htaken, nil_append, contents_consumed, handed_append_unread]

theorem contents_readRawRequest {s s₁ : SocketStream}
    (h : Returns setup.services.readRawRequest s raw s₁) : contents s₁ = contents s := by
  have hkeeps := keeps_readRawRequest setup.services s
  rwa [h] at hkeeps

theorem transparent_of_cached {s : System σ} (hans : s.SameAnswer setup raw e.request)
    {e₀ : Exchange} (he₀ : e₀ ∈ s.log) (hkey : sameKey raw e₀ = true) {chunks : List Text}
    (hflat : chunks.flatten = (setup.server.response e₀.request).body)
    (houtput : e.output = [.header ((setup.server.response e₀.request).header.set viaName setup.via)] ++ chunks.map .data)
    : Transparent setup e := by
  have hrecv : received e.output =
      some ⟨(setup.server.response e₀.request).header.set viaName setup.via,
        (setup.server.response e₀.request).body⟩ := by
    rw [houtput]
    change (bodyOf (chunks.map .data)).map _ = _
    rw [bodyOf_data, hflat]
    rfl
  unfold Transparent
  rw [hrecv, ← hans e₀ he₀ hkey]
  unfold ServerResponse.apartFromVia
  rw [Option.map_some, ResponseHeader.without_set]

theorem DiskInv.of_relayed {disk disk' : Disk σ} (h : DiskInv setup log disk)
    (hraw : e.raw = some raw)
    (hrelayed : Round.Relayed setup raw (setup.server.response e.request) disk disk') :
    DiskInv setup (e :: log) disk' := by
  rcases hrelayed with rfl | ⟨hget, hfilled⟩
  · exact h.of_log (subset_cons_self e log)
  · refine ⟨hfilled.inv, hfilled.puts, ?_⟩
    intro key id hmem
    rcases hfilled.items key id hmem with ⟨rfl, rfl⟩ | hold
    · exact ⟨e, mem_cons_self, raw, hraw, hget, rfl, hfilled.content, hfilled.headerSize⟩
    · have hentry : id ∈ disk.cache.entries := mem_filterMap.mpr ⟨_, hold, rfl⟩
      have hne : id ≠ disk.created := (h.inv.ledger.entry_kept hentry).created.ne
      rw [hfilled.others id hne]
      exact (h.caches key id hold).of_log (subset_cons_self e log)

theorem transparent_of_received (h : received e.output = some (setup.server.response e.request)) :
    Transparent setup e := by
  unfold Transparent
  rw [h]
  rfl

section Rounds

variable {s : System σ} {id : Nat} {c : Connection} {faults : List (Option Failure)} {w : Round σ}
  {s₁ : SocketStream} {body : BodyState}

theorem round_of_returns {u : Unit}
    (h : run (handleRequest setup) ⟨s.disk, c, faults, []⟩ = (.ok u, w)) :
    s.round setup id c faults = s.after id w (some w.connection)
      [⟨rawOf setup c, c.requestTo w.connection.incoming, w.output⟩] := by
  unfold round
  rw [h]

theorem round_of_endOfFile (h : run (handleRequest setup) ⟨s.disk, c, faults, []⟩ =
      (.error (.thrown .endOfFile), w)) : s.round setup id c faults = s.after id w none [] := by
  unfold round
  rw [h]

theorem Inv.round_of_endOfFile (h : Inv setup s)
    (hrun : run (handleRequest setup) ⟨s.disk, c, faults, []⟩ =
      (.error (.thrown .endOfFile), w)) (hdisk : DiskInv setup s.log w.disk) :
    Inv setup (s.round setup id c faults) := by
  rw [System.round_of_endOfFile hrun]
  exact inv_after h hdisk nofun nofun

section

variable (h : Inv setup s) (hready : Ready c) (hsound : Sound faults)
  (hraw : Returns setup.services.readRawRequest c.incoming raw s₁)
  (hmake : makeBody setup.services raw = .ok body)

include h hready hsound hraw hmake

theorem Inv.round_hit (hhit : hit s.disk raw = true)
    (hbody : Reads (run (readBody setup.services.crypto body) s₁) fun _ s₂ =>
      s.SameAnswer setup raw (c.requestTo s₂)) : Inv setup (s.round setup id c faults) := by
  obtain ⟨hget, hsome⟩ := Bool.and_eq_true_iff.mp hhit
  obtain ⟨objh, hlook⟩ := Option.isSome_iff_exists.mp hsome
  have hdisk := h.disk.get (cacheKey raw)
  have hcached := returns_cached_of_lookup
    (w := ⟨s.disk, { c with incoming := s₁, forwarding := true }, faults, []⟩) hget hlook
  have hsrcs : (s.disk.get (cacheKey raw)).sources =
      ⟨objh, 0, 0, 0, [], none⟩ :: s.disk.sources := by
    unfold Disk.get LruCache.get
    rw [hlook]
  have hrun := run_handleRequest (w := ⟨s.disk, c, faults, []⟩) hraw hmake
  rcases returns_or_throws (readBody setup.services.crypto body) s₁ with
    ⟨_, s₂, hret⟩ | ⟨e, s₂, hthrows⟩
  · rw [hret] at hbody
    obtain ⟨e₀, he₀, raw₀, hraw₀, hget₀, hkey₀, hcont, hsize⟩ :=
      h.disk.caches _ objh (LruCache.mem_items_of_lookup hlook)
    have hhandles := (handles_get s.disk (cacheKey raw)).1
    obtain ⟨chunks, disk', faults', hserve, hflat, hkept, hhanded⟩ := returns_serve
      (w := ⟨s.disk.get (cacheKey raw), { c with incoming := s₁, forwarding := true }, faults, []⟩)
      (r := ⟨objh, 0, 0, 0, [], none⟩) hdisk.inv (by rw [hsrcs]; exact mem_cons_self) rfl
      rfl hsound (setup.response_sendable e₀.request) (by dsimp only; rw [hhandles]; exact hcont)
      (by dsimp only; rw [hhandles]; exact hsize) hret
    have hans : Returns (answer setup raw body) _ () _ := hcached.bind hserve
    rw [round_of_returns (hrun.trans hans)]
    refine inv_after h ?_ ?_ ?_
    · exact (hdisk.of_kept hkept).of_log (subset_cons_self _ _)
    · rintro c' ⟨⟩
      exact ⟨hhanded, hready.forwarded, hready.buffer, hready.outgoing⟩
    · intro e he
      obtain rfl := mem_singleton.mp he
      refine transparent_of_cached hbody he₀ ?_ hflat rfl
      unfold sameKey
      rw [hraw₀]
      simp [hget₀, hkey₀]
  · rw [hthrows] at hbody
    cases e with
    | failure failure => exact False.elim hbody
    | endOfFile =>
      obtain ⟨c', hserve⟩ := throws_serve
        (w := ⟨s.disk.get (cacheKey raw), { c with incoming := s₁, forwarding := true }, faults,
          []⟩) (r := ⟨objh, 0, 0, 0, [], none⟩) hthrows
      have hans : Throws (answer setup raw body) _ _ _ :=
        throws_bind.mpr (.inr ⟨_, _, hcached, hserve⟩)
      exact h.round_of_endOfFile (hrun.trans hans) hdisk

theorem Inv.round_miss (hmiss : hit s.disk raw = false)
    (hinterim : expects raw = true → (setup.server.interim (handed s₁)).isSome = true)
    (hbody : Reads (run (readBody setup.services.crypto body) (consumed s₁)) fun _ s₂ =>
      Framed setup raw (setup.server.response (c.requestTo s₂)) (aheadOf c raw)) :
    Inv setup (s.round setup id c faults) := by
  have hcached := returns_cached_of_miss
    (w := ⟨s.disk, { c with incoming := s₁, forwarding := true }, faults, []⟩) raw
    (fun hget => by simpa [hit, hget] using hmiss)
  have hrun := run_handleRequest (w := ⟨s.disk, c, faults, []⟩) hraw hmake
  rcases returns_or_throws (readBody setup.services.crypto body) (consumed s₁) with
    ⟨_, s₂, hret⟩ | ⟨e, s₂, hthrows⟩
  · rw [hret] at hbody
    obtain ⟨request, hconts, hhanded⟩ := exists_request setup ⟨s.disk, c, faults, []⟩ hret
    have hreq : c.requestTo s₂ = request := by
      apply requestTo_eq hready.handed hhanded
      rw [← contents_readRawRequest hraw, hconts]
    have hframe : Framed setup raw (setup.server.response (c.requestTo s₂)) (aheadOf c raw) := hbody
    rw [hreq] at hframe
    obtain ⟨out, disk', faults', ahead, hforward, hrecv, hrelayed, _⟩ := returns_forward
      (w := ⟨s.disk, { c with incoming := s₁, forwarding := true }, faults, []⟩)
      h.disk.inv h.disk.puts hsound rfl hready.forwarded hready.buffer hready.outgoing hinterim
      hret hconts hframe
    have hans : Returns (answer setup raw body) _ () _ := hcached.bind hforward
    have hrawOf : rawOf setup c = some raw := by
      unfold rawOf
      rw [hraw]
    rw [round_of_returns (hrun.trans hans), hrawOf]
    rw [hreq]
    refine inv_after h ?_ ?_ ?_
    · exact h.disk.of_relayed rfl hrelayed
    · rintro c' ⟨⟩
      exact ⟨hhanded, rfl, rfl, rfl⟩
    · intro e he
      obtain rfl := mem_singleton.mp he
      exact transparent_of_received hrecv
  · rw [hthrows] at hbody
    cases e with
    | failure failure => exact False.elim hbody
    | endOfFile =>
      obtain ⟨c', output, hforward⟩ := throws_forward
        (w := ⟨s.disk, { c with incoming := s₁, forwarding := true }, faults, []⟩)
        rfl hready.forwarded hready.buffer hready.outgoing hinterim hthrows
      have hans : Throws (answer setup raw body) _ _ _ :=
        throws_bind.mpr (.inr ⟨_, _, hcached, hforward⟩)
      exact h.round_of_endOfFile (hrun.trans hans) h.disk

end

end Rounds

theorem Inv.round {s : System σ} (h : Inv setup s) {id : Nat} {c : Connection} (hready : Ready c)
    {faults : List (Option Failure)} (hsound : Sound faults) (hans : s.Answerable setup c) :
    Inv setup (s.round setup id c faults) := by
  unfold Answerable at hans
  rcases returns_or_throws setup.services.readRawRequest c.incoming with
    ⟨raw, s₁, hraw⟩ | ⟨e, s₁, hraw⟩
  · rw [hraw] at hans
    change Makes (makeBody setup.services raw) (s.BodyAnswerable setup c raw s₁) at hans
    cases hmake : makeBody setup.services raw with
    | error exn =>
      rw [hmake] at hans
      exact False.elim hans
    | ok body =>
      rw [hmake] at hans
      unfold BodyAnswerable at hans
      split at hans
      case isTrue hhit => exact h.round_hit hready hsound hraw hmake hhit hans
      case isFalse hmiss =>
        exact h.round_miss hready hsound hraw hmake (Bool.eq_false_iff.mpr hmiss) hans.1 hans.2
  · rw [hraw] at hans
    cases e with
    | failure failure => exact False.elim hans
    | endOfFile =>
      have hrun : run (handleRequest setup) ⟨s.disk, c, faults, []⟩ = _ :=
        throws_bind.mpr (.inl (throws_onStream
          (w := ⟨s.disk, c, faults, []⟩) hraw))
      exact h.round_of_endOfFile hrun h.disk

theorem Inv.task {s : System σ} (h : Inv setup s) (hinv : Disk.Inv setup.dataView disk)
    (hputs : disk.puts = s.disk.puts) (hsrcs : disk.sources = s.disk.sources)
    (hcache : disk.cache = s.disk.cache) (hhandles : disk.handles = s.disk.handles) :
    Inv setup { s with disk := disk } where
  disk := h.disk.of_kept ⟨hinv, hhandles, hcache, hputs⟩
  sources := hsrcs.trans h.sources
  ready := h.ready
  log := h.log

theorem evict_same (dv : DataView σ) (disk : Disk σ) :
    (disk.evict dv).puts = disk.puts ∧ (disk.evict dv).sources = disk.sources ∧
      (disk.evict dv).cache = disk.cache ∧ (disk.evict dv).handles = disk.handles := by
  unfold Disk.evict
  cases pop disk.dataSize evictionSize disk.deletionQueue with
  | mk evicted queue =>
    dsimp only
    split <;> exact ⟨rfl, rfl, rfl, rfl⟩

theorem Inv.step {s s' : System σ} {action : Action} (h : Inv setup s)
    (hok : s.Undisturbed setup action) (hnext : s.next setup action = some s') : Inv setup s' := by
  cases action with
  | connect id memory incoming arrivals ahead =>
    cases hnext
    refine ⟨h.disk, h.sources, ?_, h.log⟩
    intro id' c hc
    dsimp only at hc
    by_cases hid : id' = id
    · subst hid
      rw [update_self] at hc
      cases hc
      exact ⟨rfl, rfl, rfl, rfl⟩
    · rw [update_of_ne hid] at hc
      exact h.ready id' c hc
  | round id faults =>
    rw [next] at hnext
    split at hnext
    case h_2 => simp at hnext
    case h_1 c hc =>
      cases hnext
      exact h.round (h.ready id c hc) hok.1 (hok.2 c hc)
  | evict =>
    rw [next] at hnext
    split at hnext
    case h_2 => simp at hnext
    case h_1 disk hdisk =>
      cases hnext
      have hidle : s.disk.Undisturbed .evict := by
        intro id _ r hr
        rw [h.sources] at hr
        exact absurd hr not_mem_nil
      have hinv := h.disk.inv.step hidle hdisk
      obtain ⟨_, hdisk⟩ := Option.ite_none_right_eq_some.mp hdisk
      cases hdisk
      obtain ⟨hputs, hsrcs, hcache, hhandles⟩ := evict_same setup.dataView s.disk
      exact h.task hinv hputs hsrcs hcache hhandles
  | evictDone failed =>
    rw [next] at hnext
    split at hnext
    case h_2 => simp at hnext
    case h_1 disk hdisk =>
      cases hnext
      have hidle : s.disk.Undisturbed (.evictDone failed) := trivial
      have hinv := h.disk.inv.step hidle hdisk
      rw [Disk.next] at hdisk
      split at hdisk
      case h_2 => simp at hdisk
      case h_1 evicted _ =>
        cases hdisk
        exact h.task hinv rfl rfl rfl rfl

theorem inv_start (storage : σ) (capacity : Nat) : Inv setup (start storage capacity) where
  disk := ⟨Disk.inv_start storage capacity, rfl, nofun⟩
  sources := rfl
  ready := nofun
  log := nofun

/-- In every run in which no call of the storage fails and every request can be
answered, each client gets for each of its requests the response that the server
gives to this request, but for `Via`. -/
theorem proxy_transparent (setup : Setup σ) (storage : σ) (capacity : Nat) {s : System σ}
    (hs : Reachable (next setup) (Undisturbed setup) (start storage capacity) s) :
    ∀ e ∈ s.log, Transparent setup e :=
  (hs.invariant (inv_start storage capacity) fun _ _ _ h hok hnext => h.step hok hnext).log

def sampleHeader : ResponseHeader := ⟨200, "OK".toList, [⟨"Content-Length".toList, ['1']⟩]⟩

def sampleLibrary : ResponseLibrary where
  serialize _ := ['h']
  parse
    | [] => .incomplete
    | 'h' :: rest => .header sampleHeader rest
    | _ => .malformed
  stoull _ := some 1
  Sendable h := h = sampleHeader
  serialize_ne_nil := nofun
  parse_serialize := by
    rintro h rest rfl
    rfl

def getRequest (target : String) : Text := ("GET " ++ target ++ " HTTP/1.1\r\n\r\n").toList

/-- Two buckets have an object of one key. -/
def sampleServices : Services :=
  { crypto := ⟨id, fun _ text => text⟩
    url := ⟨.ok, id, fun _ => .ok []⟩
    parseHeader := fun header =>
      if header = getRequest "/a/k" then some ⟨11, "GET".toList, "/a/k".toList, []⟩
      else if header = getRequest "/b/k" then some ⟨11, "GET".toList, "/b/k".toList, []⟩
      else none
    stoul := fun _ => .ok 0
    base64Decode := id
    expired := fun _ _ => .ok false
    findByKey := fun _ => .error (.exception (.runtimeError "no user"))
    findAndCheck := fun _ _ => .error (.exception (.runtimeError "no user"))
    peer := [] }

def sampleSetup : Setup Text where
  services := sampleServices
  library := sampleLibrary
  dataView := appending
  server :=
    { response := fun request =>
        ⟨sampleHeader, if request = getRequest "/a/k" then ['a'] else ['b']⟩
      interim := fun _ => none }
  via := "proxy".toList
  response_sendable _ := rfl
  interim_sendable := nofun

def connectFor (id : Nat) (target : String) : Action :=
  .connect id (fun _ => '\x00') (getRequest target) [] []

theorem proxy_transparent_cached :
    ∃ s, Reachable (next sampleSetup) (Undisturbed sampleSetup) (start [] 100) s ∧
      s.log.length = 2 ∧ ∀ e ∈ s.log, Transparent sampleSetup e :=
  exists_sample
    [connectFor 0 "/a/k", .round 0 [], connectFor 1 "/a/k", .evict, .round 1 []]
    (by decide +kernel) fun _ hs _ => proxy_transparent sampleSetup [] 100 hs

/-- A client that asks for an object of one bucket gets the object of another
one, which has the same key. -/
theorem other_bucket_served :
    ∃ s, Reachable (next sampleSetup) (fun _ _ => True) (start [] 100) s ∧
      s.log.map (fun e => (e.request, (received e.output).map ServerResponse.body)) =
        [(getRequest "/b/k", some ['a']), (getRequest "/a/k", some ['a'])] ∧
      ¬ ∀ e ∈ s.log, Transparent sampleSetup e :=
  exists_reachable_of_runWhile _
    [connectFor 0 "/a/k", .round 0 [], connectFor 1 "/b/k", .round 1 []]
    (by decide +kernel)

end System

end UhCore.Proxy
