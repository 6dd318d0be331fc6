import IocpRuntime.Proofs.StreamEnds

namespace IocpRuntime.Proofs.SessionMemory
open Lib Http Http2 Http2.H2Session SessionFrames SessionRuns FeedRuns StreamEnds

def streamOctets (stream : H2Stream) : Nat := stream.headerBlock.length + stream.body.length

def heldOctets (e : Endpoint) : Nat :=
  e.receiveBuffer.length + Maps.total streamOctets e.session.streams

def memoryBound (config : H2ConnectionConfig) : Nat :=
  config.maximumReceiveBufferSize +
    config.maximumConcurrentStreams *
      (config.maximumHeaderListSize.toNat + config.maximumRequestBodySize)

def blockWith (s : H2Session) (frame : Frame) : Nat :=
  ((s.streams.lookup frame.header.streamId).elim 0 fun stream => stream.headerBlock.length) +
    (headerFragment frame.header frame.payload).elim 0 List.length

/-- A frame that keeps the header block of its stream within the limit. -/
def withinHeaderLimit (limit : Nat) (arrival : Arrival) : Prop :=
  arrival.frame.header.type = .headers ∨ arrival.frame.header.type = .continuation →
    blockWith arrival.before arrival.frame ≤ limit

instance (limit : Nat) (arrival : Arrival) : Decidable (withinHeaderLimit limit arrival) :=
  inferInstanceAs (Decidable (_ → _))

def Blocks (limit : Nat) (s : H2Session) : Prop :=
  ∀ id stream, s.streams.lookup id = some stream → stream.headerBlock.length ≤ limit

section Frames
variable {frame : Frame}

theorem Blocks.fewer (h : Blocks limit s) (he : ∀ id stream, t.streams.lookup id = some stream →
      s.streams.lookup id = some stream) : Blocks limit t :=
  fun id stream hl => h id stream (he id stream hl)

theorem Blocks.set (h : Blocks limit s)
    (hs : stream.headerBlock.length ≤ limit) : Blocks limit (s.setStream stream) := by
  intro id other hl
  rcases Maps.of_lookup_insert hl with ⟨rfl, rfl⟩ | ⟨-, hold⟩
  · exact hs
  · exact h id other hold

/-- The stream of a HEADERS or CONTINUATION frame carries its block so far. -/
theorem Heads.block (h : Heads s frame.header t stream) : stream.headerBlock.length =
      (s.streams.lookup frame.header.streamId).elim 0 fun stream => stream.headerBlock.length := by
  cases h with
  | opens type odd newer fresh room => simp [fresh, H2Stream.create]
  | continues type found expected => simp [found]

theorem Heads.blocks (h : Heads s frame.header t stream) (hs : Blocks limit s) : Blocks limit t := by
  cases h with
  | opens type odd newer fresh room =>
    have hset := hs.set (show (({ H2Stream.create frame.header.streamId s.config.initialWindowSize with
      state := .opened } : H2Stream)).headerBlock.length ≤ limit from Nat.zero_le _)
    exact hset
  | continues type found expected => exact hs

theorem Assembles.blocks (h : Assembles s frame t stream) (hs : Blocks limit s)
    (hwi : blockWith s frame ≤ limit) :
    Blocks limit t ∧ stream.headerBlock.length ≤ limit := by
  cases h with
  | @fragment t old fragment heads cut =>
    have hl : (old.appendHeaderFragment frame.header fragment).headerBlock.length ≤ limit := by
      rw [blockWith, cut, ← Heads.block heads] at hwi
      simpa [H2Stream.appendHeaderFragment] using hwi
    exact ⟨(Heads.blocks heads hs).set hl, hl⟩

theorem erase_blocks {id : UInt32} (h : Blocks limit s)
    (hs : t.streams = s.streams.erase id) : Blocks limit t := by
  refine h.fewer (fun other stream hl => ?_)
  rw [hs] at hl
  exact (Maps.of_lookup_erase hl).2

theorem Delivered.blocks (h : Delivered s frame dispatch t status)
    (hs : Blocks limit s) : Blocks limit t := by
  have hst : ∀ {stream : H2Stream} {offset size : Nat}, Delivers s frame stream offset size →
      Blocks limit (dataReceived s stream frame.header
        (slice frame.payload offset (offset + size))) := by
    intro stream offset size delivers id other hl
    rcases Maps.of_lookup_insert hl with ⟨rfl, rfl⟩ | ⟨-, hold⟩
    · exact hs _ stream delivers.found
    · exact hs id other hold
  cases h with
  | overrun => exact erase_blocks hs rfl
  | stored delivers => exact hst delivers
  | completed delivers _ _ _ dispatches => exact erase_blocks (hst delivers) dispatches.fields.1

/-- A frame within the limit leaves header blocks within the limit. -/
theorem Handled.blocks (h : Handled s frame dispatch t status)
    (hst : status ≠ .protocolError) (hs : Blocks limit s)
    (hwi : frame.header.type = .headers ∨ frame.header.type = .continuation →
      blockWith s frame ≤ limit) : Blocks limit t := by
  have ha : ∀ {t : H2Session} {stream : H2Stream}, Assembles s frame t stream →
      Blocks limit t ∧ stream.headerBlock.length ≤ limit := by
    intro t stream assembles
    refine Assembles.blocks assembles hs (hwi ?_)
    cases assembles with
    | fragment heads cut =>
      cases heads with
      | opens type => exact Or.inl type
      | continues type => exact Or.inr type
  have hr : ∀ {t : H2Session} {stream : H2Stream} {decoder : HpackCodec}
      {request : HttpRequest}, Assembles s frame t stream →
      Blocks limit ({ t with continuationStreamId := none, hpackDecoder := decoder }.setStream
        (requestStored stream request)) := by
    intro t stream decoder request assembles id other hl
    obtain ⟨hb, hstr⟩ := ha assembles
    rcases Maps.of_lookup_insert hl with ⟨rfl, rfl⟩ | ⟨-, hold⟩
    · exact hstr
    · exact hb id other hold
  cases h with
  | failed => exact absurd rfl hst
  | served served => exact hs.fewer (fun id stream hl => served.streams ▸ hl)
  | reset => exact erase_blocks hs rfl
  | partly assembles => exact (ha assembles).1.fewer (fun _ _ hl => hl)
  | garbled assembles => exact erase_blocks (ha assembles).1 rfl
  | headed assembles => exact hr assembles
  | asked assembles _ _ _ _ _ dispatches =>
    exact erase_blocks (hr assembles) dispatches.fields.1
  | delivered delivered => exact Delivered.blocks delivered hs

theorem Delivered.keys (h : Delivered s frame dispatch t status) (hs : Sound s) :
    ∀ id stream, t.streams.lookup id = some stream → (s.streams.lookup id).isSome := by
  have hst : ∀ {stream : H2Stream} {offset size : Nat}, Delivers s frame stream offset size →
      ∀ id other, (dataReceived s stream frame.header
        (slice frame.payload offset (offset + size))).streams.lookup id = some other →
          (s.streams.lookup id).isSome := by
    intro stream offset size delivers id other hl
    rcases Maps.of_lookup_insert hl with ⟨rfl, rfl⟩ | ⟨-, hold⟩
    · rw [(hs.entry _ _ delivers.found).key, delivers.found]
      rfl
    · exact Option.isSome_of_eq_some hold
  intro id stream hl
  cases h with
  | overrun => exact Option.isSome_of_eq_some (Maps.of_lookup_erase hl).2
  | stored delivers => exact hst delivers id stream hl
  | completed delivers _ _ _ dispatches =>
    rw [dispatches.fields.1] at hl
    exact hst delivers id stream (Maps.of_lookup_erase hl).2

/-- The session has room for the streams that it keeps. -/
theorem Handled.count (h : Handled s frame dispatch t status)
    (hst : status ≠ .protocolError) (hs : Sound s)
    (hc : s.streams.entries.length ≤ s.config.maximumConcurrentStreams) :
    t.streams.entries.length ≤ s.config.maximumConcurrentStreams := by
  by_cases hd : frame.header.type = .data
  · have hk := Delivered.keys (Handled.data_delivered h hst hd) hs
    have hle := Maps.length_le_of_keys [] (fun id stream hl => Or.inr (hk id stream hl))
    simp only [List.length_nil, Nat.zero_add] at hle
    exact hle.trans hc
  have he := (Handled.dataless hs h hst hd).entries
  by_cases hh : frame.header.type = .headers
  · have hle : t.streams.entries.length ≤ [frame.header.streamId].length +
        s.streams.entries.length := by
      refine Maps.length_le_of_keys _ (fun id stream hl => ?_)
      cases he id stream hl with
      | kept found => exact Or.inr (by simp [found])
      | opened type key => exact Or.inl (by simp [key])
    have hr := (Handled.opens h hst hh).room
    rw [List.length_singleton] at hle
    omega
  · have hle : t.streams.entries.length ≤ ([] : List UInt32).length +
        s.streams.entries.length := by
      refine Maps.length_le_of_keys _ (fun id stream hl => Or.inr ?_)
      cases he id stream hl with
      | kept found => simp [found]
      | opened type => exact absurd type hh
    simp only [List.length_nil, Nat.zero_add] at hle
    exact hle.trans hc

end Frames

section Endpoints
variable {config : H2ConnectionConfig} {e : Endpoint}

structure Fits (config : H2ConnectionConfig) (s : H2Session) : Prop where
  configured : s.state ≠ .closed → ∃ size, s.config = { config with maximumHeaderListSize := size }
  count : s.streams.entries.length ≤ config.maximumConcurrentStreams
  blocks : Blocks config.maximumHeaderListSize.toNat s
  bodies : ∀ id stream, s.streams.lookup id = some stream →
    stream.body.length ≤ config.maximumRequestBodySize

theorem Fits.same (h : Fits config s) (hs : t.streams = s.streams)
    (hc : t.state ≠ .closed → s.state ≠ .closed ∧ t.config = s.config) : Fits config t where
  configured := by
    intro ho
    obtain ⟨hli, hsa⟩ := hc ho
    rw [hsa]
    exact h.configured hli
  count := hs ▸ h.count
  blocks := h.blocks.fewer (fun _ _ hl => hs ▸ hl)
  bodies := fun id stream hl => h.bodies id stream (hs ▸ hl)

theorem Fits.closed (hst : s.state = .closed) (hs : s.streams = ∅) : Fits config s where
  configured := fun ho => absurd hst ho
  count := by simp [hs]
  blocks := by
    intro id stream hl
    rw [hs, AList.lookup_empty] at hl
    cases hl
  bodies := by
    intro id stream hl
    rw [hs, AList.lookup_empty] at hl
    cases hl

theorem Fits.received (h : Fits config arrival.before) (hmet : Met arrival)
    (hwi : withinHeaderLimit config.maximumHeaderListSize.toNat arrival) :
    Fits config arrival.after := by
  have hs := hmet.healthy.sound hmet.connected
  have hli : arrival.before.state ≠ .closed := by
    rw [hmet.connected]
    decide
  obtain ⟨size, hsi⟩ := h.configured hli
  have hr := hmet.received
  generalize arrival.after = t at hr ⊢
  generalize arrival.status = status at hr
  cases hr with
  | ignored unconnected => exact absurd hmet.connected unconnected
  | failed => exact .closed rfl rfl
  | handled connected admitted handled well =>
    obtain ⟨size', hsi'⟩ := Handled.config hs handled well
    refine ⟨fun _ => ⟨size', by rw [hsi', hsi]⟩, ?_, Handled.blocks handled well h.blocks hwi, ?_⟩
    · have hc := Handled.count handled well hs (by rw [hsi]; exact h.count)
      rwa [hsi] at hc
    · have hb : Bounded arrival.before := by
        intro id stream hl
        rw [hsi]
        exact h.bodies id stream hl
      intro id stream hl
      have hbo := Handled.bounded hs hb handled well id stream hl
      rwa [hsi', hsi] at hbo

theorem Fits.held_le (h : Fits config s) : Maps.total streamOctets s.streams ≤
      config.maximumConcurrentStreams *
        (config.maximumHeaderListSize.toNat + config.maximumRequestBodySize) := by
  have he : ∀ id stream, s.streams.lookup id = some stream →
      streamOctets stream ≤ config.maximumHeaderListSize.toNat + config.maximumRequestBodySize :=
    fun id stream hl => Nat.add_le_add (h.blocks id stream hl) (h.bodies id stream hl)
  exact (Maps.total_le he).trans (Nat.mul_le_mul_right _ h.count)

/-- An endpoint whose buffer and streams are within their limits. -/
structure Within (config : H2ConnectionConfig) (e : Endpoint) : Prop where
  healthy : Healthy e.session
  fits : Fits config e.session
  buffer : e.receiveBuffer.length ≤ config.maximumReceiveBufferSize

theorem Within.held_le (h : Within config e) : heldOctets e ≤ memoryBound config :=
  Nat.add_le_add h.buffer h.fits.held_le

theorem failConnection_within : Within config (e.failConnection errorCode) :=
  ⟨fun ho => absurd rfl ho, .closed rfl rfl, Nat.zero_le _⟩

theorem Fits.answered (h : Fits config s) : Fits config (s.answered answers) := by
  have ha := answered_answered s answers
  exact h.same ha.streams (fun ho => ⟨ha.state ▸ ho, ha.config⟩)

/-- After any number of rounds of `Feed`, as long as its frames stay within the limit. -/
theorem loop_within (h : Within config e) (ho : e.session.state ≠ .closed)
    (hwi : ∀ arrival ∈ (Endpoint.loop environment rounds e).1.arrivals,
      withinHeaderLimit config.maximumHeaderListSize.toNat arrival) :
    Within config (Endpoint.loop environment rounds e).1 := by
  induction rounds generalizing e with
  | zero => exact h
  | succ rounds ih =>
    unfold Endpoint.loop at hwi ⊢
    by_cases he : e.receiveBuffer = []
    · rw [if_pos he]
      exact h
    rw [if_neg he] at hwi ⊢
    have hr := round_rounds environment e
    generalize e.round environment = round at hr hwi ⊢
    cases hr with
    | mismatch => exact failConnection_within
    | waits => exact h
    | oversized => exact failConnection_within
    | greeted unconnected rest shorter =>
      refine ih ⟨acceptPreface_healthy h.healthy ho, h.fits.same rfl (fun _ => ⟨ho, rfl⟩), ?_⟩
        (by simp [H2Session.acceptPreface, H2Session.send]) hwi
      exact (Nat.le_of_lt shorter).trans h.buffer
    | framed connected arrival rest met dispatch cut =>
      have ha := answered_answered e.session (environment e.arrivals).answers
      have hmet : Met arrival :=
        ⟨met ▸ ha.healthy h.healthy, met ▸ ha.state.trans connected⟩
      have hf : withinHeaderLimit config.maximumHeaderListSize.toNat arrival →
          Fits config arrival.after :=
        Fits.received (met ▸ h.fits.answered) hmet
      have hre : rest.length ≤ config.maximumReceiveBufferSize := by
        obtain ⟨-, -, -, rfl⟩ := cutOctets_eq_frame cut
        rw [List.length_drop]
        exact (Nat.sub_le _ _).trans h.buffer
      have hl : arrival ∈ e.arrivals ++ [arrival] :=
        List.mem_append_right _ (List.mem_singleton.mpr rfl)
      unfold Endpoint.frameRound at hwi ⊢
      cases hs : arrival.status with
      | ready =>
        simp only [hs] at hwi ⊢
        by_cases hst : arrival.after.state = .closing ∨ arrival.after.state = .closed
        · rw [if_pos hst] at hwi ⊢
          exact ⟨hmet.after_healthy, hf (hwi arrival hl), hre⟩
        · rw [if_neg hst] at hwi ⊢
          have hon : arrival.after.state ≠ .closed := fun hc => hst (Or.inr hc)
          obtain ⟨new, hnew⟩ := loop_fed environment rounds { e with
            session := arrival.after, receiveBuffer := rest, arrivals := e.arrivals ++ [arrival] }
            hmet.after_healthy hon
          have har := hwi arrival (hnew.arrivals ▸ List.mem_append_left _ hl)
          exact ih ⟨hmet.after_healthy, hf har, hre⟩ hon hwi
      | closeRequired =>
        simp only [hs] at hwi ⊢
        exact ⟨hmet.after_healthy, hf (hwi arrival hl), Nat.zero_le _⟩
      | _ =>
        simp only [hs] at hwi ⊢
        exact ⟨hmet.after_healthy, hf (hwi arrival hl), hre⟩

theorem Within.appended (h : Within config e) (ho : e.session.state ≠ .closed)
    (hf : e.overflows bytes = false) :
    Within config { e with receiveBuffer := e.receiveBuffer ++ bytes } := by
  refine ⟨h.healthy, h.fits, ?_⟩
  obtain ⟨size, hs⟩ := h.fits.configured ho
  have hb := h.buffer
  simp only [Endpoint.overflows, hs, decide_eq_false_iff_not, List.length_append] at hf ⊢
  omega

theorem feed_within (h : Within config e) (hwi : ∀ arrival ∈ (e.feed environment bytes).1.arrivals,
      withinHeaderLimit config.maximumHeaderListSize.toNat arrival) :
    Within config (e.feed environment bytes).1 := by
  unfold Endpoint.feed at hwi ⊢
  by_cases hc : e.session.state = .closed
  · rw [if_pos hc]
    exact h
  rw [if_neg hc] at hwi ⊢
  by_cases ho : e.overflows bytes = true
  · rw [if_pos ho]
    exact failConnection_within
  rw [if_neg ho] at hwi ⊢
  exact loop_within (h.appended hc (Bool.eq_false_iff.mpr ho)) hc hwi

theorem handle_arrivals (h : Healthy e.session) :
    ∃ new, (e.handle input).arrivals = e.arrivals ++ new := by
  cases input with
  | feed bytes environment =>
    by_cases hc : e.session.state = .closed
    · exact ⟨[], by simp [Endpoint.handle, Endpoint.feed, hc]⟩
    · obtain ⟨new, hnew⟩ := feed_fed environment e bytes h hc
      exact ⟨new, hnew.arrivals⟩
  | respond | sendGoaway | close => exact ⟨[], by simp [Endpoint.handle]⟩

theorem handle_within (h : Within config e) (hwi : ∀ arrival ∈ (e.handle input).arrivals,
      withinHeaderLimit config.maximumHeaderListSize.toNat arrival) :
    Within config (e.handle input) := by
  have hh := handle_healthy_endpoint h.healthy input
  cases input with
  | feed bytes environment => exact feed_within h hwi
  | respond streamId response =>
    exact ⟨hh, h.fits.same rfl (fun ho => ⟨ho, rfl⟩), h.buffer⟩
  | sendGoaway errorCode =>
    refine ⟨hh, h.fits.same ?_ (fun ho => ?_), h.buffer⟩
    · simp only [Endpoint.handle, H2Session.handle]
      split <;> rfl
    · simp only [Endpoint.handle, H2Session.handle] at ho ⊢
      split
      · rename_i hnot
        rw [if_pos hnot] at ho
        exact ⟨ho, rfl⟩
      · rename_i hc
        rw [not_not.mp hc]
        exact ⟨by decide, rfl⟩
  | close => exact ⟨hh, .closed rfl rfl, h.buffer⟩

/-- A run whose frames stay within the limit. -/
theorem run_within {connectionId : Nat} (ha : Accepted config) (hwi : ∀ arrival ∈
        (Runs.final Endpoint.handle (endpoint connectionId config ha) inputs).arrivals,
      withinHeaderLimit config.maximumHeaderListSize.toNat arrival) :
    Within config (Runs.final Endpoint.handle (endpoint connectionId config ha) inputs) := by
  have hs : Within config (endpoint connectionId config ha) := by
    refine ⟨healthy_of_empty rfl rfl, ⟨fun _ => ⟨_, rfl⟩, Nat.zero_le _, ?_, ?_⟩, Nat.zero_le _⟩
    · intro id stream hl
      cases hl
    · intro id stream hl
      cases hl
  refine (Runs.final_invariant (motive := fun e => Healthy e.session ∧ ((∀ arrival ∈ e.arrivals,
      withinHeaderLimit config.maximumHeaderListSize.toNat arrival) → Within config e))
    ⟨hs.healthy, fun _ => hs⟩ ?_ inputs).2 hwi
  intro e input ⟨hh, hb⟩
  refine ⟨handle_healthy_endpoint hh input, fun haf => ?_⟩
  obtain ⟨new, hnew⟩ := handle_arrivals hh
  refine handle_within (hb fun arrival har => haf arrival ?_) haf
  rw [hnew]
  exact List.mem_append_left _ har

end Endpoints

/-- If the header blocks so far are within `maximum_header_list_size`, the buffer and the streams
are within the sum of the limits. -/
theorem memory_bounded {connectionId : Nat} {config : H2ConnectionConfig} {e : Endpoint}
    (h : Endpoint.create connectionId config = .ok e) (inputs : List Endpoint.Input)
    (hwithin : ∀ arrival ∈ (Runs.final Endpoint.handle e inputs).arrivals,
      withinHeaderLimit config.maximumHeaderListSize.toNat arrival) :
    let reached := Runs.final Endpoint.handle e inputs
    heldOctets reached ≤ memoryBound config ∧
      ∀ bytes environment rounds, reached.session.state ≠ .closed →
        reached.overflows bytes = false →
        let inside := (Endpoint.loop environment rounds
          { reached with receiveBuffer := reached.receiveBuffer ++ bytes }).1
        (∀ arrival ∈ inside.arrivals,
          withinHeaderLimit config.maximumHeaderListSize.toNat arrival) →
        heldOctets inside ≤ memoryBound config := by
  obtain ⟨haccepted, rfl⟩ := of_endpoint_create h
  have hreached := run_within haccepted hwithin
  refine ⟨hreached.held_le, ?_⟩
  intro bytes environment rounds hopen hfits inside hinside
  exact (loop_within (hreached.appended hopen hfits) hopen hinside).held_le

def partialUpload : List Endpoint.Input :=
  [.feed (clientOctets [settingsFrame, requestFrame 1 false, dataFrame 1 false [1, 2, 3]])
    (fun _ => {})]

theorem memory_bounded_upload :
    let reached := Runs.final Endpoint.handle (endpoint 1 {} (by decide)) partialUpload
    heldOctets reached = 5 ∧ heldOctets reached ≤ memoryBound {} :=
  ⟨by decide +kernel,
    (memory_bounded (endpoint_create_eq 1 (by decide)) partialUpload (by decide +kernel)).1⟩

/-- What holds of the streams of an open session. -/
theorem stream_table_sound (h : Endpoint.create n options = .ok e) (inputs : List Endpoint.Input) :
    let s := (Runs.final Endpoint.handle e inputs).session
    s.state ≠ .closed → Sound s := by
  obtain ⟨accepted, rfl⟩ := of_endpoint_create h
  exact endpoint_reached n accepted inputs

theorem stream_table_sound_upload :
    let s := (Runs.final Endpoint.handle (endpoint 1 {} (by decide)) partialUpload).session
    (s.streams.lookup 1).isSome ∧ Sound s :=
  ⟨by decide +kernel,
    stream_table_sound (endpoint_create_eq 1 (by decide)) partialUpload (by decide +kernel)⟩

def continuationFrame : Frame :=
  ⟨{ length := 1, type := .continuation, streamId := 1 }, [0]⟩

/-- A connection in the middle of a header block of so many octets. -/
structure Flooded (size : Nat) (e : Endpoint) : Prop where
  buffer : e.receiveBuffer = []
  connected : e.session.state = .connected
  settled : e.session.receivedInitialSettings = true
  expected : e.session.continuationStreamId = some 1
  config : e.session.config = {}
  stream : ∃ stream, e.session.streams.lookup 1 = some stream ∧ stream.streamId = 1 ∧
    stream.state ≠ .closed ∧ stream.headerBlock.length = size

theorem Flooded.receives (h : Flooded size e) :
    ∃ t, e.session.receive continuationFrame [] .accepted = (t, .ready) ∧
      t.state = .connected ∧ t.receivedInitialSettings = true ∧ t.continuationStreamId = some 1 ∧
      t.config = {} ∧ ∃ stream, t.streams.lookup 1 = some stream ∧ stream.streamId = 1 ∧
        stream.state ≠ .closed ∧ stream.headerBlock.length = size + 1 := by
  obtain ⟨stream, hfo, hkey, ho, hsi⟩ := h.stream
  have hf : headerFragment continuationFrame.header continuationFrame.payload = some [0] := by
    decide
  have hs : e.session.headerStream continuationFrame.header = some (e.session, stream) := by
    simp [H2Session.headerStream, continuationFrame, h.expected, hfo]
  have hh : e.session.handleHeaders continuationFrame.header continuationFrame.payload .accepted =
      ({ e.session.setStream (stream.appendHeaderFragment continuationFrame.header [0]) with
        continuationStreamId := some 1 }, .ready) := by
    have hm : continuationFrame.header.has .endHeaders = false := by decide
    unfold H2Session.handleHeaders
    rw [if_neg (by decide), hs, hf]
    dsimp only
    rw [if_neg ho, H2Session.continueHeaders, hm]
    rfl
  have hc : e.session.consumeFrame continuationFrame [] .accepted =
      e.session.handleHeaders continuationFrame.header continuationFrame.payload .accepted := by
    unfold H2Session.consumeFrame
    rw [h.settled, h.expected, h.config, if_neg (by decide), if_neg (by decide), if_neg (by decide),
      if_neg (by decide), if_pos (by decide)]
  refine ⟨{ e.session.setStream (stream.appendHeaderFragment continuationFrame.header [0]) with
      continuationStreamId := some 1 }, ?_, h.connected, h.settled, rfl, h.config,
    stream.appendHeaderFragment continuationFrame.header [0], ?_, hkey, ho, ?_⟩
  · unfold H2Session.receive
    rw [if_neg (not_not.mpr h.connected), hc, hh]
  · have hsa : (stream.appendHeaderFragment continuationFrame.header [0]).streamId = 1 := hkey
    exact hsa ▸ AList.lookup_insert _
  · simp [H2Stream.appendHeaderFragment, hsi]

theorem Flooded.next (h : Flooded size e) :
    Flooded (size + 1) (e.handle (.feed continuationFrame.octets (fun _ => {}))) := by
  obtain ⟨t, hr, hc, hs, he, hco, hst⟩ := h.receives
  have hcut : cutOctets e.session.config.maximumFrameSize continuationFrame.octets =
      .frame continuationFrame [] := by
    rw [h.config]
    rfl
  have hro : ({ e with receiveBuffer := continuationFrame.octets } : Endpoint).round (fun _ => {}) =
      .goesOn { session := t, receiveBuffer := [],
                arrivals := e.arrivals ++ [⟨e.session, continuationFrame, [], .accepted⟩] } := by
    simp only [Endpoint.round, h.connected, hcut, H2Session.answered, List.foldl_nil,
      Endpoint.frameRound, Arrival.after, Arrival.status, Arrival.outcome, hr, hc]
    simp
  have hf : e.handle (.feed continuationFrame.octets (fun _ => {})) =
      { session := t, receiveBuffer := [],
        arrivals := e.arrivals ++ [⟨e.session, continuationFrame, [], .accepted⟩] } := by
    have ho : e.session.state ≠ .closed := by
      rw [h.connected]
      decide
    have hfi : e.overflows continuationFrame.octets = false := by
      rw [Endpoint.overflows, h.buffer, h.config]
      decide
    simp only [Endpoint.handle, Endpoint.feed, if_neg ho, hfi, h.buffer, List.nil_append,
      Bool.false_eq_true, if_false]
    rw [show ([] : Octets).length + continuationFrame.octets.length = 9 + 1 from rfl, Endpoint.loop,
      if_neg (show continuationFrame.octets ≠ [] by decide), hro]
    rfl
  rw [hf]
  exact ⟨rfl, hc, hs, he, hco, hst⟩

def openingFrame : Frame := ⟨{ type := .headers, streamId := 1 }, []⟩

def flood (size : Nat) : List Endpoint.Input :=
  .feed (clientOctets [settingsFrame, openingFrame]) (fun _ => {}) ::
    List.replicate size (.feed continuationFrame.octets (fun _ => {}))

theorem flood_flooded :
    Flooded size (Runs.final Endpoint.handle (endpoint 1 {} (by decide)) (flood size)) := by
  induction size with
  | zero =>
    have hs : ((Runs.final Endpoint.handle (endpoint 1 {} (by decide))
        (flood 0)).session.streams.lookup 1).any (fun stream => stream.streamId == 1 &&
          stream.state != .closed && stream.headerBlock.length == 0) = true := by
      decide +kernel
    simp only [Option.any_eq_true, Bool.and_eq_true, beq_iff_eq, bne_iff_ne, and_assoc] at hs
    refine ⟨?_, ?_, ?_, ?_, ?_, hs⟩ <;> decide +kernel
  | succ size ih =>
    have hf : flood (size + 1) = flood size ++ [.feed continuationFrame.octets (fun _ => {})] := by
      simp [flood, List.replicate_succ']
    rw [hf, Runs.final_append]
    exact ih.next

/-- No number bounds what a connection with the default configuration holds. -/
theorem memory_unbounded :
    Endpoint.create 1 {} = .ok (endpoint 1 {} (by decide)) ∧
      ¬ ∃ bound, ∀ inputs,
        heldOctets (Runs.final Endpoint.handle (endpoint 1 {} (by decide)) inputs) ≤ bound := by
  refine ⟨endpoint_create_eq 1 _, ?_⟩
  rintro ⟨bound, hbound⟩
  obtain ⟨stream, hfound, -, -, hsize⟩ := flood_flooded.stream
  have hstream : streamOctets stream ≤ Maps.total streamOctets (Runs.final Endpoint.handle
      (endpoint 1 {} (by decide)) (flood (bound + 1))).session.streams := Maps.le_total hfound
  have hheld := hbound (flood (bound + 1))
  simp only [heldOctets, streamOctets] at hheld hstream
  omega

end IocpRuntime.Proofs.SessionMemory
