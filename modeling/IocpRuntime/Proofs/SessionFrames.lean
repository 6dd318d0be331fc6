import IocpRuntime.Http2.Feed
import IocpRuntime.Proofs.OutboundStreams

namespace IocpRuntime.Proofs.SessionFrames
open Lib Http Http2
open H2OutboundScheduler

variable {id : UInt32}

structure Sound.Entry (s : H2Session) (id : UInt32) (stream : H2Stream) : Prop where
  key : stream.streamId = id
  nonzero : id ≠ 0
  seen : id ≤ s.lastStreamId
  opened : stream.state ≠ .closed
  undispatched : stream.dispatched = false
  requested : stream.request.isSome = stream.headersComplete
  unended : stream.headersComplete = true → stream.endStream = false
  assembling : stream.headersComplete = false → s.continuationStreamId = some id

structure Sound (s : H2Session) : Prop where
  entry : ∀ id stream, s.streams.lookup id = some stream → Sound.Entry s id stream
  continuing : ∀ id, s.continuationStreamId = some id →
    ∃ stream, s.streams.lookup id = some stream ∧ stream.headersComplete = false

def peerOperation (header : FrameHeader) : Operation → Bool
  | .applyPeerSettings .. => header.type == .settings
  | .updateConnectionWindow .. => header.type == .windowUpdate
  | .updateStreamWindow streamId _ => header.type == .windowUpdate && streamId == header.streamId
  | _ => false

/-- Frames that open, feed and end no stream: they reach the scheduler at most,
and are answered by SETTINGS or PING. -/
structure Served (s : H2Session) (header : FrameHeader) (t : H2Session) : Prop where
  connectionId : t.connectionId = s.connectionId
  config : ∃ size, t.config = { s.config with maximumHeaderListSize := size }
  decoder : t.hpackDecoder = s.hpackDecoder
  state : t.state = s.state ∨ t.state = .closing
  last : t.lastStreamId = s.lastStreamId
  window : t.connectionRecvWindow = s.connectionRecvWindow
  continuation : t.continuationStreamId = s.continuationStreamId
  streams : t.streams = s.streams
  dispatched : t.dispatched = s.dispatched
  outbound : ∃ answers : List Frame,
    (∀ frame ∈ answers, frame.header.type = .settings ∨ frame.header.type = .ping) ∧
    (t.outbound = s.outbound ∧ t.sent = s.sent ++ answers ∨
      ∃ op, peerOperation header op = true ∧ t.outbound = (s.outbound.perform op).scheduler ∧
        t.sent = s.sent ++ (s.outbound.perform op).frames ++ answers)

/-- The stream a HEADERS frame opens or a CONTINUATION frame goes on with. -/
inductive Heads (s : H2Session) (header : FrameHeader) : H2Session → H2Stream → Prop
  | opens (type : header.type = .headers) (odd : header.streamId % 2 = 1)
      (newer : s.lastStreamId < header.streamId) (fresh : s.streams.lookup header.streamId = none)
      (room : s.streams.entries.length < s.config.maximumConcurrentStreams) :
      Heads s header
        { s.setStream { H2Stream.create header.streamId s.config.initialWindowSize with
            state := .opened } with
          outbound := s.outbound.openStream header.streamId
          lastStreamId := header.streamId }
        { H2Stream.create header.streamId s.config.initialWindowSize with state := .opened }
  | continues {stream : H2Stream} (type : header.type = .continuation)
      (found : s.streams.lookup header.streamId = some stream)
      (expected : s.continuationStreamId = some header.streamId) :
      Heads s header s stream

/-- A stream with the fragment of a frame on it, and the session that has it. -/
inductive Assembles (s : H2Session) (frame : Frame) : H2Session → H2Stream → Prop
  | fragment {t : H2Session} {stream : H2Stream} {fragment : Octets}
      (heads : Heads s frame.header t stream)
      (cut : headerFragment frame.header frame.payload = some fragment) :
      Assembles s frame (t.setStream (stream.appendHeaderFragment frame.header fragment))
        (stream.appendHeaderFragment frame.header fragment)

inductive Dispatches (s : H2Session) (stream : H2Stream) (request : HttpRequest) :
    HttpDispatchStatus → H2Session → ProtocolFeedStatus → Prop
  | accepted : Dispatches s stream request .accepted
      { s with
        dispatched := s.dispatched ++ [{ request with body := stream.body }]
        streams := s.streams.erase stream.streamId } .ready
  | saturated : Dispatches s stream request .executorSaturated (s.closeStream stream.streamId)
      .executorSaturated
  | stopped : Dispatches s stream request .executorStopped (s.closeStream stream.streamId)
      .executorStopped

def requestStored (stream : H2Stream) (request : HttpRequest) : H2Stream :=
  { stream with
    request := some request
    headersComplete := true
    state := if stream.endStream then .halfClosedRemote else .opened }

def refilled (initial window : UInt32) : UInt32 := if window < initial / 2 then initial else window

def topUp (initial id window : UInt32) : List Frame :=
  if window < initial / 2 then
    [⟨{ type := .windowUpdate, streamId := id,
        length := UInt32.ofNat (encodeWindowUpdate (initial - window)).length },
      encodeWindowUpdate (initial - window)⟩]
  else []

def dataStored (initial : UInt32) (stream : H2Stream) (header : FrameHeader) (data : Octets) :
    H2Stream :=
  { stream with
    recvWindow := refilled initial (stream.recvWindow - header.length)
    body := stream.body ++ data
    endStream := header.has .endStream
    state := if header.has .endStream then .halfClosedRemote else stream.state }

def dataReceived (s : H2Session) (stream : H2Stream) (header : FrameHeader) (data : Octets) :
    H2Session :=
  let initial := s.config.initialWindowSize
  { s with
    connectionRecvWindow := refilled initial (s.connectionRecvWindow - header.length)
    streams := s.streams.insert stream.streamId (dataStored initial stream header data)
    sent := s.sent ++ (topUp initial 0 (s.connectionRecvWindow - header.length) ++
      topUp initial stream.streamId (stream.recvWindow - header.length)) }

/-- A DATA frame past the checks of `HandleData` that end the connection. -/
structure Delivers (s : H2Session) (frame : Frame) (stream : H2Stream) (offset size : Nat) :
    Prop where
  type : frame.header.type = .data
  nonzero : frame.header.streamId ≠ 0
  found : s.streams.lookup frame.header.streamId = some stream
  complete : stream.headersComplete = true
  range : dataRange frame.header frame.payload = some (offset, size)
  stream_window : frame.header.length ≤ stream.recvWindow
  connection_window : frame.header.length ≤ s.connectionRecvWindow

def overLimit (s : H2Session) (stream : H2Stream) (size : Nat) : Prop :=
  size > s.config.maximumRequestBodySize ∨
    stream.body.length > s.config.maximumRequestBodySize - size

/-- Types of frames that belong to no stream of the session. -/
def Other (type : FrameType) : Prop :=
  type ≠ .headers ∧ type ≠ .continuation ∧ type ≠ .data ∧ type ≠ .rstStream

instance (type : FrameType) : Decidable (Other type) := inferInstanceAs (Decidable (_ ∧ _))

inductive Delivered (s : H2Session) (frame : Frame) (dispatch : HttpDispatchStatus) :
    H2Session → ProtocolFeedStatus → Prop
  | overrun {stream : H2Stream} {offset size : Nat} (delivers : Delivers s frame stream offset size)
      (beyond : overLimit s stream size) :
      Delivered s frame dispatch (s.closeStream frame.header.streamId) .bufferLimitExceeded
  | stored {stream : H2Stream} {offset size : Nat} (delivers : Delivers s frame stream offset size)
      (fits : ¬ overLimit s stream size) (unended : frame.header.has .endStream = false) :
      Delivered s frame dispatch
        (dataReceived s stream frame.header (slice frame.payload offset (offset + size))) .ready
  | completed {t : H2Session} {stream : H2Stream} {request : HttpRequest} {offset size : Nat}
      {status : ProtocolFeedStatus} (delivers : Delivers s frame stream offset size)
      (fits : ¬ overLimit s stream size) (ended : frame.header.has .endStream = true)
      (asked : stream.request = some request)
      (dispatches : Dispatches
        (dataReceived s stream frame.header (slice frame.payload offset (offset + size)))
        (dataStored s.config.initialWindowSize stream frame.header
          (slice frame.payload offset (offset + size))) request dispatch t status) :
      Delivered s frame dispatch t status

inductive Handled (s : H2Session) (frame : Frame) (dispatch : HttpDispatchStatus) :
    H2Session → ProtocolFeedStatus → Prop
  | failed {t : H2Session} (dispatched : t.dispatched = s.dispatched) :
      Handled s frame dispatch t .protocolError
  | served {t : H2Session} (served : Served s frame.header t) (other : Other frame.header.type) :
      Handled s frame dispatch t .ready
  | reset (type : frame.header.type = .rstStream) :
      Handled s frame dispatch (s.closeStream frame.header.streamId) .ready
  | partly {t : H2Session} {stream : H2Stream} (assembles : Assembles s frame t stream)
      (more : frame.header.has .endHeaders = false) :
      Handled s frame dispatch { t with continuationStreamId := some frame.header.streamId } .ready
  | garbled {t : H2Session} {stream : H2Stream} {decoder : HpackCodec} {thrown : Buffer.Thrown}
      (assembles : Assembles s frame t stream) (last : frame.header.has .endHeaders = true)
      (decode : s.hpackDecoder.decode stream.headerBlock = (decoder, .error thrown)) :
      Handled s frame dispatch
        (({ t with continuationStreamId := none, hpackDecoder := decoder }.sendRstStream
          frame.header.streamId .compressionError).closeStream frame.header.streamId) .ready
  | headed {t : H2Session} {stream : H2Stream} {decoder : HpackCodec} {decoded : List HttpHeader}
      {a : Assembly} (assembles : Assembles s frame t stream)
      (last : frame.header.has .endHeaders = true)
      (decode : s.hpackDecoder.decode stream.headerBlock = (decoder, .ok decoded))
      (assembled : assembleRequest s.connectionId frame.header.streamId decoded = some a)
      (complete : a.complete = true) (unended : stream.endStream = false) :
      Handled s frame dispatch
        ({ t with continuationStreamId := none, hpackDecoder := decoder }.setStream
          (requestStored stream a.request)) .ready
  | asked {t u : H2Session} {stream : H2Stream} {decoder : HpackCodec}
      {decoded : List HttpHeader} {a : Assembly} {status : ProtocolFeedStatus}
      (assembles : Assembles s frame t stream) (last : frame.header.has .endHeaders = true)
      (decode : s.hpackDecoder.decode stream.headerBlock = (decoder, .ok decoded))
      (assembled : assembleRequest s.connectionId frame.header.streamId decoded = some a)
      (complete : a.complete = true) (ended : stream.endStream = true)
      (dispatches : Dispatches
        ({ t with continuationStreamId := none, hpackDecoder := decoder }.setStream
          (requestStored stream a.request)) (requestStored stream a.request) a.request dispatch u
          status) :
      Handled s frame dispatch u status
  | delivered {t : H2Session} {status : ProtocolFeedStatus}
      (delivered : Delivered s frame dispatch t status) : Handled s frame dispatch t status

section Frames
variable {s : H2Session} {frame : Frame}

def Handles (s : H2Session) (frame : Frame) (dispatch : HttpDispatchStatus)
    (result : H2Session × ProtocolFeedStatus) : Prop :=
  Handled s frame dispatch result.1 result.2

theorem Handles.branch [Decidable c]
    (ha : c → Handles s frame dispatch a) (hb : ¬ c → Handles s frame dispatch b) :
    Handles s frame dispatch (if c then a else b) := by
  by_cases hc : c
  · rw [if_pos hc]
    exact ha hc
  · rw [if_neg hc]
    exact hb hc

theorem Handles.error : Handles s frame dispatch (s, .protocolError) := .failed rfl

theorem Served.refl (s : H2Session) (header : FrameHeader) : Served s header s where
  connectionId := rfl
  config := ⟨s.config.maximumHeaderListSize, rfl⟩
  decoder := rfl
  state := Or.inl rfl
  last := rfl
  window := rfl
  continuation := rfl
  streams := rfl
  dispatched := rfl
  outbound := ⟨[], by simp, Or.inl ⟨rfl, by simp⟩⟩

structure Configured (header : FrameHeader) (s t : H2Session) : Prop where
  served : Served s header t
  state : t.state = s.state
  outbound : t.outbound = s.outbound
  sent : t.sent = s.sent

theorem Configured.trans (h : Configured header s t)
    (h' : Configured header t u) : Configured header s u := by
  have hs : Served s header u := by
    obtain ⟨size, hsi⟩ := h.served.config
    obtain ⟨size', hsi'⟩ := h'.served.config
    refine ⟨h'.served.connectionId.trans h.served.connectionId, ⟨size', ?_⟩,
      h'.served.decoder.trans h.served.decoder, Or.inl (h'.state.trans h.state),
      h'.served.last.trans h.served.last, h'.served.window.trans h.served.window,
      h'.served.continuation.trans h.served.continuation,
      h'.served.streams.trans h.served.streams, h'.served.dispatched.trans h.served.dispatched,
      ⟨[], by simp, Or.inl ⟨h'.outbound.trans h.outbound, ?_⟩⟩⟩
    · rw [hsi', hsi]
    · rw [List.append_nil]
      exact h'.sent.trans h.sent
  exact ⟨hs, h'.state.trans h.state, h'.outbound.trans h.outbound, h'.sent.trans h.sent⟩

theorem Configured.refl (header : FrameHeader) (s : H2Session) : Configured header s s :=
  ⟨.refl s header, rfl, rfl, rfl⟩

theorem applySetting_configured {id : UInt16} (h : s.applySetting id value = some t) : Configured header s t := by
  unfold H2Session.applySetting at h
  repeat' split at h
  all_goals cases h
  all_goals refine ⟨⟨rfl, ⟨_, rfl⟩, rfl, Or.inl rfl, rfl, rfl, rfl, rfl, rfl, ?_⟩, rfl, rfl, rfl⟩
  all_goals exact ⟨[], by simp, Or.inl ⟨rfl, by simp⟩⟩

theorem applySettings_configured (header : FrameHeader) (s : H2Session) (payload : Octets) :
    Configured header s (s.applySettings payload).1 :=
  H2Session.applySettings_rule (Configured.refl header) Configured.trans applySetting_configured

/-- A call of the scheduler for the peer, with the frames that answer it. -/
theorem Configured.scheduled (h : Configured header s t) (hop : peerOperation header op = true)
    (ha : ∀ frame ∈ answers, frame.header.type = .settings ∨ frame.header.type = .ping)
    (hu : u = (t.scheduled (t.outbound.perform op)).send answers) : Served s header u := by
  subst hu
  refine { h.served with outbound := ⟨answers, ha, Or.inr ⟨op, hop, ?_, ?_⟩⟩ }
  · rw [← h.outbound]
    rfl
  · rw [← h.outbound, ← h.sent]
    rfl

theorem handleSettings_handles (ho : frame.header.type = .settings) :
    Handles s frame dispatch (s.handleSettings frame.header frame.payload order) := by
  have hk : Other frame.header.type := ho ▸ by decide
  unfold H2Session.handleSettings
  refine .branch (fun _ => .error) (fun _ => .branch (fun _ => ?_) (fun _ => ?_))
  · split
    · exact .failed rfl
    · exact .served (.refl s _) hk
  refine .branch (fun _ => .error) (fun _ => ?_)
  have hs : Configured frame.header s { s with receivedInitialSettings := true } :=
    ⟨{ Served.refl s frame.header with state := Or.inl rfl }, rfl, rfl, rfl⟩
  have hl := hs.trans (applySettings_configured frame.header _ frame.payload)
  generalize H2Session.applySettings { s with receivedInitialSettings := true } frame.payload =
    applied at hl
  obtain ⟨t, valid⟩ := applied
  dsimp only at hl ⊢
  refine .branch (fun _ => .failed hl.served.dispatched) (fun _ => ?_)
  refine .branch (fun _ => .failed hl.served.dispatched) (fun _ => ?_)
  have hop : peerOperation frame.header (.applyPeerSettings t.remoteSettingsInitialWindowSize
      t.remoteSettingsMaximumFrameSize t.remoteSettingsHeaderTableSize.toNat order) = true := by
    simp [peerOperation, ho]
  refine .served (hl.scheduled hop ?_ rfl) hk
  intro answer ha
  rw [List.mem_singleton.mp ha]
  exact Or.inl rfl

theorem handleWindowUpdate_handles (ho : frame.header.type = .windowUpdate) :
    Handles s frame dispatch (s.handleWindowUpdate frame.header frame.payload order) := by
  have hk : Other frame.header.type := ho ▸ by decide
  have hs : ∀ op, peerOperation frame.header op = true →
      Served s frame.header (s.scheduled (s.outbound.perform op)) := by
    intro op hop
    exact (Configured.refl frame.header s).scheduled hop (show ∀ frame ∈ [], _ by simp) (by simp [H2Session.send])
  unfold H2Session.handleWindowUpdate
  refine .branch (fun _ => .error) (fun _ => .branch (fun _ => .error) (fun _ => ?_))
  refine .branch (fun _ => ?_) (fun _ => ?_)
  · dsimp only [Handles]
    split
    · exact .served (hs (.updateConnectionWindow _ order) (by simp [peerOperation, ho])) hk
    · exact .failed rfl
  · dsimp only [Handles]
    split
    · exact .failed rfl
    · exact .served (hs (.updateStreamWindow frame.header.streamId _)
        (by simp [peerOperation, ho])) hk

theorem handlePing_handles (ho : frame.header.type = .ping) :
    Handles s frame dispatch (s.handlePing frame.header frame.payload) := by
  have hk : Other frame.header.type := ho ▸ by decide
  unfold H2Session.handlePing
  refine .branch (fun _ => .error) (fun _ => .branch (fun _ => .served (.refl s _) hk)
    (fun _ => ?_))
  refine .served { Served.refl s frame.header with outbound := ⟨_, ?_, Or.inl ⟨rfl, rfl⟩⟩ } hk
  intro answer ha
  rw [List.mem_singleton.mp ha]
  exact Or.inr rfl

theorem handleGoaway_handles (ho : frame.header.type = .goaway) :
    Handles s frame dispatch (s.handleGoaway frame.header) := by
  have hk : Other frame.header.type := ho ▸ by decide
  unfold H2Session.handleGoaway
  refine .branch (fun _ => .error) (fun _ => .served ?_ hk)
  exact { Served.refl s frame.header with state := Or.inr rfl }

theorem headerStream_heads (ht : header.type = .headers ∨ header.type = .continuation)
    (h : s.headerStream header = some (t, stream)) : Heads s header t stream := by
  unfold H2Session.headerStream at h
  split at h
  · rename_i hc
    split at h
    · rename_i he
      obtain ⟨found, hf, heq⟩ := Option.map_eq_some_iff.mp h
      cases heq
      exact .continues hc hf he
    · cases h
  · rename_i hnot
    split at h
    · cases h
    rename_i hid
    split at h
    · cases h
    rename_i hr
    cases h
    obtain ⟨hodd, hre⟩ := not_or.mp hid
    obtain ⟨hn, hfr⟩ := not_or.mp hre
    refine .opens (ht.resolve_right hnot) (not_not.mp hodd) (UInt32.not_le.mp hn) ?_
      (Nat.not_le.mp hr)
    cases hl : s.streams.lookup header.streamId with
    | none => rfl
    | some old => simp [hl] at hfr

/-- What `GetOrCreateStream` and the look-up of a CONTINUATION leave alone, and
the stream they find. -/
structure Found (s : H2Session) (header : FrameHeader) (t : H2Session) (stream : H2Stream) :
    Prop where
  connectionId : t.connectionId = s.connectionId
  config : t.config = s.config
  decoder : t.hpackDecoder = s.hpackDecoder
  state : t.state = s.state
  window : t.connectionRecvWindow = s.connectionRecvWindow
  sent : t.sent = s.sent
  dispatched : t.dispatched = s.dispatched
  key : stream.streamId = header.streamId
  nonzero : header.streamId ≠ 0
  here : t.streams.lookup header.streamId = some stream
  last : header.streamId ≤ t.lastStreamId
  opened : stream.state ≠ .closed
  undispatched : stream.dispatched = false
  incomplete : stream.headersComplete = false
  others : ∀ id, id ≠ header.streamId → t.streams.lookup id = s.streams.lookup id

theorem Heads.found (h : Heads s header t stream) (hs : Sound s) : Found s header t stream := by
  cases h with
  | opens type odd newer fresh room =>
    have hn : header.streamId ≠ 0 := by
      intro hz
      rw [hz] at odd
      cases odd
    exact ⟨rfl, rfl, rfl, rfl, rfl, rfl, rfl, rfl, hn, AList.lookup_insert _,
      UInt32.le_refl _, by simp, rfl, rfl, fun id hne => AList.lookup_insert_ne hne⟩
  | continues type found expected =>
    have he := hs.entry _ _ found
    obtain ⟨stream', hf, hi⟩ := hs.continuing _ expected
    cases found.symm.trans hf
    exact ⟨rfl, rfl, rfl, rfl, rfl, rfl, rfl, he.key, he.nonzero, found, he.seen,
      he.opened, he.undispatched, hi, fun _ _ => rfl⟩

theorem Assembles.type (h : Assembles s frame t stream) :
    frame.header.type = .headers ∨ frame.header.type = .continuation := by
  cases h with
  | fragment heads cut =>
    cases heads with
    | opens type => exact Or.inl type
    | continues type => exact Or.inr type

theorem Assembles.found (h : Assembles s frame t stream)
    (hs : Sound s) : Found s frame.header t stream := by
  cases h with
  | @fragment t old fragment heads cut =>
    have hf := heads.found hs
    have hkey : (old.appendHeaderFragment frame.header fragment).streamId =
        frame.header.streamId := hf.key
    refine { hf with here := ?_, others := ?_ }
    · rw [← hkey]
      exact AList.lookup_insert _
    · intro id hne
      have hne' : id ≠ (old.appendHeaderFragment frame.header fragment).streamId := by
        rw [hkey]
        exact hne
      exact (AList.lookup_insert_ne hne').trans (hf.others id hne)

/-- `DispatchRequest` on a stream that has everything. -/
theorem dispatchRequest_dispatches
    (hl : t.streams.lookup id = some stream) (hkey : stream.streamId = id)
    (hr : stream.request = some request) (hc : stream.headersComplete = true)
    (he : stream.endStream = true) (hnew : stream.dispatched = false) :
    Dispatches t stream request dispatch (t.dispatchRequest id dispatch).1
      (t.dispatchRequest id dispatch).2 := by
  subst hkey
  unfold H2Session.dispatchRequest
  simp only [hl, hr, hc, he, hnew, Bool.not_true, Bool.or_self, Bool.false_eq_true, if_false]
  cases dispatch with
  | accepted => exact .accepted
  | executorStopped => exact .stopped
  | executorSaturated => exact .saturated

theorem finishHeaders_handles (hs : Sound s)
    (h : Assembles s frame t stream) (hla : frame.header.has .endHeaders = true) :
    Handles s frame dispatch
      ({ t with continuationStreamId := none }.finishHeaders stream dispatch) := by
  have hf := h.found hs
  unfold H2Session.finishHeaders
  obtain ⟨decoder, result, hd⟩ :
      ∃ decoder result, s.hpackDecoder.decode stream.headerBlock = (decoder, result) := ⟨_, _, rfl⟩
  simp only [hf.decoder, hd]
  cases result with
  | error thrown =>
    dsimp only
    rw [hf.key]
    exact .garbled h hla hd
  | ok decoded =>
    dsimp only
    cases ha : assembleRequest t.connectionId stream.streamId decoded with
    | none => exact .failed hf.dispatched
    | some a =>
      rw [hf.connectionId, hf.key] at ha
      dsimp only
      refine .branch (fun hc => ?_) (fun _ => .failed hf.dispatched)
      unfold H2Session.acceptRequest
      refine .branch (fun he => ?_) (fun hu => ?_)
      · refine .asked h hla hd ha hc he ?_
        have hl : AList.lookup stream.streamId (H2Session.setStream
            { t with continuationStreamId := none, hpackDecoder := decoder }
            (requestStored stream a.request)).streams = some (requestStored stream a.request) :=
          AList.lookup_insert _
        exact dispatchRequest_dispatches hl rfl rfl rfl he hf.undispatched
      · exact .headed h hla hd ha hc (Bool.eq_false_iff.mpr hu)

theorem handleHeaders_handles (hs : Sound s)
    (ht : frame.header.type = .headers ∨ frame.header.type = .continuation) :
    Handles s frame dispatch (s.handleHeaders frame.header frame.payload dispatch) := by
  unfold H2Session.handleHeaders
  refine .branch (fun _ => .error) (fun _ => ?_)
  cases hst : s.headerStream frame.header with
  | none => exact .error
  | some pair =>
    obtain ⟨t, stream⟩ := pair
    have hh := headerStream_heads ht hst
    have hf := hh.found hs
    dsimp only
    refine .branch (fun hc => absurd hc hf.opened) (fun _ => ?_)
    cases hcut : headerFragment frame.header frame.payload with
    | none => exact .failed hf.dispatched
    | some fragment =>
      have ha : Assembles s frame _ _ := .fragment hh hcut
      have hi : (stream.appendHeaderFragment frame.header fragment).headersComplete =
          false := hf.incomplete
      dsimp only
      unfold H2Session.continueHeaders
      refine .branch (fun hl => ?_) (fun hm => ?_)
      · dsimp only
        rw [hi]
        exact finishHeaders_handles hs ha hl
      · exact .partly ha (Bool.eq_false_iff.mpr hm)

theorem replenishConnection_eq :
    s.replenishConnection = { s with
      connectionRecvWindow := refilled s.config.initialWindowSize s.connectionRecvWindow
      sent := s.sent ++ topUp s.config.initialWindowSize 0 s.connectionRecvWindow } := by
  unfold H2Session.replenishConnection refilled topUp
  split
  · rfl
  · simp

theorem replenishStream_eq : s.replenishStream stream =
      { s with
        streams := s.streams.insert stream.streamId
          { stream with recvWindow := refilled s.config.initialWindowSize stream.recvWindow }
        sent := s.sent ++ topUp s.config.initialWindowSize stream.streamId stream.recvWindow } := by
  unfold H2Session.replenishStream refilled topUp
  split
  · have hsum : stream.recvWindow + (s.config.initialWindowSize - stream.recvWindow) =
        s.config.initialWindowSize := by
      rw [UInt32.add_comm, UInt32.sub_add_cancel]
    simp only [hsum]
    rfl
  · simp [H2Session.setStream]

/-- The two windows are debited, then replenished. -/
theorem dataReceived_eq :
    { s with
      connectionRecvWindow := s.connectionRecvWindow - header.length
      }.replenishConnection.replenishStream { stream with
        recvWindow := stream.recvWindow - header.length
        body := stream.body ++ data
        endStream := header.has .endStream
        state := if header.has .endStream then .halfClosedRemote else stream.state } =
      dataReceived s stream header data := by
  rw [replenishConnection_eq, replenishStream_eq]
  simp [dataReceived, dataStored]

theorem handleData_handles (hs : Sound s) (ht : frame.header.type = .data) :
    Handles s frame dispatch (s.handleData frame.header frame.payload dispatch) := by
  unfold H2Session.handleData
  refine .branch (fun _ => .error) (fun hz => ?_)
  cases hf : s.streams.lookup frame.header.streamId with
  | none => exact .error
  | some stream =>
    have he := hs.entry _ _ hf
    dsimp only
    refine .branch (fun _ => .error) (fun ho => ?_)
    have hco : stream.headersComplete = true := by
      cases hc : stream.headersComplete with
      | true => rfl
      | false => simp [hc] at ho
    cases hra : dataRange frame.header frame.payload with
    | none => exact .error
    | some range =>
      obtain ⟨offset, size⟩ := range
      dsimp only
      refine .branch (fun _ => .failed rfl) (fun hfl => ?_)
      obtain ⟨hst, hcn⟩ := not_or.mp hfl
      have hd : Delivers s frame stream offset size :=
        ⟨ht, hz, hf, hco, hra, UInt32.not_lt.mp hst, UInt32.not_lt.mp hcn⟩
      refine .branch (fun hov => .delivered (.overrun hd hov)) (fun hfi => ?_)
      rw [dataReceived_eq]
      refine .branch (fun hen => ?_) (fun hu => ?_)
      · obtain ⟨request, hr⟩ := Option.isSome_iff_exists.mp (he.requested.trans hco)
        refine .delivered (.completed hd hfi hen hr ?_)
        have hl : (dataReceived s stream frame.header
            (slice frame.payload offset (offset + size))).streams.lookup frame.header.streamId =
              some (dataStored s.config.initialWindowSize stream frame.header
                (slice frame.payload offset (offset + size))) := by
          rw [← he.key]
          exact AList.lookup_insert _
        exact dispatchRequest_dispatches hl he.key hr hco hen he.undispatched
      · exact .delivered (.stored hd hfi (Bool.eq_false_iff.mpr hu))

/-- Every frame is handled in one of these ways. -/
theorem consumeFrame_handles (hs : Sound s) :
    Handles s frame dispatch (s.consumeFrame frame order dispatch) := by
  unfold H2Session.consumeFrame
  refine .branch (fun _ => .failed rfl) (fun _ => .branch (fun _ => .failed rfl) (fun _ => ?_))
  refine .branch (fun _ => .failed rfl) (fun _ => ?_)
  refine .branch (fun h => handleSettings_handles h) (fun _ => ?_)
  refine .branch (fun h => handleHeaders_handles hs h) (fun hh => ?_)
  refine .branch (fun h => handleData_handles hs h) (fun hd => ?_)
  refine .branch (fun h => ?_) (fun hr => ?_)
  · exact .branch (fun _ => .error) (fun _ => .reset h)
  have ho : Other frame.header.type :=
    ⟨fun h => hh (Or.inl h), fun h => hh (Or.inr h), hd, hr⟩
  refine .branch (fun h => handleWindowUpdate_handles h) (fun _ => ?_)
  refine .branch (fun h => handlePing_handles h) (fun _ => ?_)
  refine .branch (fun h => handleGoaway_handles h) (fun _ => ?_)
  refine .branch (fun _ => ?_) (fun _ => .branch (fun _ => .error) (fun _ => ?_))
  · dsimp only [Handles]
    split
    · exact .failed rfl
    · exact .served (.refl s _) ho
  · exact .served (.refl s _) ho

/-- While a header block is under way, only its CONTINUATION frames are let in. -/
def Expected (s : H2Session) (header : FrameHeader) : Prop :=
  ∀ id, s.continuationStreamId = some id → header.type = .continuation ∧ header.streamId = id

theorem passed_check [Decidable c] {a b : H2Session × ProtocolFeedStatus}
    (h : (if c then a else b).2 ≠ .protocolError) (ha : a.2 = .protocolError) :
    ¬ c ∧ b.2 ≠ .protocolError := by
  by_cases hc : c
  · rw [if_pos hc] at h
    exact absurd ha h
  · rw [if_neg hc] at h
    exact ⟨hc, h⟩

structure Admitted (s : H2Session) (header : FrameHeader) : Prop where
  size : header.length ≤ s.config.maximumFrameSize
  settled : header.type ≠ .settings → s.receivedInitialSettings = true
  expected : Expected s header

theorem consumeFrame_admitted
    (h : (s.consumeFrame frame order dispatch).2 ≠ .protocolError) : Admitted s frame.header := by
  unfold H2Session.consumeFrame at h
  obtain ⟨hsi, hs⟩ := passed_check h rfl
  obtain ⟨hse, hb⟩ := passed_check hs rfl
  obtain ⟨hg, -⟩ := passed_check hb rfl
  refine ⟨UInt32.not_lt.mp hsi, ?_, ?_⟩
  · intro ht
    simpa [ht] using hse
  · intro id hid
    rw [hid, Option.any_some, Bool.not_eq_true, Bool.or_eq_false_iff] at hg
    exact ⟨by simpa using hg.1, by simpa using hg.2⟩

theorem Sound.Entry.moved (h : Sound.Entry s id stream) (hl : s.lastStreamId ≤ t.lastStreamId)
    (hc : stream.headersComplete = true) : Sound.Entry t id stream where
  key := h.key
  nonzero := h.nonzero
  seen := UInt32.le_trans h.seen hl
  opened := h.opened
  undispatched := h.undispatched
  requested := h.requested
  unended := h.unended
  assembling := by
    intro hi
    rw [hc] at hi
    cases hi

theorem Sound.others (hs : Sound s) (he : Expected s frame.header)
    (hl : s.streams.lookup id = some stream) (hne : id ≠ frame.header.streamId) :
    stream.headersComplete = true := by
  cases hc : stream.headersComplete with
  | true => rfl
  | false => exact absurd (he id ((hs.entry id stream hl).assembling hc)).2.symm hne

theorem Sound.complete (hs : Sound s) (hn : s.continuationStreamId = none)
    (hl : s.streams.lookup id = some stream) : stream.headersComplete = true := by
  cases hc : stream.headersComplete with
  | true => rfl
  | false =>
    rw [(hs.entry id stream hl).assembling hc] at hn
    cases hn

theorem Expected.none (h : Expected s frame.header) (ht : frame.header.type ≠ .continuation) :
    s.continuationStreamId = none := by
  cases hid : s.continuationStreamId with
  | none => rfl
  | some id => exact absurd (h id hid).1 ht

theorem Sound.same (h : Sound s) (hs : t.streams = s.streams)
    (hla : t.lastStreamId = s.lastStreamId)
    (hco : t.continuationStreamId = s.continuationStreamId) : Sound t := by
  refine ⟨?_, ?_⟩
  · intro id stream hl
    rw [hs] at hl
    have he := h.entry id stream hl
    exact { he with
      seen := hla ▸ he.seen
      assembling := fun hc => hco.trans (he.assembling hc) }
  · intro id hid
    rw [hs]
    exact h.continuing id (hco.symm.trans hid)

/-- Outside header blocks a session is sound if its entries are. -/
theorem Sound.settled (hn : t.continuationStreamId = none)
    (he : ∀ id stream, t.streams.lookup id = some stream → Sound.Entry t id stream) :
    Sound t := by
  refine ⟨he, ?_⟩
  intro id hid
  rw [hn] at hid
  cases hid

theorem Heads.last_le (h : Heads s header t stream) : s.lastStreamId ≤ t.lastStreamId := by
  cases h with
  | opens type odd newer fresh room => exact UInt32.le_of_lt newer
  | continues => exact UInt32.le_refl _

theorem Assembles.last_le (h : Assembles s frame t stream) : s.lastStreamId ≤ t.lastStreamId := by
  cases h with
  | @fragment t old fragment heads cut => exact heads.last_le

/-- Streams that survive the end of a header block other than their own. -/
theorem Assembles.other_entry
    (h : Assembles s frame t stream) (hs : Sound s) (he : Expected s frame.header)
    (hla : t.lastStreamId = u.lastStreamId)
    (hne : id ≠ frame.header.streamId) (hl : t.streams.lookup id = some other) :
    Sound.Entry u id other := by
  rw [(h.found hs).others id hne] at hl
  exact (hs.entry id other hl).moved (hla ▸ h.last_le) (hs.others he hl hne)

theorem Dispatches.fields (h : Dispatches s stream request dispatch t status) :
    t.streams = s.streams.erase stream.streamId ∧ t.lastStreamId = s.lastStreamId ∧
      t.continuationStreamId = s.continuationStreamId ∧ t.state = s.state := by
  cases h <;> exact ⟨rfl, rfl, rfl, rfl⟩

/-- A stream whose block is under way has no request yet. -/
theorem Assembles.unrequested (h : Assembles s frame t stream)
    (hs : Sound s) : stream.request.isSome = false := by
  cases h with
  | fragment heads cut =>
    cases heads with
    | opens => rfl
    | continues type found expected =>
      obtain ⟨stream', hf, hi⟩ := hs.continuing _ expected
      cases found.symm.trans hf
      exact (hs.entry _ _ found).requested.trans hi

/-- A session that erased the stream of the frame: every other stream is complete. -/
theorem Assembles.erased (h : Assembles s frame t stream)
    (hs : Sound s) (he : Expected s frame.header)
    (hst : ∀ id other, u.streams.lookup id = some other →
      id ≠ frame.header.streamId ∧ t.streams.lookup id = some other)
    (hla : t.lastStreamId = u.lastStreamId) (hn : u.continuationStreamId = none) : Sound u := by
  apply Sound.settled hn
  intro id other hl
  obtain ⟨hne, hold⟩ := hst id other hl
  exact h.other_entry hs he hla hne hold

theorem Delivered.type (h : Delivered s frame dispatch t status) : frame.header.type = .data := by
  cases h with
  | overrun delivers => exact delivers.type
  | stored delivers => exact delivers.type
  | completed delivers => exact delivers.type

theorem Delivered.sound (h : Delivered s frame dispatch t status) (hs : Sound s)
    (hn : s.continuationStreamId = none) : Sound t := by
  cases h with
  | @overrun stream offset size delivers beyond =>
    refine Sound.settled (t := s.closeStream frame.header.streamId) hn ?_
    intro id other hl
    have hold := (Maps.of_lookup_erase hl).2
    exact (hs.entry id other hold).moved (UInt32.le_refl _) (hs.complete hn hold)
  | @stored stream offset size delivers fits unended =>
    have he := hs.entry _ _ delivers.found
    refine Sound.settled (t := dataReceived s stream frame.header _) hn ?_
    intro id other hl
    rcases Maps.of_lookup_insert hl with ⟨rfl, rfl⟩ | ⟨hne, hold⟩
    · refine ⟨rfl, ?_, ?_, ?_, he.undispatched, he.requested, fun _ => unended, ?_⟩
      · exact he.key ▸ he.nonzero
      · exact he.key ▸ he.seen
      · simp only [dataStored, unended]
        exact he.opened
      · intro hc
        exact absurd (delivers.complete.symm.trans hc) (by decide)
    · exact (hs.entry id other hold).moved (UInt32.le_refl _) (hs.complete hn hold)
  | @completed t stream request offset size status delivers fits ended asked dispatches =>
    obtain ⟨hst, hla, hco, -⟩ := dispatches.fields
    apply Sound.settled (hco.trans hn)
    intro id other hl
    rw [hst] at hl
    obtain ⟨hne, hl⟩ := Maps.of_lookup_erase hl
    rcases Maps.of_lookup_insert hl with ⟨rfl, -⟩ | ⟨-, hold⟩
    · exact absurd rfl hne
    · exact (hs.entry id other hold).moved (UInt32.le_of_eq hla.symm) (hs.complete hn hold)

theorem Handled.sound (hs : Sound s) (he : Expected s frame.header)
    (h : Handled s frame dispatch t status)
    (hsta : status ≠ .protocolError) : Sound t := by
  cases h with
  | failed => exact absurd rfl hsta
  | served served other => exact hs.same served.streams served.last served.continuation
  | reset type =>
    have hn := he.none (by rw [type]; decide)
    refine Sound.settled (t := s.closeStream frame.header.streamId) hn ?_
    intro id stream hl
    have hold := (Maps.of_lookup_erase hl).2
    exact (hs.entry id stream hold).moved (UInt32.le_refl _) (hs.complete hn hold)
  | @partly t stream assembles more =>
    have hf := assembles.found hs
    refine ⟨?_, ?_⟩
    · intro id other hl
      by_cases hk : id = frame.header.streamId
      · subst hk
        cases hf.here.symm.trans hl
        refine ⟨hf.key, hf.nonzero, hf.last, hf.opened, hf.undispatched, ?_, ?_, fun _ => rfl⟩
        · rw [hf.incomplete]
          exact assembles.unrequested hs
        · intro hc
          rw [hf.incomplete] at hc
          cases hc
      · refine assembles.other_entry hs he ?_ hk hl
        rfl
    · intro id hid
      cases hid
      exact ⟨stream, hf.here, hf.incomplete⟩
  | @garbled t stream decoder thrown assembles last decode =>
    exact assembles.erased hs he (fun id other hl => Maps.of_lookup_erase hl) rfl rfl
  | @headed t stream decoder decoded a assembles last decode assembled complete unended =>
    have hf := assembles.found hs
    apply Sound.settled rfl
    intro id other hl
    rcases Maps.of_lookup_insert hl with ⟨rfl, rfl⟩ | ⟨hne, hold⟩
    · refine ⟨rfl, ?_, ?_, ?_, hf.undispatched, rfl, fun _ => unended, ?_⟩
      · exact hf.key ▸ hf.nonzero
      · exact hf.key ▸ hf.last
      · simp [requestStored, unended]
      · intro hc
        cases hc
    · have hne' : id ≠ frame.header.streamId := by
        rw [← hf.key]
        exact hne
      refine assembles.other_entry hs he ?_ hne' hold
      rfl
  | @asked t u stream decoder decoded a status assembles last decode assembled complete ended
      dispatches =>
    have hf := assembles.found hs
    obtain ⟨hst, hla, hn, -⟩ := dispatches.fields
    refine assembles.erased hs he ?_ hla.symm hn
    intro id other hl
    rw [hst] at hl
    obtain ⟨hne, hl⟩ := Maps.of_lookup_erase hl
    rcases Maps.of_lookup_insert hl with ⟨rfl, -⟩ | ⟨-, hold⟩
    · exact absurd rfl hne
    · exact ⟨fun heq => hne (heq.trans hf.key.symm), hold⟩
  | delivered delivered =>
    have hn := he.none (by rw [delivered.type]; decide)
    exact delivered.sound hs hn

end Frames

end IocpRuntime.Proofs.SessionFrames
