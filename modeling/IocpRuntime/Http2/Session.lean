import IocpRuntime.Http.Router
import IocpRuntime.Http2.Outbound

namespace IocpRuntime.Http2
open Lib Buffer Http

inductive StreamState where
  | idle | reservedLocal | reservedRemote | opened | halfClosedLocal | halfClosedRemote | closed
  deriving DecidableEq, Repr

inductive H2ConnectionState where
  | expectPreface | connected | closing | closed
  deriving DecidableEq, Repr

structure H2Stream where
  streamId : UInt32
  state : StreamState := .idle
  recvWindow : UInt32
  headerBlock : Octets := []
  body : Octets := []
  endStream : Bool := false
  headersComplete : Bool := false
  dispatched : Bool := false
  request : Option HttpRequest := none
  deriving DecidableEq, Repr

def H2Stream.create (streamId initialWindowSize : UInt32) : H2Stream :=
  { streamId := streamId, recvWindow := initialWindowSize }

structure H2ConnectionConfig where
  initialReceiveBufferSize : Nat := 4096
  maximumReceiveBufferSize : Nat := 1024 * 1024
  maximumRequestBodySize : Nat := 1024 * 1024
  maximumConcurrentStreams : Nat := 100
  initialWindowSize : UInt32 := 65535
  maximumFrameSize : UInt32 := 16384
  maximumHeaderListSize : UInt32 := 16384
  headerTableSize : UInt32 := 4096
  deriving DecidableEq, Repr

def H2ConnectionConfig.hpackOptions (config : H2ConnectionConfig) : HpackOptions where
  maximumDynamicTableSize := config.headerTableSize.toNat
  maximumHeaderListSize := config.maximumHeaderListSize.toNat

/-- `sent` and `dispatched` list what went to the frame sender and, accepted, to the router. -/
structure H2Session where
  connectionId : Nat
  config : H2ConnectionConfig
  outbound : H2OutboundScheduler
  hpackDecoder : HpackCodec
  state : H2ConnectionState := .expectPreface
  lastStreamId : UInt32 := 0
  remoteSettingsHeaderTableSize : UInt32 := 4096
  remoteSettingsInitialWindowSize : UInt32 := 65535
  remoteSettingsMaximumFrameSize : UInt32 := 16384
  connectionRecvWindow : UInt32 := 65535
  receivedInitialSettings : Bool := false
  continuationStreamId : Option UInt32 := none
  streams : AList (fun _ : UInt32 => H2Stream) := ∅
  sent : List Frame := []
  dispatched : List HttpRequest := []

/-- The request under assembly in `HandleHeaders`. -/
structure Assembly where
  request : HttpRequest
  hasMethod : Bool := false
  hasPath : Bool := false
  sawRegularHeader : Bool := false
  deriving DecidableEq, Repr

/-- One round of the loop over the decoded fields; `none` is `ProtocolError`. -/
def Assembly.add (a : Assembly) (hdr : HttpHeader) : Option Assembly :=
  if hdr.name = [] then none
  else
    let pseudo := hdr.name.head? == some 58
    if pseudo && a.sawRegularHeader then none
    else
      let a := { a with sawRegularHeader := a.sawRegularHeader || !pseudo }
      if hdr.name = octets ":method" then
        if a.hasMethod then none
        else some { a with
          request := { a.request with method := parseMethod hdr.value, methodText := hdr.value }
          hasMethod := true }
      else if hdr.name = octets ":path" then
        if a.hasPath then none
        else
          let request := match find hdr.value 63 with
            | some query => { a.request with
                target := hdr.value
                path := hdr.value.take query
                query := hdr.value.drop (query + 1) }
            | none => { a.request with target := hdr.value, path := hdr.value }
          some { a with request := request, hasPath := true }
      else if hdr.name = octets ":authority" then
        some { a with request := { a.request with
          headers := a.request.headers ++ [⟨octets "host", hdr.value⟩] } }
      else if hdr.name = octets ":scheme" then some a
      else if pseudo then none
      else if hdr.name.any (fun c => 65 ≤ c && c ≤ 90) then none
      else some { a with request := { a.request with headers := a.request.headers ++ [hdr] } }

/-- The request `HandleHeaders` makes of a decoded field list, if it has no complaint. -/
def assembleRequest (connectionId : Nat) (streamId : UInt32) (decoded : List HttpHeader) :
    Option Assembly :=
  decoded.foldlM Assembly.add
    { request := { connectionId := connectionId, requestId := streamId.toNat } }

def Assembly.complete (a : Assembly) : Bool :=
  a.hasMethod && a.hasPath && a.request.method != .unsupported

/-- The header block fragment of a HEADERS or CONTINUATION payload, without
padding and priority fields; `none` is `ProtocolError`. -/
def headerFragment (header : FrameHeader) (payload : Octets) : Option Octets :=
  let length := header.length.toNat
  let plain := header.type == FrameType.continuation
  let padded := !plain && header.has .padded
  if padded && length == 0 then none
  else
    let padLength := if padded then (payload.getD 0 0).toNat else 0
    let payloadOffset := (if padded then 1 else 0) +
      if !plain && header.has .priority then 5 else 0
    if payloadOffset > length || padLength > length - payloadOffset then none
    else some (slice payload payloadOffset (length - padLength))

/-- The stream with a fragment; only a HEADERS frame can end the stream. -/
def H2Stream.appendHeaderFragment (stream : H2Stream) (header : FrameHeader) (fragment : Octets) :
    H2Stream :=
  { stream with
    headerBlock := stream.headerBlock ++ fragment
    endStream := stream.endStream || (header.type != .continuation && header.has .endStream) }

/-- Offset and size of the data in a DATA payload; `none` is `ProtocolError`. -/
def dataRange (header : FrameHeader) (payload : Octets) : Option (Nat × Nat) :=
  let length := header.length.toNat
  let padded := header.has .padded
  if padded && length == 0 then none
  else
    let padLength := if padded then (payload.getD 0 0).toNat else 0
    let payloadOffset := if padded then 1 else 0
    if padLength > length - payloadOffset then none
    else some (payloadOffset, length - payloadOffset - padLength)

namespace H2Session

def create (connectionId : Nat) (config : H2ConnectionConfig) : Except Thrown H2Session := do
  let outbound ← H2OutboundScheduler.create config.initialWindowSize config.maximumFrameSize
    config.hpackOptions
  if config.initialReceiveBufferSize = 0 ∨
      config.initialReceiveBufferSize > config.maximumReceiveBufferSize ∨
      config.maximumRequestBodySize = 0 then
    throw (.invalidArgument "HTTP/2 buffer limits are invalid")
  return {
    connectionId := connectionId
    config := config
    outbound := outbound
    hpackDecoder := HpackCodec.create config.hpackOptions
    connectionRecvWindow := config.initialWindowSize }

def send (s : H2Session) (frames : List Frame) : H2Session := { s with sent := s.sent ++ frames }

/-- The session after a call of its scheduler. -/
def scheduled (s : H2Session) (outcome : H2OutboundScheduler.Outcome) : H2Session :=
  { s with outbound := outcome.scheduler, sent := s.sent ++ outcome.frames }

def setStream (s : H2Session) (stream : H2Stream) : H2Session :=
  { s with streams := s.streams.insert stream.streamId stream }

def closeStream (s : H2Session) (streamId : UInt32) : H2Session :=
  { s with streams := s.streams.erase streamId, outbound := s.outbound.closeStream streamId }

def sendRstStream (s : H2Session) (streamId : UInt32) (errorCode : ErrorCode) : H2Session :=
  let payload := encodeRstStream errorCode
  s.send [⟨{ type := .rstStream, streamId := streamId, length := UInt32.ofNat payload.length },
    payload⟩]

def sendWindowUpdate (s : H2Session) (streamId increment : UInt32) : H2Session :=
  let payload := encodeWindowUpdate increment
  s.send [⟨{ type := .windowUpdate, streamId := streamId, length := UInt32.ofNat payload.length },
    payload⟩]

/-- `DispatchRequest`; `dispatch` is the router's answer. -/
def dispatchRequest (s : H2Session) (streamId : UInt32) (dispatch : HttpDispatchStatus) :
    H2Session × ProtocolFeedStatus :=
  match s.streams.lookup streamId with
  | none => (s, .protocolError)
  | some stream =>
    match stream.request with
    | none => (s, .protocolError)
    | some request =>
      if !stream.headersComplete || !stream.endStream || stream.dispatched then (s, .protocolError)
      else
        match dispatch with
        | .accepted =>
          ({ s with
              dispatched := s.dispatched ++ [{ request with body := stream.body }]
              streams := s.streams.erase streamId }, .ready)
        | .executorSaturated => (s.closeStream streamId, .executorSaturated)
        | .executorStopped => (s.closeStream streamId, .executorStopped)

/-- The stream a frame belongs to; HEADERS opens it. `none` is `ProtocolError`. -/
def headerStream (s : H2Session) (header : FrameHeader) : Option (H2Session × H2Stream) :=
  if header.type = .continuation then
    if s.continuationStreamId = some header.streamId then
      (s.streams.lookup header.streamId).map (fun stream => (s, stream))
    else none
  else if header.streamId % 2 ≠ 1 ∨ header.streamId ≤ s.lastStreamId ∨
      (s.streams.lookup header.streamId).isSome then none
  else if s.streams.entries.length ≥ s.config.maximumConcurrentStreams then none
  else
    let stream := { H2Stream.create header.streamId s.config.initialWindowSize with
      state := .opened }
    some ({ s.setStream stream with
      outbound := s.outbound.openStream header.streamId
      lastStreamId := header.streamId }, stream)

/-- `HandleHeaders` from `SetRequest` on. -/
def acceptRequest (s : H2Session) (stream : H2Stream) (request : HttpRequest)
    (dispatch : HttpDispatchStatus) : H2Session × ProtocolFeedStatus :=
  let s := s.setStream { stream with
    request := some request
    headersComplete := true
    state := if stream.endStream then .halfClosedRemote else .opened }
  if stream.endStream then s.dispatchRequest stream.streamId dispatch else (s, .ready)

/-- From `hpack_decoder_.Decode` on. The decoder stays as a throw left it. -/
def finishHeaders (s : H2Session) (stream : H2Stream) (dispatch : HttpDispatchStatus) :
    H2Session × ProtocolFeedStatus :=
  let (decoder, result) := s.hpackDecoder.decode stream.headerBlock
  let s := { s with hpackDecoder := decoder }
  match result with
  | .error _ =>
    ((s.sendRstStream stream.streamId .compressionError).closeStream stream.streamId, .ready)
  | .ok decoded =>
    match assembleRequest s.connectionId stream.streamId decoded with
    | none => (s, .protocolError)
    | some a =>
      if a.complete then s.acceptRequest stream a.request dispatch
      else (s.closeStream stream.streamId, .protocolError)

/-- `HandleHeaders` once the fragment is on the stream. -/
def continueHeaders (s : H2Session) (header : FrameHeader) (stream : H2Stream)
    (dispatch : HttpDispatchStatus) : H2Session × ProtocolFeedStatus :=
  let s := s.setStream stream
  if header.has .endHeaders then
    let s := { s with continuationStreamId := none }
    if stream.headersComplete then (s, .protocolError) else s.finishHeaders stream dispatch
  else ({ s with continuationStreamId := some header.streamId }, .ready)

def handleHeaders (s : H2Session) (header : FrameHeader) (payload : Octets)
    (dispatch : HttpDispatchStatus) : H2Session × ProtocolFeedStatus :=
  if header.streamId = 0 then (s, .protocolError)
  else
    match s.headerStream header with
    | none => (s, .protocolError)
    | some (s, stream) =>
      if stream.state = .closed then (s.sendRstStream header.streamId .streamClosed, .ready)
      else
        match headerFragment header payload with
        | none => (s, .protocolError)
        | some fragment =>
          s.continueHeaders header (stream.appendHeaderFragment header fragment) dispatch

/-- Setting identifiers `HandleSettings` acts on; `none` is `ProtocolError`. -/
def applySetting (s : H2Session) (id : UInt16) (value : UInt32) : Option H2Session :=
  if id = 1 then some { s with remoteSettingsHeaderTableSize := value }
  else if id = 4 then
    if value > 0x7fffffff then none else some { s with remoteSettingsInitialWindowSize := value }
  else if id = 5 then
    if value < 16384 ∨ value > 16777215 then none
    else some { s with remoteSettingsMaximumFrameSize := value }
  else if id = 6 then some { s with config := { s.config with maximumHeaderListSize := value } }
  else some s

/-- The loop of `HandleSettings` over six-octet entries. A value out of range
stops it with the settings before it applied. -/
def applySettings (s : H2Session) : Octets → H2Session × Bool
  | i0 :: i1 :: v0 :: v1 :: v2 :: v3 :: payload =>
    match s.applySetting ((i0.toUInt16 <<< 8) ||| i1.toUInt16) (bigEndian v0 v1 v2 v3) with
    | some s => s.applySettings payload
    | none => (s, false)
  | _ => (s, true)

theorem applySettings_rule {motive : H2Session → H2Session → Prop} (refl : ∀ s, motive s s)
    (trans : ∀ {s t u}, motive s t → motive t u → motive s u)
    (one : ∀ {s t id value}, s.applySetting id value = some t → motive s t) : motive s (s.applySettings payload).1 := by
  fun_induction H2Session.applySettings s payload with
  | case1 s i0 i1 v0 v1 v2 v3 payload t ht ih => exact trans (one ht) ih
  | case2 s => exact refl s
  | case3 payload s => exact refl s

def handleSettings (s : H2Session) (header : FrameHeader) (payload : Octets)
    (order : List UInt32) : H2Session × ProtocolFeedStatus :=
  if header.streamId ≠ 0 then (s, .protocolError)
  else if header.has .ack then (s, if header.length ≠ 0 then .protocolError else .ready)
  else if header.length % 6 ≠ 0 then (s, .protocolError)
  else
    let (s, valid) := { s with receivedInitialSettings := true }.applySettings payload
    if !valid then (s, .protocolError)
    else
      let outcome := s.outbound.applyPeerSettings s.remoteSettingsInitialWindowSize
        s.remoteSettingsMaximumFrameSize s.remoteSettingsHeaderTableSize.toNat order
      let s := s.scheduled outcome
      if !outcome.result then (s, .protocolError)
      else (s.send [⟨{ type := .settings, flags := FrameFlags.ack.octet }, []⟩], .ready)

def replenishConnection (s : H2Session) : H2Session :=
  if s.connectionRecvWindow < s.config.initialWindowSize / 2 then
    { s.sendWindowUpdate 0 (s.config.initialWindowSize - s.connectionRecvWindow) with
      connectionRecvWindow := s.config.initialWindowSize }
  else s

def replenishStream (s : H2Session) (stream : H2Stream) : H2Session :=
  if stream.recvWindow < s.config.initialWindowSize / 2 then
    let increment := s.config.initialWindowSize - stream.recvWindow
    (s.setStream { stream with recvWindow := stream.recvWindow + increment }).sendWindowUpdate
      stream.streamId increment
  else s.setStream stream

def handleData (s : H2Session) (header : FrameHeader) (payload : Octets)
    (dispatch : HttpDispatchStatus) : H2Session × ProtocolFeedStatus :=
  if header.streamId = 0 then (s, .protocolError)
  else
    match s.streams.lookup header.streamId with
    | none => (s, .protocolError)
    | some stream =>
      if !stream.headersComplete || stream.endStream || stream.state == .closed then
        (s, .protocolError)
      else
        match dataRange header payload with
        | none => (s, .protocolError)
        | some (payloadOffset, dataSize) =>
          if header.length > stream.recvWindow ∨ header.length > s.connectionRecvWindow then
            (s.closeStream header.streamId, .protocolError)
          else if dataSize > s.config.maximumRequestBodySize ∨
              stream.body.length > s.config.maximumRequestBodySize - dataSize then
            (s.closeStream header.streamId, .bufferLimitExceeded)
          else
            let ended := header.has .endStream
            let stream := { stream with
              recvWindow := stream.recvWindow - header.length
              body := stream.body ++ slice payload payloadOffset (payloadOffset + dataSize)
              endStream := ended
              state := if ended then .halfClosedRemote else stream.state }
            let s := { s with connectionRecvWindow := s.connectionRecvWindow - header.length }
            let s := s.replenishConnection.replenishStream stream
            if ended then s.dispatchRequest header.streamId dispatch else (s, .ready)

def handleRstStream (s : H2Session) (header : FrameHeader) : H2Session × ProtocolFeedStatus :=
  if header.streamId = 0 ∨ header.length ≠ 4 then (s, .protocolError)
  else (s.closeStream header.streamId, .ready)

def handleWindowUpdate (s : H2Session) (header : FrameHeader) (payload : Octets)
    (order : List UInt32) : H2Session × ProtocolFeedStatus :=
  if header.length ≠ 4 then (s, .protocolError)
  else
    let increment := bigEndian (payload.getD 0 0 &&& 0x7f) (payload.getD 1 0) (payload.getD 2 0)
      (payload.getD 3 0)
    if increment = 0 then (s, .protocolError)
    else if header.streamId = 0 then
      let outcome := s.outbound.updateConnectionWindow increment order
      (s.scheduled outcome, if outcome.result then .ready else .protocolError)
    else
      -- a stream that is gone is an error only if it was never opened
      let outcome := s.outbound.updateStreamWindow header.streamId increment
      (s.scheduled outcome,
        if !outcome.result && header.streamId > s.lastStreamId then .protocolError else .ready)

def handlePing (s : H2Session) (header : FrameHeader) (payload : Octets) :
    H2Session × ProtocolFeedStatus :=
  if header.streamId ≠ 0 ∨ header.length ≠ 8 then (s, .protocolError)
  else if header.has .ack then (s, .ready)
  else
    let data := (payload.take 8).foldl
      (fun (word : UInt64) octet => (word <<< 8) ||| octet.toUInt64) 0
    (s.send [encodePing data true], .ready)

def handleGoaway (s : H2Session) (header : FrameHeader) : H2Session × ProtocolFeedStatus :=
  if header.streamId ≠ 0 ∨ header.length < 8 then (s, .protocolError)
  else ({ s with state := .closing }, .ready)

/-- `ConsumeFrame` on a frame whose header `DecodeHeader` has read. -/
def consumeFrame (s : H2Session) (frame : Frame) (order : List UInt32)
    (dispatch : HttpDispatchStatus) : H2Session × ProtocolFeedStatus :=
  let header := frame.header
  if header.length > s.config.maximumFrameSize then ({ s with state := .closing }, .protocolError)
  else if !s.receivedInitialSettings && (header.type != .settings || header.has .ack) then
    ({ s with state := .closing }, .protocolError)
  else if s.continuationStreamId.any (fun id =>
      header.type != .continuation || header.streamId != id) then
    ({ s with state := .closing }, .protocolError)
  else if header.type = .settings then s.handleSettings header frame.payload order
  else if header.type = .headers ∨ header.type = .continuation then
    s.handleHeaders header frame.payload dispatch
  else if header.type = .data then s.handleData header frame.payload dispatch
  else if header.type = .rstStream then s.handleRstStream header
  else if header.type = .windowUpdate then s.handleWindowUpdate header frame.payload order
  else if header.type = .ping then s.handlePing header frame.payload
  else if header.type = .goaway then s.handleGoaway header
  else if header.type = .priority then
    (s, if header.streamId = 0 ∨ header.length ≠ 5 then .protocolError else .ready)
  else if header.type = .pushPromise then (s, .protocolError)
  else (s, .ready)

def failConnection (s : H2Session) (errorCode : ErrorCode) : H2Session :=
  let s := if s.state = .connected ∨ s.state = .closing then
      s.send [encodeGoaway s.lastStreamId errorCode []]
    else s
  { s with
    state := .closed
    streams := ∅
    continuationStreamId := none
    outbound := s.outbound.close }

@[simp] theorem failConnection_dispatched (s : H2Session) (errorCode : ErrorCode) :
    (s.failConnection errorCode).dispatched = s.dispatched := by
  unfold failConnection
  split <;> rfl

/-- One frame of a connected session's `Feed` loop, which stops for good once
the connection is closing. -/
def receive (s : H2Session) (frame : Frame) (order : List UInt32)
    (dispatch : HttpDispatchStatus) : H2Session × ProtocolFeedStatus :=
  if s.state ≠ .connected then (s, .ready)
  else
    match s.consumeFrame frame order dispatch with
    | (s, .protocolError) => (s.failConnection .protocolError, .closeRequired)
    | handled => handled

/-- The end of `ConsumePreface`, with `SendSettings`. -/
def acceptPreface (s : H2Session) : H2Session :=
  { s with state := .connected }.send [encodeSettings [
    (2, 0),
    (3, UInt32.ofNat s.config.maximumConcurrentStreams),
    (4, s.config.initialWindowSize),
    (5, s.config.maximumFrameSize),
    (6, s.config.maximumHeaderListSize)]]

/-- A frame arrives, more octets than the buffer takes, a handler answers, or the server ends it. -/
inductive Input where
  | frame (frame : Frame) (order : List UInt32) (dispatch : HttpDispatchStatus)
  | overflow
  | respond (streamId : UInt32) (response : HttpResponse)
  | sendGoaway (errorCode : ErrorCode)
  | close

def handle (s : H2Session) : Input → H2Session
  | .frame frame order dispatch => (s.receive frame order dispatch).1
  | .overflow => if s.state = .closed then s else s.failConnection .enhanceYourCalm
  | .respond streamId response => s.scheduled (s.outbound.submitResponse streamId response)
  | .sendGoaway errorCode =>
    if s.state ≠ .connected then s
    else { s with state := .closing }.send [encodeGoaway s.lastStreamId errorCode []]
  | .close => { s with state := .closed, streams := ∅, outbound := s.outbound.close }

end H2Session

end IocpRuntime.Http2
