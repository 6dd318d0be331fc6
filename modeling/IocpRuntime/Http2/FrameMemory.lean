import IocpRuntime.Http2.Session
import IocpRuntime.Lib.Faults

/-! The frame handlers of `H2Session` as they address the payload, with their unsigned
subtractions. The octets a handler has read are passed on to the session's. -/

namespace IocpRuntime.Http2.FrameMemory
open Lib Lib.Faults Http

abbrev Access := Checked Empty

/-- Subtraction of 32-bit words. -/
def minusWord (a b : UInt32) : Access UInt32 := if b ≤ a then pure (a - b) else fault

/-- Subtraction in a comparison that is made only if `small` holds. -/
def exceedsRest (small : Bool) (size total part : Nat) : Access Bool :=
  if small then do
    let left ← minus total part
    pure (decide (size > left))
  else pure true

/-- The loop of `HandleSettings`; it would fault if it ran on after its last round. -/
def applySettings (payload : Octets) (length : Nat) :
    Nat → Nat → H2Session → Access (H2Session × Bool)
  | 0, _, _ => fault
  | rounds + 1, i, s =>
    if i + 6 ≤ length then do
      let setting ← span payload i 6
      let applied := s.applySettings setting
      if applied.2 then applySettings payload length rounds (i + 6) applied.1 else pure applied
    else pure (s, true)

def handleSettings (s : H2Session) (header : FrameHeader) (payload : Octets)
    (order : List UInt32) : Access (H2Session × ProtocolFeedStatus) :=
  if header.streamId ≠ 0 then pure (s, .protocolError)
  else if header.has .ack then pure (s, if header.length ≠ 0 then .protocolError else .ready)
  else if header.length % 6 ≠ 0 then pure (s, .protocolError)
  else do
    let length := header.length.toNat
    let applied ← applySettings payload length (length + 1) 0
      { s with receivedInitialSettings := true }
    let s := applied.1
    if !applied.2 then pure (s, .protocolError)
    else
      let outcome := s.outbound.applyPeerSettings s.remoteSettingsInitialWindowSize
        s.remoteSettingsMaximumFrameSize s.remoteSettingsHeaderTableSize.toNat order
      let s := s.scheduled outcome
      pure <| if !outcome.result then (s, .protocolError)
        else (s.send [⟨{ type := .settings, flags := FrameFlags.ack.octet }, []⟩], .ready)

def padLength (payload : Octets) (padded : Bool) : Access Nat :=
  if padded then do
    let octet ← fetch payload 0
    pure octet.toNat
  else pure 0

def headerFragment (header : FrameHeader) (payload : Octets) : Access (Option Octets) :=
  let length := header.length.toNat
  let plain := header.type == FrameType.continuation
  let padded := !plain && header.has .padded
  if padded && length == 0 then pure none
  else do
    let pad ← padLength payload padded
    let payloadOffset := (if padded then 1 else 0) +
      if !plain && header.has .priority then 5 else 0
    let refused ← exceedsRest (decide (payloadOffset ≤ length)) pad length payloadOffset
    if refused then pure none
    else do
      let left ← minus length payloadOffset
      let headerSize ← minus left pad
      let fragment ← span payload payloadOffset headerSize
      pure (some fragment)

def handleHeaders (s : H2Session) (header : FrameHeader) (payload : Octets)
    (dispatch : HttpDispatchStatus) : Access (H2Session × ProtocolFeedStatus) :=
  if header.streamId = 0 then pure (s, .protocolError)
  else
    match s.headerStream header with
    | none => pure (s, .protocolError)
    | some (s, stream) =>
      if stream.state = .closed then pure (s.sendRstStream header.streamId .streamClosed, .ready)
      else do
        let fragment ← headerFragment header payload
        pure <| match fragment with
          | none => (s, .protocolError)
          | some fragment =>
            s.continueHeaders header (stream.appendHeaderFragment header fragment) dispatch

def dataRange (header : FrameHeader) (payload : Octets) : Access (Option (Nat × Nat)) :=
  let length := header.length.toNat
  let padded := header.has .padded
  if padded && length == 0 then pure none
  else do
    let pad ← padLength payload padded
    let payloadOffset := if padded then 1 else 0
    let left ← minus length payloadOffset
    if pad > left then pure none
    else do
      let dataSize ← minus left pad
      pure (some (payloadOffset, dataSize))

def replenishConnection (s : H2Session) : Access H2Session :=
  if s.connectionRecvWindow < s.config.initialWindowSize / 2 then do
    let increment ← minusWord s.config.initialWindowSize s.connectionRecvWindow
    pure { s.sendWindowUpdate 0 increment with connectionRecvWindow := s.config.initialWindowSize }
  else pure s

def replenishStream (s : H2Session) (stream : H2Stream) : Access H2Session :=
  if stream.recvWindow < s.config.initialWindowSize / 2 then do
    let increment ← minusWord s.config.initialWindowSize stream.recvWindow
    pure ((s.setStream { stream with recvWindow := stream.recvWindow + increment }).sendWindowUpdate
      stream.streamId increment)
  else pure (s.setStream stream)

/-- `HandleData` from the checks of flow control on. -/
def takeData (s : H2Session) (stream : H2Stream) (header : FrameHeader) (payload : Octets)
    (payloadOffset dataSize : Nat) (dispatch : HttpDispatchStatus) :
    Access (H2Session × ProtocolFeedStatus) :=
  if header.length > stream.recvWindow ∨ header.length > s.connectionRecvWindow then
    pure (s.closeStream header.streamId, .protocolError)
  else do
    let maximum := s.config.maximumRequestBodySize
    let exceeds ← exceedsRest (decide (dataSize ≤ maximum)) stream.body.length maximum dataSize
    if exceeds then pure (s.closeStream header.streamId, .bufferLimitExceeded)
    else do
      let recvWindow ← minusWord stream.recvWindow header.length
      let connectionRecvWindow ← minusWord s.connectionRecvWindow header.length
      let data ← span payload payloadOffset dataSize
      let ended := header.has .endStream
      let s ← replenishConnection { s with connectionRecvWindow := connectionRecvWindow }
      let s ← replenishStream s { stream with
        recvWindow := recvWindow
        body := stream.body ++ data
        endStream := ended
        state := if ended then .halfClosedRemote else stream.state }
      pure (if ended then s.dispatchRequest header.streamId dispatch else (s, .ready))

def handleData (s : H2Session) (header : FrameHeader) (payload : Octets)
    (dispatch : HttpDispatchStatus) : Access (H2Session × ProtocolFeedStatus) :=
  if header.streamId = 0 then pure (s, .protocolError)
  else
    match s.streams.lookup header.streamId with
    | none => pure (s, .protocolError)
    | some stream =>
      if !stream.headersComplete || stream.endStream || stream.state == .closed then
        pure (s, .protocolError)
      else do
        let range ← dataRange header payload
        match range with
        | none => pure (s, .protocolError)
        | some (payloadOffset, dataSize) =>
          takeData s stream header payload payloadOffset dataSize dispatch

/-- The octets are read and not used. -/
def handleRstStream (s : H2Session) (header : FrameHeader) (payload : Octets) :
    Access (H2Session × ProtocolFeedStatus) :=
  if header.streamId = 0 ∨ header.length ≠ 4 then pure (s, .protocolError)
  else do
    let _ ← span payload 0 4
    pure (s.handleRstStream header)

def handleWindowUpdate (s : H2Session) (header : FrameHeader) (payload : Octets)
    (order : List UInt32) : Access (H2Session × ProtocolFeedStatus) :=
  if header.length ≠ 4 then pure (s, .protocolError)
  else do
    let increment ← span payload 0 4
    pure (s.handleWindowUpdate header increment order)

def handlePing (s : H2Session) (header : FrameHeader) (payload : Octets) :
    Access (H2Session × ProtocolFeedStatus) :=
  if header.streamId ≠ 0 ∨ header.length ≠ 8 then pure (s, .protocolError)
  else if header.has .ack then pure (s, .ready)
  else do
    let data ← span payload 0 8
    pure (s.handlePing header data)

/-- The octet is read and not used. -/
def handleGoaway (s : H2Session) (header : FrameHeader) (payload : Octets) :
    Access (H2Session × ProtocolFeedStatus) :=
  if header.streamId ≠ 0 ∨ header.length < 8 then pure (s, .protocolError)
  else do
    let _ ← fetch payload 0
    pure (s.handleGoaway header)

end IocpRuntime.Http2.FrameMemory
