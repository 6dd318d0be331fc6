import IocpRuntime.Http2.Session

namespace IocpRuntime.Http2
open Lib Buffer Http

/-- What the head of `ConsumeFrame` makes of its readable octets, wherever the
ring splits them. -/
inductive Cut where
  | needMore
  | protocolError
  | frame (frame : Frame) (rest : Octets)

/-- The frame header in the first nine octets. -/
def headerOf (readable : Octets) : FrameHeader where
  length := makeUint32 0 (readable.getD 0 0) (readable.getD 1 0) (readable.getD 2 0)
  type := ⟨readable.getD 3 0⟩
  flags := readable.getD 4 0
  streamId :=
    (makeUint32 0 0 (readable.getD 5 0 &&& 0x7f) (readable.getD 6 0) |||
      ((readable.getD 7 0).toUInt32 <<< 8) ||| ((readable.getD 8 0).toUInt32 <<< 0)) &&& 0x7fffffff

def cutOctets (maximumFrameSize : UInt32) (readable : Octets) : Cut :=
  if readable.length < kHeaderSize then .needMore
  else
    let header := headerOf readable
    let frameTotal := kHeaderSize + header.length.toNat
    if header.length > maximumFrameSize then .protocolError
    else if readable.length < frameTotal then .needMore
    else .frame ⟨header, slice readable kHeaderSize frameTotal⟩ (readable.drop frameTotal)

namespace H2Session

/-- A frame as the session meets it. -/
structure Arrival where
  before : H2Session
  frame : Frame
  order : List UInt32
  dispatch : HttpDispatchStatus

def Arrival.outcome (arrival : Arrival) : H2Session × ProtocolFeedStatus :=
  arrival.before.receive arrival.frame arrival.order arrival.dispatch

def Arrival.after (arrival : Arrival) : H2Session := arrival.outcome.1

def Arrival.status (arrival : Arrival) : ProtocolFeedStatus := arrival.outcome.2

end H2Session

/-- Responses that handlers submit one after the other. -/
def H2Session.answered (s : H2Session) (answers : List (UInt32 × HttpResponse)) : H2Session :=
  answers.foldl (fun s answer => s.handle (.respond answer.1 answer.2)) s

open H2Session (Arrival)

/-- What the process decides around a frame: responses, the hash map's order, the router's answer.
-/
structure Surroundings where
  answers : List (UInt32 × HttpResponse) := []
  order : List UInt32 := []
  dispatch : HttpDispatchStatus := .accepted

/-- The surroundings may depend on everything that arrived before. -/
abbrev Environment := List Arrival → Surroundings

/-- A session with its receive buffer, as the readable octets of the ring, and
with the frames it has taken off the buffer so far. -/
structure Endpoint where
  session : H2Session
  receiveBuffer : Octets := []
  arrivals : List Arrival := []

namespace Endpoint

def create (connectionId : Nat) (config : H2ConnectionConfig) : Except Thrown Endpoint := do
  return { session := ← H2Session.create connectionId config }

/-- `FailConnection`, which also clears the buffer. -/
def failConnection (e : Endpoint) (errorCode : ErrorCode) : Endpoint :=
  { e with session := e.session.failConnection errorCode, receiveBuffer := [] }

/-- The state `ConsumePreface` and `ConsumeFrame` set before a `ProtocolError`. -/
def closing (e : Endpoint) : Endpoint := { e with session := { e.session with state := .closing } }

/-- One round of the loop of `Feed`: it goes on, or `Feed` returns. -/
inductive Round where
  | goesOn (e : Endpoint)
  | returns (e : Endpoint) (status : ProtocolFeedStatus)

/-- `ConsumePreface`: as many octets as there are must agree with the preface. -/
def prefaceRound (e : Endpoint) : Round :=
  if !(e.receiveBuffer.zip kPreface).all (fun (octet, expected) => octet == expected) then
    .returns (e.closing.failConnection .protocolError) .closeRequired
  else if e.receiveBuffer.length < kPreface.length then .returns e .ready
  else .goesOn { e with
    session := e.session.acceptPreface
    receiveBuffer := e.receiveBuffer.drop kPreface.length }

/-- What `Feed` does with a frame that is off the buffer: a failed connection
loses its buffer, a closing one keeps the rest of it. -/
def frameRound (e : Endpoint) (arrival : Arrival) (rest : Octets) : Round :=
  let e := { e with session := arrival.after, receiveBuffer := rest
                    arrivals := e.arrivals ++ [arrival] }
  match arrival.status with
  | .closeRequired => .returns { e with receiveBuffer := [] } .closeRequired
  | .ready =>
    if e.session.state = .closing ∨ e.session.state = .closed then .returns e .ready
    else .goesOn e
  | status => .returns e status

def round (environment : Environment) (e : Endpoint) : Round :=
  match e.session.state with
  | .expectPreface => e.prefaceRound
  | .connected =>
    match cutOctets e.session.config.maximumFrameSize e.receiveBuffer with
    | .needMore => .returns e .ready
    | .protocolError => .returns (e.closing.failConnection .protocolError) .closeRequired
    | .frame frame rest =>
      let around := environment e.arrivals
      e.frameRound ⟨e.session.answered around.answers, frame, around.order, around.dispatch⟩ rest
  | .closing => .returns e .ready
  | .closed => .returns e .ready

/-- The `while` of `Feed`; a round that goes on has taken octets off the buffer. -/
def loop (environment : Environment) : Nat → Endpoint → Endpoint × ProtocolFeedStatus
  | 0, e => (e, .ready)
  | rounds + 1, e =>
    if e.receiveBuffer = [] then (e, .ready)
    else
      match e.round environment with
      | .goesOn e => loop environment rounds e
      | .returns e status => (e, status)

/-- `RingReceiveBuffer::Append` fails. -/
def overflows (e : Endpoint) (bytes : Octets) : Bool :=
  bytes.length > e.session.config.maximumReceiveBufferSize - e.receiveBuffer.length

def feed (environment : Environment) (e : Endpoint) (bytes : Octets) :
    Endpoint × ProtocolFeedStatus :=
  if e.session.state = .closed then (e, .stopped)
  else if e.overflows bytes then (e.failConnection .enhanceYourCalm, .closeRequired)
  else
    loop environment (e.receiveBuffer.length + bytes.length)
      { e with receiveBuffer := e.receiveBuffer ++ bytes }

def feeds (environment : Environment) (e : Endpoint) (pieces : List Octets) : Endpoint :=
  pieces.foldl (fun e piece => (e.feed environment piece).1) e

/-- `Feed` holds the session's mutex, so only responses come between its frames. -/
inductive Input where
  | feed (bytes : Octets) (environment : Environment)
  | respond (streamId : UInt32) (response : HttpResponse)
  | sendGoaway (errorCode : ErrorCode)
  | close

/-- `Close` leaves the receive buffer as it is. -/
def handle (e : Endpoint) : Input → Endpoint
  | .feed bytes environment => (e.feed environment bytes).1
  | .respond streamId response =>
    { e with session := e.session.handle (.respond streamId response) }
  | .sendGoaway errorCode => { e with session := e.session.handle (.sendGoaway errorCode) }
  | .close => { e with session := e.session.handle .close }

end Endpoint

/-- The statuses on which the receive handler of `HttpServer::OnAccepted` closes
the connection. -/
def closesConnection : ProtocolFeedStatus → Bool
  | .executorStopped | .executorSaturated | .handlerNotFound | .closeRequired | .stopped => true
  | .ready | .bufferLimitExceeded | .protocolError => false

end IocpRuntime.Http2
