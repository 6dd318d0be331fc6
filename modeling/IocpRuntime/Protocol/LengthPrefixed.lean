import IocpRuntime.Buffer.RingReceiveBuffer
import IocpRuntime.Http.Router

/-! The sample protocol: messages behind a length field, their codec, the dispatcher of their
handlers and the session that reads them off a stream. -/

namespace IocpRuntime.Protocol
open Lib Buffer Execution Http

structure SampleMessage where
  id : UInt16 := 0
  payload : Octets := []
  deriving DecidableEq, Repr

inductive FrameDecodeStatus where
  | incomplete | complete | error
  deriving DecidableEq, Repr

inductive FrameDecodeError where
  | none | bodyTooSmall | payloadTooLarge
  deriving DecidableEq, Repr

structure FrameDecodeResult where
  status : FrameDecodeStatus := .incomplete
  error : FrameDecodeError := .none
  consumedBytes : Nat := 0
  message : SampleMessage := {}
  deriving DecidableEq, Repr

namespace LengthPrefixed

def kLengthPrefixBytes : Nat := 4
def kMessageIdBytes : Nat := 2
def kFrameOverheadBytes : Nat := kLengthPrefixBytes + kMessageIdBytes

def validateMaximumPayload (maximumPayloadBytes : UInt64) : Except Thrown Unit :=
  if maximumPayloadBytes.toNat > 2 ^ 32 - 1 - kFrameOverheadBytes then
    .error (.invalidArgument "sample protocol payload 상한이 wire length 범위를 넘습니다")
  else .ok ()

def readBigEndian32 (input : BufferSequence) (offset : Nat) : Except Thrown UInt32 := do
  let b0 ← input.byteAt offset
  let b1 ← input.byteAt (offset + 1)
  let b2 ← input.byteAt (offset + 2)
  let b3 ← input.byteAt (offset + 3)
  return bigEndian b0 b1 b2 b3

def readBigEndian16 (input : BufferSequence) (offset : Nat) : Except Thrown UInt16 := do
  let b0 ← input.byteAt offset
  let b1 ← input.byteAt (offset + 1)
  return (b0.toUInt16 <<< 8) ||| b1.toUInt16

def writeBigEndian32 (value : UInt32) : Octets :=
  [((value >>> 24) &&& 0xff).toUInt8, ((value >>> 16) &&& 0xff).toUInt8,
    ((value >>> 8) &&& 0xff).toUInt8, (value &&& 0xff).toUInt8]

def writeBigEndian16 (value : UInt16) : Octets :=
  [((value >>> 8) &&& 0xff).toUInt8, (value &&& 0xff).toUInt8]

/-- `LengthPrefixedFrameDecoder::Decode`. -/
def decode (maximumPayloadBytes : UInt64) (input : BufferSequence) :
    Except Thrown FrameDecodeResult := do
  if input.size < kLengthPrefixBytes then return {}
  let bodyBytes := (← readBigEndian32 input 0).toNat
  if bodyBytes < kMessageIdBytes then return { status := .error, error := .bodyTooSmall }
  let payloadBytes := bodyBytes - kMessageIdBytes
  if payloadBytes > maximumPayloadBytes.toNat then
    return { status := .error, error := .payloadTooLarge }
  let totalBytes := kLengthPrefixBytes + bodyBytes
  if input.size < totalBytes then return {}
  let id ← readBigEndian16 input kLengthPrefixBytes
  let payload ← input.copyTo kFrameOverheadBytes payloadBytes
  return { status := .complete, consumedBytes := totalBytes, message := { id, payload } }

/-- `LengthPrefixedFrameEncoder::Encode`. -/
def encode (maximumPayloadBytes : UInt64) (messageId : UInt16) (payload : Octets) :
    Except Thrown Octets :=
  if payload.length > maximumPayloadBytes.toNat then
    .error (.lengthError "sample protocol payload가 설정된 상한을 넘습니다")
  else
    let bodyBytes := kMessageIdBytes + payload.length
    .ok (writeBigEndian32 (UInt32.ofNat bodyBytes) ++ writeBigEndian16 messageId ++ payload)

end LengthPrefixed

inductive DispatchStatus where
  | accepted | handlerNotFound | executorStopped | executorSaturated
  deriving DecidableEq, Repr

/-- A task is a handler with its message; `posted` are those the executor has accepted. -/
structure SampleDispatcher (η : Type) where
  handlers : AList (fun _ : UInt16 => η) := ∅
  posted : List (η × SampleMessage) := []

namespace SampleDispatcher

variable {η : Type}

/-- An empty `std::function` is `none`. -/
def register (d : SampleDispatcher η) (messageId : UInt16) (handler : Option η) :
    Except Thrown (Bool × SampleDispatcher η) :=
  match handler with
  | none => .error (.invalidArgument "sample protocol handler는 비어 있을 수 없습니다")
  | some handler =>
    if (d.handlers.lookup messageId).isSome then .ok (false, d)
    else .ok (true, { d with handlers := d.handlers.insert messageId handler })

/-- `submit` is the answer of the executor. -/
def dispatch (d : SampleDispatcher η) (submit : SubmitStatus) (message : SampleMessage) :
    DispatchStatus × SampleDispatcher η :=
  match d.handlers.lookup message.id with
  | none => (.handlerNotFound, d)
  | some handler =>
    match submit with
    | .accepted => (.accepted, { d with posted := d.posted ++ [(handler, message)] })
    | .stopped => (.executorStopped, d)
    | .saturated => (.executorSaturated, d)

end SampleDispatcher

structure LengthPrefixedSessionOptions where
  initialBufferBytes : UInt64 := 256
  maximumBufferBytes : UInt64 := 64 * 1024
  maximumPayloadBytes : UInt64 := 60 * 1024
  deriving DecidableEq, Repr

structure LengthPrefixedSession (η : Type) where
  dispatcher : SampleDispatcher η
  receiveBuffer : RingReceiveBuffer
  maximumPayloadBytes : UInt64
  stopped : Bool := false
  lastDecodeError : FrameDecodeError := .none

namespace LengthPrefixedSession

open LengthPrefixed

variable {η : Type}

def kWireOverheadBytes : Nat := 6

def toFeedStatus : DispatchStatus → ProtocolFeedStatus
  | .accepted => .ready
  | .handlerNotFound => .handlerNotFound
  | .executorStopped => .executorStopped
  | .executorSaturated => .executorSaturated

/-- A null pointer is `none`. -/
def create (dispatcher : Option (SampleDispatcher η)) (options : LengthPrefixedSessionOptions) :
    Except Thrown (LengthPrefixedSession η) := do
  let receiveBuffer ← RingReceiveBuffer.create options.initialBufferBytes options.maximumBufferBytes
  validateMaximumPayload options.maximumPayloadBytes
  match dispatcher with
  | none => .error (.invalidArgument "LengthPrefixedSession에는 dispatcher가 필요합니다")
  | some dispatcher =>
    if options.maximumBufferBytes.toNat < kWireOverheadBytes ∨
        options.maximumPayloadBytes.toNat > options.maximumBufferBytes.toNat - kWireOverheadBytes then
      .error (.invalidArgument "receive buffer 상한이 최대 sample frame보다 작습니다")
    else
      .ok { dispatcher, receiveBuffer, maximumPayloadBytes := options.maximumPayloadBytes }

variable (s : LengthPrefixedSession η)

def fail (status : ProtocolFeedStatus) (messagesDispatched : Nat) :
    Except Thrown ProtocolFeedResult × LengthPrefixedSession η :=
  (.ok { status, messagesDispatched, bufferedBytes := s.receiveBuffer.readableBytes },
    { s with stopped := true })

/-- An exception in the loop stops the session. -/
def caught (error : Thrown) : Except Thrown ProtocolFeedResult × LengthPrefixedSession η :=
  (.error error, { s with stopped := true })

/-- The executor answers the `k`-th task with `submit k`. A message takes octets off the buffer. -/
def feedLoop (submit : Nat → SubmitStatus) :
    Nat → LengthPrefixedSession η → Nat → Except Thrown ProtocolFeedResult × LengthPrefixedSession η
  | 0, s, messagesDispatched =>
    (.ok { messagesDispatched, bufferedBytes := s.receiveBuffer.readableBytes }, s)
  | rounds + 1, s, messagesDispatched =>
    match decode s.maximumPayloadBytes s.receiveBuffer.readableSequence with
    | .error e => s.caught e
    | .ok decoded =>
      match decoded.status with
      | .incomplete =>
        (.ok { messagesDispatched, bufferedBytes := s.receiveBuffer.readableBytes }, s)
      | .error => { s with lastDecodeError := decoded.error }.fail .protocolError messagesDispatched
      | .complete =>
        let (status, dispatcher) := s.dispatcher.dispatch (submit messagesDispatched) decoded.message
        if status ≠ .accepted then
          { s with dispatcher }.fail (toFeedStatus status) messagesDispatched
        else
          match s.receiveBuffer.consume decoded.consumedBytes with
          | .error e => { s with dispatcher }.caught e
          | .ok receiveBuffer =>
            feedLoop submit rounds { s with dispatcher, receiveBuffer } (messagesDispatched + 1)

def feed (bytes : Octets) (submit : Nat → SubmitStatus) :
    Except Thrown ProtocolFeedResult × LengthPrefixedSession η :=
  if s.stopped then
    (.ok { status := .stopped, bufferedBytes := s.receiveBuffer.readableBytes }, s)
  else
    match s.receiveBuffer.append bytes with
    | .error e => (.error e, s)
    | .ok (.limitExceeded, receiveBuffer) => { s with receiveBuffer }.fail .bufferLimitExceeded 0
    | .ok (.ready, receiveBuffer) =>
      feedLoop submit (receiveBuffer.readableBytes + 1) { s with receiveBuffer } 0

end LengthPrefixedSession

end IocpRuntime.Protocol
