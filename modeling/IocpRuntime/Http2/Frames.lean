import IocpRuntime.Buffer.Sequence

namespace IocpRuntime.Http2
open Lib Buffer

/-- The decoder casts an arbitrary octet to `FrameType`, so all 256 values occur. -/
structure FrameType where
  octet : UInt8
  deriving DecidableEq, Repr

namespace FrameType
def data : FrameType := ⟨0x00⟩
def headers : FrameType := ⟨0x01⟩
def priority : FrameType := ⟨0x02⟩
def rstStream : FrameType := ⟨0x03⟩
def settings : FrameType := ⟨0x04⟩
def pushPromise : FrameType := ⟨0x05⟩
def ping : FrameType := ⟨0x06⟩
def goaway : FrameType := ⟨0x07⟩
def windowUpdate : FrameType := ⟨0x08⟩
def continuation : FrameType := ⟨0x09⟩
end FrameType

/-- Flag octets; `EndStream` and `Ack` share a bit. -/
inductive FrameFlags where
  | none | endStream | ack | endHeaders | padded | priority
  deriving DecidableEq, Repr

def FrameFlags.octet : FrameFlags → UInt8
  | .none => 0x00
  | .endStream => 0x01
  | .ack => 0x01
  | .endHeaders => 0x04
  | .padded => 0x08
  | .priority => 0x20

inductive ErrorCode where
  | noError | protocolError | internalError | flowControlError | settingsTimeout
  | streamClosed | frameSizeError | refusedStream | cancel | compressionError
  | connectError | enhanceYourCalm | inadequateSecurity | http11Required
  deriving DecidableEq, Repr

def ErrorCode.code : ErrorCode → UInt32
  | .noError => 0x00
  | .protocolError => 0x01
  | .internalError => 0x02
  | .flowControlError => 0x03
  | .settingsTimeout => 0x04
  | .streamClosed => 0x05
  | .frameSizeError => 0x06
  | .refusedStream => 0x07
  | .cancel => 0x08
  | .compressionError => 0x09
  | .connectError => 0x0a
  | .enhanceYourCalm => 0x0b
  | .inadequateSecurity => 0x0c
  | .http11Required => 0x0d

structure FrameHeader where
  length : UInt32 := 0
  type : FrameType := .data
  flags : UInt8 := 0
  streamId : UInt32 := 0
  deriving DecidableEq, Repr

def FrameHeader.has (header : FrameHeader) (flag : FrameFlags) : Bool :=
  header.flags &&& flag.octet != 0

/-- A frame on its way to or from the wire: its header and its payload. -/
structure Frame where
  header : FrameHeader
  payload : Octets
  deriving DecidableEq, Repr

def kHeaderSize : Nat := 9

def kPreface : Octets := octets "PRI * HTTP/2.0\r\n\r\nSM\r\n\r\n"

def makeUint32 (b0 b1 b2 b3 : UInt8) : UInt32 := bigEndian b0 b1 b2 b3

/-- `FrameCodec::DecodeHeader`; `none` is the `false` result on short input. -/
def decodeHeader (input : BufferSequence) : Except Thrown (Option FrameHeader) :=
  if input.size < kHeaderSize then .ok none
  else do
    let b0 ← input.byteAt 0
    let b1 ← input.byteAt 1
    let b2 ← input.byteAt 2
    let b3 ← input.byteAt 3
    let b4 ← input.byteAt 4
    let b5 ← input.byteAt 5
    let b6 ← input.byteAt 6
    let b7 ← input.byteAt 7
    let b8 ← input.byteAt 8
    -- octets 5 and 6 enter at bits 8 and 0, next to octets 7 and 8
    let streamId := makeUint32 0 0 (b5 &&& 0x7f) b6 ||| (b7.toUInt32 <<< 8) |||
      (b8.toUInt32 <<< 0)
    return some {
      length := makeUint32 0 b0 b1 b2
      type := ⟨b3⟩
      flags := b4
      streamId := streamId &&& 0x7fffffff }

def encodeHeader (header : FrameHeader) : Octets :=
  [((header.length >>> 16) &&& 0xff).toUInt8,
   ((header.length >>> 8) &&& 0xff).toUInt8,
   (header.length &&& 0xff).toUInt8,
   header.type.octet,
   header.flags,
   ((header.streamId >>> 24) &&& 0x7f).toUInt8,
   ((header.streamId >>> 16) &&& 0xff).toUInt8,
   ((header.streamId >>> 8) &&& 0xff).toUInt8,
   (header.streamId &&& 0xff).toUInt8]

/-- The octets handed to the frame sender: the encoded header, then the payload. -/
def Frame.octets (frame : Frame) : Octets := encodeHeader frame.header ++ frame.payload

def wordOctets (value : UInt32) : Octets :=
  [((value >>> 24) &&& 0xff).toUInt8, ((value >>> 16) &&& 0xff).toUInt8,
   ((value >>> 8) &&& 0xff).toUInt8, (value &&& 0xff).toUInt8]

def encodeSettings (settings : List (UInt16 × UInt32)) : Frame :=
  let payload := settings.flatMap (fun (id, value) =>
    [((id >>> 8) &&& 0xff).toUInt8, (id &&& 0xff).toUInt8] ++ wordOctets value)
  { header := { type := .settings, streamId := 0, length := UInt32.ofNat payload.length }
    payload := payload }

def encodeGoaway (lastStreamId : UInt32) (errorCode : ErrorCode) (debugData : Octets) : Frame :=
  let payload := wordOctets (lastStreamId &&& 0x7fffffff) ++ wordOctets errorCode.code ++ debugData
  { header := { type := .goaway, streamId := 0, length := UInt32.ofNat payload.length }
    payload := payload }

/-- `FrameCodec::EncodeRstStream`: the payload only. -/
def encodeRstStream (errorCode : ErrorCode) : Octets := wordOctets errorCode.code

def encodePing (data : UInt64) (ack : Bool) : Frame :=
  let payload := [56, 48, 40, 32, 24, 16, 8, 0].map (fun shift : UInt64 =>
    ((data >>> shift) &&& 0xff).toUInt8)
  { header := {
      type := .ping, streamId := 0
      flags := if ack then FrameFlags.ack.octet else 0
      length := UInt32.ofNat payload.length }
    payload := payload }

/-- `FrameCodec::EncodeWindowUpdate`: the payload only. -/
def encodeWindowUpdate (increment : UInt32) : Octets := wordOctets (increment &&& 0x7fffffff)

/-- What the head of `H2Session::ConsumeFrame` makes of the readable octets. -/
inductive FrameCut where
  | needMore
  | protocolError
  | frame (frame : Frame) (rest : BufferSequence)

/-- `H2Session::ConsumeFrame` up to `receive_buffer_.Consume(frame_total)`. -/
def cutFrame (maximumFrameSize : UInt32) (readable : BufferSequence) : Except Thrown FrameCut :=
  if readable.size < kHeaderSize then .ok .needMore
  else do
    match ← decodeHeader readable with
    | none => return .protocolError
    | some header =>
      let frameTotal := kHeaderSize + header.length.toNat
      if header.length > maximumFrameSize then return .protocolError
      else if readable.size < frameTotal then return .needMore
      else
        let payload ←
          if header.length = 0 then pure [] else readable.copyTo kHeaderSize header.length.toNat
        return .frame ⟨header, payload⟩ (readable.consume frameTotal)

/-- The frames a connected session cuts off its buffer, and the octets it keeps. -/
def splitFrames (maximumFrameSize : UInt32) : Nat → BufferSequence →
    Except Thrown (List Frame × Octets)
  | 0, input => .ok ([], input.bytes)
  | fuel + 1, input => do
    match ← cutFrame maximumFrameSize input with
    | .frame frame rest =>
      let (frames, left) ← splitFrames maximumFrameSize fuel rest
      return (frame :: frames, left)
    | _ => return ([], input.bytes)

end IocpRuntime.Http2
