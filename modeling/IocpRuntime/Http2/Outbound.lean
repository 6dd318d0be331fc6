import Mathlib.Data.List.AList
import IocpRuntime.Lib.Relay
import IocpRuntime.Http2.Frames
import IocpRuntime.Http2.Hpack

namespace IocpRuntime.Http2
open Lib Buffer Http

def kMaximumWindow : Nat := 0x7fffffff

def isConnectionSpecific (name : Octets) : Bool :=
  name == octets "connection" || name == octets "keep-alive" ||
    name == octets "proxy-connection" || name == octets "transfer-encoding" ||
    name == octets "upgrade"

structure StreamOutput where
  window : Int := 0
  body : Octets := []
  offset : Nat := 0
  responseSubmitted : Bool := false
  deriving DecidableEq, Repr

/-- `std::unordered_map<std::uint32_t, StreamOutput>`. -/
abbrev Streams := AList (fun _ : UInt32 => StreamOutput)

/-- The constructor's checks are fields; the encoder keeps the options it was built with. -/
structure H2OutboundScheduler where
  closed : Bool := false
  connectionWindow : Int := 65535
  initialWindowSize : Nat
  maximumFrameSize : Nat
  maximumEncoderTableSize : Nat
  encoder : HpackCodec
  streams : Streams := ∅
  windowChecked : initialWindowSize ≤ kMaximumWindow
  frameSizeChecked : 16384 ≤ maximumFrameSize ∧ maximumFrameSize ≤ 16777215
  encoderChecked : maximumEncoderTableSize ≤ encoder.options.maximumDynamicTableSize

/-- The window and frame size test of the constructor and of `ApplyPeerSettings`. -/
def settingsInRange (initialWindowSize maximumFrameSize : UInt32) : Prop :=
  initialWindowSize.toNat ≤ kMaximumWindow ∧
    16384 ≤ maximumFrameSize.toNat ∧ maximumFrameSize.toNat ≤ 16777215

instance (initialWindowSize maximumFrameSize : UInt32) :
    Decidable (settingsInRange initialWindowSize maximumFrameSize) :=
  inferInstanceAs (Decidable (_ ∧ _))

/-- What the locked part of `FlushStreamLocked` works on. -/
structure Flush where
  stream : StreamOutput
  connectionWindow : Int
  frames : List Frame

def Flush.dataFrame (streamId : UInt32) (stream : StreamOutput) (bytes : Nat) : Frame where
  header := {
    type := .data
    streamId := streamId
    length := UInt32.ofNat bytes
    flags := if stream.offset + bytes = stream.body.length then FrameFlags.endStream.octet else 0 }
  payload := slice stream.body stream.offset (stream.offset + bytes)

/-- The size of the next DATA frame: what is left of the body, the two windows
and the frame size bound it. -/
def Flush.bytes (maximumFrameSize : Nat) (flush : Flush) : Nat :=
  (min (min ((flush.stream.body.length - flush.stream.offset : Nat) : Int) flush.stream.window)
    (min flush.connectionWindow (maximumFrameSize : Int))).toNat

/-- The `while` of `FlushStreamLocked`; each round sends at least one octet. -/
def Flush.loop (streamId : UInt32) (maximumFrameSize : Nat) : Nat → Flush → Flush
  | 0, flush => flush
  | rounds + 1, flush =>
    if flush.stream.offset < flush.stream.body.length ∧ flush.stream.window > 0 ∧
        flush.connectionWindow > 0 then
      let bytes := flush.bytes maximumFrameSize
      Flush.loop streamId maximumFrameSize rounds {
        stream := { flush.stream with
          offset := flush.stream.offset + bytes
          window := flush.stream.window - bytes }
        connectionWindow := flush.connectionWindow - bytes
        frames := flush.frames ++ [Flush.dataFrame streamId flush.stream bytes] }
    else flush

/-- The result of `FlushStreamLocked`. -/
def Flush.finished (flush : Flush) : Bool := flush.stream.offset == flush.stream.body.length

/-- The header list `EncodeHeaderBlockLocked` encodes. -/
def responseHeaders (response : HttpResponse) : List HttpHeader :=
  ⟨octets ":status", octets (toString response.statusCode.toNat)⟩ ::
    (response.headers.map (fun header => { header with name := lowercase header.name })).filter
      (fun header => header.name ≠ [] ∧ header.name.head? ≠ some 58 ∧
        ¬ isConnectionSpecific header.name)

/-- The `do … while` of `EncodeHeaderBlockLocked`, from `offset` on. -/
def headerFrames (streamId : UInt32) (maximumFrameSize : Nat) (endStream : Bool)
    (block : Octets) : Nat → Nat → Bool → List Frame
  | 0, _, _ => []
  | rounds + 1, offset, first =>
    let bytes := min maximumFrameSize (block.length - offset)
    let last := offset + bytes == block.length
    let frame : Frame := {
      header := {
        type := if first then .headers else .continuation
        streamId := streamId
        length := UInt32.ofNat bytes
        flags := if last then
            (if endStream then FrameFlags.endHeaders.octet ||| FrameFlags.endStream.octet
             else FrameFlags.endHeaders.octet)
          else 0 }
      payload := slice block offset (offset + bytes) }
    if offset + bytes < block.length then
      frame :: headerFrames streamId maximumFrameSize endStream block rounds (offset + bytes) false
    else [frame]

namespace H2OutboundScheduler

def create (initialWindowSize maximumFrameSize : UInt32) (options : HpackOptions) :
    Except Thrown H2OutboundScheduler :=
  if h : settingsInRange initialWindowSize maximumFrameSize then
    .ok {
      initialWindowSize := initialWindowSize.toNat
      maximumFrameSize := maximumFrameSize.toNat
      maximumEncoderTableSize := options.maximumDynamicTableSize
      encoder := HpackCodec.create options
      windowChecked := h.1
      frameSizeChecked := h.2
      encoderChecked := Nat.le_refl _ }
  else .error (.invalidArgument "HTTP/2 outbound scheduler options are invalid")

/-- The state an operation leaves, its result, and the frames it sends after unlocking. -/
structure Outcome where
  scheduler : H2OutboundScheduler
  result : Bool := true
  frames : List Frame := []

def openStream (s : H2OutboundScheduler) (streamId : UInt32) : H2OutboundScheduler :=
  if s.closed then s
  else
    match s.streams.lookup streamId with
    | some _ => s
    | none => { s with streams := s.streams.insert streamId { window := s.initialWindowSize } }

def closeStream (s : H2OutboundScheduler) (streamId : UInt32) : H2OutboundScheduler :=
  { s with streams := s.streams.erase streamId }

def close (s : H2OutboundScheduler) : H2OutboundScheduler :=
  { s with closed := true, streams := ∅ }

/-- `FlushStreamLocked` on an entry of the map, which the callers erase when it
has finished. -/
def flushStreamLocked (s : H2OutboundScheduler) (streamId : UInt32) (stream : StreamOutput)
    (frames : List Frame) : H2OutboundScheduler × List Frame :=
  let flush := Flush.loop streamId s.maximumFrameSize (stream.body.length - stream.offset)
    { stream := stream, connectionWindow := s.connectionWindow, frames := frames }
  let streams := if flush.finished then s.streams.erase streamId
    else s.streams.insert streamId flush.stream
  ({ s with connectionWindow := flush.connectionWindow, streams := streams }, flush.frames)

/-- `FlushAllLocked`; `order` is the order in which the hash map lists its keys. -/
def flushAllLocked (s : H2OutboundScheduler) (frames : List Frame) :
    List UInt32 → H2OutboundScheduler × List Frame
  | [] => (s, frames)
  | streamId :: order =>
    match s.streams.lookup streamId with
    | none => flushAllLocked s frames order
    | some stream =>
      if stream.responseSubmitted then
        let (s, frames) := s.flushStreamLocked streamId stream frames
        flushAllLocked s frames order
      else flushAllLocked s frames order

def encodeHeaderBlockLocked (s : H2OutboundScheduler) (streamId : UInt32)
    (response : HttpResponse) (endStream : Bool) : H2OutboundScheduler × List Frame :=
  let encoded := s.encoder.encode (responseHeaders response)
  ({ s with
      encoder := encoded.1
      encoderChecked := by
        rw [HpackCodec.encode_options]
        exact s.encoderChecked },
    headerFrames streamId s.maximumFrameSize endStream encoded.2 (encoded.2.length + 1) 0 true)

def submitResponse (s : H2OutboundScheduler) (streamId : UInt32) (response : HttpResponse) :
    Outcome :=
  match s.streams.lookup streamId with
  | none => { scheduler := s, result := false }
  | some stream =>
    if s.closed ∨ stream.responseSubmitted then { scheduler := s, result := false }
    else
      let stream := { stream with responseSubmitted := true, body := response.body }
      let (s, frames) := s.encodeHeaderBlockLocked streamId response response.body.isEmpty
      if stream.body.isEmpty then
        { scheduler := { s with streams := s.streams.erase streamId }, frames := frames }
      else
        let (s, frames) := s.flushStreamLocked streamId stream frames
        { scheduler := s, frames := frames }

def shiftWindows (streams : Streams) (delta : Int) : Streams where
  entries := streams.entries.map
    (.map id (fun _ stream => { stream with window := stream.window + delta }))
  nodupKeys := List.NodupKeys.map₂ _ _ streams.nodupKeys

def applyPeerSettings (s : H2OutboundScheduler) (initialWindowSize maximumFrameSize : UInt32)
    (headerTableSize : Nat) (order : List UInt32) : Outcome :=
  if h : settingsInRange initialWindowSize maximumFrameSize then
    if s.closed then { scheduler := s, result := false }
    else
      let delta : Int := (initialWindowSize.toNat : Int) - s.initialWindowSize
      if s.streams.entries.any (fun e => e.2.window + delta > kMaximumWindow) then
        { scheduler := s, result := false }
      else
        let (s, frames) := flushAllLocked { s with
          streams := shiftWindows s.streams delta
          initialWindowSize := initialWindowSize.toNat
          maximumFrameSize := maximumFrameSize.toNat
          -- `encoderChecked`: the encoder allows this size, so nothing is thrown
          encoder := s.encoder.resized (min headerTableSize s.maximumEncoderTableSize)
          windowChecked := h.1
          frameSizeChecked := h.2 } [] order
        { scheduler := s, frames := frames }
  else { scheduler := s, result := false }

def updateConnectionWindow (s : H2OutboundScheduler) (increment : UInt32) (order : List UInt32) :
    Outcome :=
  if s.closed ∨ increment = 0 ∨ s.connectionWindow + increment.toNat > kMaximumWindow then
    { scheduler := s, result := false }
  else
    let (s, frames) := flushAllLocked
      { s with connectionWindow := s.connectionWindow + increment.toNat } [] order
    { scheduler := s, frames := frames }

def updateStreamWindow (s : H2OutboundScheduler) (streamId increment : UInt32) : Outcome :=
  match s.streams.lookup streamId with
  | none => { scheduler := s, result := false }
  | some stream =>
    if s.closed ∨ increment = 0 ∨ stream.window + increment.toNat > kMaximumWindow then
      { scheduler := s, result := false }
    else
      let (s, frames) := s.flushStreamLocked streamId
        { stream with window := stream.window + increment.toNat } []
      { scheduler := s, frames := frames }

/-- `order` is the listing order of the hash map, which the library leaves open. -/
inductive Operation where
  | openStream (streamId : UInt32)
  | closeStream (streamId : UInt32)
  | close
  | submitResponse (streamId : UInt32) (response : HttpResponse)
  | applyPeerSettings (initialWindowSize maximumFrameSize : UInt32) (headerTableSize : Nat)
      (order : List UInt32)
  | updateConnectionWindow (increment : UInt32) (order : List UInt32)
  | updateStreamWindow (streamId increment : UInt32)
  deriving DecidableEq, Repr

def perform (s : H2OutboundScheduler) : Operation → Outcome
  | .openStream streamId => { scheduler := s.openStream streamId }
  | .closeStream streamId => { scheduler := s.closeStream streamId }
  | .close => { scheduler := s.close }
  | .submitResponse streamId response => s.submitResponse streamId response
  | .applyPeerSettings initialWindowSize maximumFrameSize headerTableSize order =>
    s.applyPeerSettings initialWindowSize maximumFrameSize headerTableSize order
  | .updateConnectionWindow increment order => s.updateConnectionWindow increment order
  | .updateStreamWindow streamId increment => s.updateStreamWindow streamId increment

/-- A call as it takes place: the state it finds and the operation. -/
structure Event where
  before : H2OutboundScheduler
  operation : Operation

def Event.outcome (event : Event) : Outcome := event.before.perform event.operation

/-- The calls of a sequence of operations, each in the state the last one left. -/
def history (s : H2OutboundScheduler) : List Operation → List Event
  | [] => []
  | op :: ops => ⟨s, op⟩ :: history (s.perform op).scheduler ops

def final (s : H2OutboundScheduler) (ops : List Operation) : H2OutboundScheduler :=
  ops.foldl (fun s op => (s.perform op).scheduler) s

def emitted (log : List Event) : List Frame := log.flatMap (fun event => event.outcome.frames)

@[simp] theorem final_append (s : H2OutboundScheduler) (a b : List Operation) :
    s.final (a ++ b) = (s.final a).final b := by
  simp [final]

theorem history_append (s : H2OutboundScheduler) (a b : List Operation) :
    s.history (a ++ b) = s.history a ++ (s.final a).history b := by
  induction a generalizing s with
  | nil => rfl
  | cons op a ih =>
    rw [List.cons_append, history, history, ih]
    rfl

theorem history_operations (s : H2OutboundScheduler) (ops : List Operation) :
    (s.history ops).map Event.operation = ops := by
  induction ops generalizing s with
  | nil => rfl
  | cons op ops ih => rw [history, List.map_cons, ih]

@[simp] theorem emitted_append : emitted (a ++ b) = emitted a ++ emitted b := by
  simp [emitted]

theorem history_split {s : H2OutboundScheduler}
    {event : Event} (h : s.history ops = before ++ event :: after) :
    ∃ first rest, ops = first ++ event.operation :: rest ∧ before = s.history first ∧
      event.before = s.final first ∧ after = event.outcome.scheduler.history rest := by
  induction before generalizing s ops with
  | nil =>
    cases ops with
    | nil => cases h
    | cons op ops =>
      cases h
      exact ⟨[], ops, rfl, rfl, rfl, rfl⟩
  | cons head before ih =>
    cases ops with
    | nil => cases h
    | cons op ops =>
      obtain ⟨rfl, ht⟩ := List.cons.inj h
      obtain ⟨first, rest, rfl, rfl, hb, ha⟩ := ih ht
      exact ⟨op :: first, rest, rfl, rfl, hb, ha⟩

/-- A call takes the lock and computes its frames; `SendFrames` then hands them over one by one. -/
structure Shared where
  scheduler : H2OutboundScheduler
  log : List Event := []
  calls : List (Relay.Call Frame) := []
  wire : List Frame := []

inductive Action where
  | call (thread : Nat) (operation : Operation)
  | send (thread : Nat)
  deriving DecidableEq, Repr

/-- One step of one thread; a thread calls again only when it has sent all its frames. -/
def Shared.step (s : Shared) : Action → Option Shared
  | .call thread operation =>
    if s.calls.any (fun call => call.thread == thread && !call.left.isEmpty) then none
    else
      let event : Event := ⟨s.scheduler, operation⟩
      some { s with
        scheduler := event.outcome.scheduler
        log := s.log ++ [event]
        calls := s.calls ++ [⟨thread, event.outcome.frames⟩] }
  | .send thread =>
    (Relay.pick thread s.calls).map (fun p =>
      { s with calls := p.handed thread, wire := s.wire ++ [p.message] })

def Shared.run (s : Shared) : List Action → Option Shared
  | [] => some s
  | action :: actions => do
    let s ← s.step action
    s.run actions

end H2OutboundScheduler

end IocpRuntime.Http2
