import Mathlib.Data.List.Infix
import IocpRuntime.Http2.Session

/-! What the frames of a peer say about its requests, read without a session. -/

namespace IocpRuntime.Http2.Requests
open Lib Http

/-- The payload without its pad-length octet and padding. -/
def unpadded (frame : Frame) : Octets :=
  if frame.header.has .padded then
    (frame.payload.drop 1).take (frame.payload.length - 1 - (frame.payload.getD 0 0).toNat)
  else frame.payload

/-- The piece of a header block that a frame carries; CONTINUATION has neither
padding nor priority fields. -/
def fragment (frame : Frame) : Octets :=
  if frame.header.type = .continuation then frame.payload
  else if frame.header.has .priority then (unpadded frame).drop 5
  else unpadded frame

def isHeader (frame : Frame) : Bool :=
  frame.header.type == .headers || frame.header.type == .continuation

def isData (frame : Frame) : Bool := frame.header.type == .data

def block (id : UInt32) (frames : List Frame) : Octets :=
  (frames.filter fun frame => isHeader frame && frame.header.streamId == id).flatMap fragment

def body (id : UInt32) (frames : List Frame) : Octets :=
  (frames.filter fun frame => isData frame && frame.header.streamId == id).flatMap unpadded

def blockComplete (id : UInt32) (frames : List Frame) : Bool :=
  frames.any fun frame =>
    isHeader frame && frame.header.streamId == id && frame.header.has .endHeaders

/-- END_STREAM stands on HEADERS or DATA. -/
def ended (id : UInt32) (frames : List Frame) : Bool :=
  frames.any fun frame =>
    (frame.header.type == .headers || isData frame) && frame.header.streamId == id &&
      frame.header.has .endStream

def complete (id : UInt32) (frames : List Frame) :
    Bool := blockComplete id frames && ended id frames

/-- The header block that a frame completes. -/
def completedBlock (frames : List Frame) : Option Octets :=
  frames.getLast?.bind fun last =>
    if isHeader last && last.header.has .endHeaders then some (block last.header.streamId frames)
    else none

/-- All complete header blocks, in the order in which they became complete. -/
def blocks (frames : List Frame) : List Octets := frames.inits.filterMap completedBlock

/-- A decoder that has read them all. -/
def decoder (options : HpackOptions) (frames : List Frame) : HpackCodec :=
  (blocks frames).foldl (fun codec block => (codec.decode block).1) (HpackCodec.create options)

/-- The header of the request that a field becomes; `:authority` becomes `host`. -/
def carried (field : HttpHeader) : Option HttpHeader :=
  if field.name = octets ":authority" then some ⟨octets "host", field.value⟩
  else if field.name.head? = some 58 then none
  else some field

/-- A request that says what the fields say: their one `:method`, their one
`:path`, and the other fields in order. -/
structure Carries (fields : List HttpHeader) (request : HttpRequest) : Prop where
  method : fields.filter (fun field => field.name = octets ":method") =
    [⟨octets ":method", request.methodText⟩]
  parsed : request.method = parseMethod request.methodText
  target : fields.filter (fun field => field.name = octets ":path") =
    [⟨octets ":path", request.target⟩]
  path : request.path = request.target.takeWhile (· != 63)
  query : request.query = (request.target.dropWhile (· != 63)).drop 1
  headers : request.headers = fields.filterMap carried

/-- The head of a stream's request, read by a decoder that has read all blocks before. -/
structure HeadOf (options : HpackOptions) (connectionId : Nat) (frames : List Frame) (id : UInt32)
    (request : HttpRequest) : Prop where
  connection : request.connectionId = connectionId
  stream : request.requestId = id.toNat
  read : ∃ before last after codec fields, frames = before ++ last :: after ∧
    isHeader last ∧ last.header.streamId = id ∧ last.header.has .endHeaders ∧
    (decoder options before).decode (block id frames) = (codec, .ok fields) ∧ Carries fields request

/-- The request of a stream, with the data of the stream for its body. -/
structure RequestOf (options : HpackOptions) (connectionId : Nat) (frames : List Frame) (id : UInt32)
    (request : HttpRequest) : Prop extends HeadOf options connectionId frames id request where
  body : request.body = Requests.body id frames

/-- A frame as the decoder of frames makes it. -/
def Decoded (frame : Frame) : Prop := frame.payload.length = frame.header.length.toNat

section Growth
variable (id : UInt32) (frames : List Frame) (frame : Frame)

theorem block_append : block id (frames ++ [frame]) =
    block id frames ++
      if isHeader frame && frame.header.streamId == id then fragment frame else [] := by
  simp only [block, List.filter_append, List.flatMap_append, List.filter_cons, List.filter_nil]
  cases isHeader frame && frame.header.streamId == id <;> simp

theorem body_append : body id (frames ++ [frame]) =
    body id frames ++
      if isData frame && frame.header.streamId == id then unpadded frame else [] := by
  simp only [body, List.filter_append, List.flatMap_append, List.filter_cons, List.filter_nil]
  cases isData frame && frame.header.streamId == id <;> simp

theorem blockComplete_append : blockComplete id (frames ++ [frame]) =
    (blockComplete id frames ||
      (isHeader frame && frame.header.streamId == id && frame.header.has .endHeaders)) := by
  simp [blockComplete]

theorem ended_append : ended id (frames ++ [frame]) =
    (ended id frames ||
      ((frame.header.type == .headers || isData frame) && frame.header.streamId == id &&
        frame.header.has .endStream)) := by
  simp [ended]

theorem blocks_append : blocks (frames ++ [frame]) =
    blocks frames ++
      if isHeader frame && frame.header.has .endHeaders then
        [block frame.header.streamId (frames ++ [frame])]
      else [] := by
  have hi : (frames ++ [frame]).inits = frames.inits ++ [frames ++ [frame]] := by
    simp [List.inits_append]
  have hl : completedBlock (frames ++ [frame]) =
      if isHeader frame && frame.header.has .endHeaders then
        some (block frame.header.streamId (frames ++ [frame]))
      else none := by
    simp [completedBlock]
  simp only [blocks, hi, List.filterMap_append, List.filterMap_cons, List.filterMap_nil, hl]
  cases isHeader frame && frame.header.has .endHeaders <;> simp

theorem decoder_append : decoder options (frames ++ [frame]) =
    if isHeader frame && frame.header.has .endHeaders then
      ((decoder options frames).decode (block frame.header.streamId (frames ++ [frame]))).1
    else decoder options frames := by
  simp only [decoder, blocks_append, List.foldl_append]
  split <;> rfl

theorem HeadOf.append {id : UInt32} {frames : List Frame} {frame : Frame}
    (h : HeadOf options connectionId frames id request)
    (hb : block id (frames ++ [frame]) = block id frames) :
    HeadOf options connectionId (frames ++ [frame]) id request := by
  obtain ⟨before, last, after, codec, fields, hf, hr⟩ := h.read
  refine ⟨h.connection, h.stream, before, last, after ++ [frame], codec, fields, ?_, ?_⟩
  · simp [hf]
  · rw [hb]
    exact hr

theorem HeadOf.bodied {options : HpackOptions} {connectionId : Nat} {request : HttpRequest}
    {id : UInt32} {frames : List Frame} (h : HeadOf options connectionId frames id request)
    {body : Octets} (hb : body = Requests.body id frames) :
    RequestOf options connectionId frames id { request with body := body } := by
  obtain ⟨before, last, after, codec, fields, hf, hh, hid, hend, hr, hc⟩ := h.read
  exact ⟨⟨h.connection, h.stream, before, last, after, codec, fields, hf, hh, hid, hend,
    hr, { hc with }⟩, hb⟩

end Growth

end IocpRuntime.Http2.Requests
