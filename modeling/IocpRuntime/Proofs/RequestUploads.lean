import IocpRuntime.Proofs.SessionRuns

namespace IocpRuntime.Proofs.RequestUploads
open Lib Http Http2 Http2.H2Session SessionRuns

section Frames

def flagsOf (ended last : Bool) : UInt8 :=
  (if ended then FrameFlags.endStream.octet else 0) |||
    if last then FrameFlags.endHeaders.octet else 0

theorem flagsOf_has : ∀ ended last : Bool,
    (flagsOf ended last &&& FrameFlags.endStream.octet != 0) = ended ∧
      (flagsOf ended last &&& FrameFlags.endHeaders.octet != 0) = last ∧
      (flagsOf ended last &&& FrameFlags.padded.octet != 0) = false ∧
      (flagsOf ended last &&& FrameFlags.priority.octet != 0) = false := by
  decide

def headersFrame (id : UInt32) (ended last : Bool) (fragment : Octets) : Frame :=
  ⟨{ length := UInt32.ofNat fragment.length
     type := .headers
     flags := flagsOf ended last
     streamId := id }, fragment⟩

def continuationFrame (id : UInt32) (last : Bool) (fragment : Octets) : Frame :=
  ⟨{ length := UInt32.ofNat fragment.length
     type := .continuation
     flags := flagsOf false last
     streamId := id }, fragment⟩

theorem headersFrame_last (id : UInt32) (ended last : Bool) (fragment : Octets) :
    (headersFrame id ended last fragment).header.has .endHeaders = last := (flagsOf_has ended last).2.1

theorem continuationFrame_last (id : UInt32) (last : Bool) (fragment : Octets) :
    (continuationFrame id last fragment).header.has .endHeaders = last := (flagsOf_has false last).2.1

def framesOf (make : Bool → Octets → Frame) : List Octets → List Frame
  | [] => []
  | piece :: pieces => make pieces.isEmpty piece :: framesOf make pieces

def continuations (id : UInt32) : List Octets → List Frame := framesOf (continuationFrame id)

def dataFrames (id : UInt32) : List Octets → List Frame := framesOf (dataFrame id)

/-- The frames of a request. Without data END_STREAM stands on HEADERS. -/
def requestFrames (id : UInt32) (first : Octets) (fragments parts : List Octets) : List Frame :=
  headersFrame id parts.isEmpty fragments.isEmpty first ::
    (continuations id fragments ++ dataFrames id parts)

end Frames

section Steps
/-- The session reads a frame: no check at the head of `ConsumeFrame` fails. -/
structure Hears (s : H2Session) (frame : Frame) : Prop where
  connected : s.state = .connected
  short : frame.header.length ≤ s.config.maximumFrameSize
  settled : s.receivedInitialSettings = true
  expected : s.continuationStreamId.any (fun id =>
    frame.header.type != .continuation || frame.header.streamId != id) = false

theorem consume_headers (h : Hears s frame)
    (ht : frame.header.type = .headers ∨ frame.header.type = .continuation)
    (order : List UInt32) (dispatch : HttpDispatchStatus) :
    s.consumeFrame frame order dispatch = s.handleHeaders frame.header frame.payload dispatch := by
  have hs : frame.header.type ≠ .settings := by
    rcases ht with ht | ht <;> rw [ht] <;> decide
  have hsh : ¬ frame.header.length > s.config.maximumFrameSize := UInt32.not_lt.mpr h.short
  simp [consumeFrame, hsh, h.settled, h.expected, hs, ht]

theorem consume_data (h : Hears s frame) (ht : frame.header.type = .data) (order : List UInt32)
    (dispatch : HttpDispatchStatus) :
    s.consumeFrame frame order dispatch = s.handleData frame.header frame.payload dispatch := by
  have hsh : ¬ frame.header.length > s.config.maximumFrameSize := UInt32.not_lt.mpr h.short
  have hs : FrameType.data ≠ .settings := by decide
  have hh : ¬ (FrameType.data = .headers ∨ FrameType.data = .continuation) := by decide
  have he := h.expected
  rw [ht] at he
  simp [consumeFrame, hsh, h.settled, ht, he, hs, hh]

/-- A connected session consumes the frames, one after the other, and stays connected. -/
inductive Reads : H2Session → List Frame → H2Session → Prop
  | nil {s : H2Session} (connected : s.state = .connected) : Reads s [] s
  | cons {s t u : H2Session} {frame : Frame} {frames : List Frame} (connected : s.state = .connected)
      (consumed : s.consumeFrame frame [] .accepted = (t, .ready)) (rest : Reads t frames u) :
      Reads s (frame :: frames) u

theorem Reads.append (h : Reads s frames t) (hr : Reads t others u) : Reads s (frames ++ others) u := by
  induction h with
  | nil => exact hr
  | cons connected consumed _ ih => exact .cons connected consumed (ih hr)

theorem Reads.connected (h : Reads s frames t) : s.state = .connected := by
  cases h with
  | nil connected => exact connected
  | cons connected => exact connected

end Steps

section Head
variable {s : H2Session} {id : UInt32} {fragment : Octets}

theorem length_eq (h : fragment.length ≤ s.config.maximumFrameSize.toNat) :
    (UInt32.ofNat fragment.length).toNat = fragment.length := by
  have hs := s.config.maximumFrameSize.toNat_lt
  rw [UInt32.toNat_ofNat']
  exact Nat.mod_eq_of_lt (by omega)

theorem short_of_le (h : fragment.length ≤ s.config.maximumFrameSize.toNat) :
    UInt32.ofNat fragment.length ≤ s.config.maximumFrameSize := by
  rw [UInt32.le_iff_toNat_le, length_eq h]
  exact h

theorem headerFragment_plain (hpa : header.has .padded = false) (hp : header.has .priority = false)
    (hl : header.length.toNat = payload.length) :
    headerFragment header payload = some payload := by
  have hs : slice payload 0 payload.length = payload := by
    rw [slice, List.drop_zero, Nat.sub_zero, List.take_length]
  simp [headerFragment, hpa, hp, hl, hs]

structure Opens (s : H2Session) (id : UInt32) : Prop where
  connected : s.state = .connected
  settled : s.receivedInitialSettings = true
  idle : s.continuationStreamId = none
  client : id % 2 = 1
  fresh : s.lastStreamId < id
  unused : s.streams.lookup id = none
  room : s.streams.entries.length < s.config.maximumConcurrentStreams

theorem Opens.ne_zero (h : Opens s id) : id ≠ 0 := by
  rintro rfl
  exact absurd h.client (by decide)

def collected (s : H2Session) (id : UInt32) (ended : Bool) (block : Octets) : H2Stream :=
  { H2Stream.create id s.config.initialWindowSize with
    state := .opened
    headerBlock := block
    endStream := ended }

def collecting (s : H2Session) (id : UInt32) (ended : Bool) (block : Octets) : H2Session :=
  { s.setStream (collected s id ended block) with
    outbound := s.outbound.openStream id
    lastStreamId := id }

theorem setStream_collecting :
    (collecting s id ended block).setStream (collected s id ended' block') =
      collecting s id ended' block' := by
  have hi : ((s.streams.insert id (collected s id ended block)).insert id
      (collected s id ended' block')) = s.streams.insert id (collected s id ended' block') :=
    AList.insert_insert _
  simp only [collecting, setStream, collected, H2Stream.create] at hi ⊢
  rw [hi]

def holding (s : H2Session) (id : UInt32) (continued : Option UInt32) (ended : Bool)
    (block : Octets) : H2Session :=
  { collecting s id ended block with continuationStreamId := continued }

/-- The head of `HandleHeaders` on the HEADERS frame that opens the stream. -/
theorem handleHeaders_opening (h : Opens s id)
    (hl : fragment.length ≤ s.config.maximumFrameSize.toNat) :
    s.handleHeaders (headersFrame id ended last fragment).header fragment .accepted =
      (holding s id none false []).continueHeaders (headersFrame id ended last fragment).header
        (collected s id ended fragment) .accepted := by
  obtain ⟨he, -, hpa, hp⟩ := flagsOf_has ended last
  have hnew : ¬ (id % 2 ≠ 1 ∨ id ≤ s.lastStreamId ∨ (s.streams.lookup id).isSome = true) := by
    rintro (hodd | hold | hu)
    · exact hodd h.client
    · exact absurd h.fresh (UInt32.not_lt.mpr hold)
    · rw [h.unused] at hu
      cases hu
  have hr := Nat.not_le.mpr h.room
  have hi : collecting s id false [] = holding s id none false [] := by
    rw [holding, ← h.idle]
    rfl
  have ho : s.headerStream (headersFrame id ended last fragment).header =
      some (holding s id none false [], collected s id false []) := by
    have ht : FrameType.headers ≠ .continuation := by decide
    rw [← hi]
    simp only [headerStream, headersFrame, ht, if_false, hnew, hr]
    rfl
  have hf : headerFragment (headersFrame id ended last fragment).header fragment =
      some fragment := by
    exact headerFragment_plain hpa hp (length_eq hl)
  have ha : (collected s id false []).appendHeaderFragment
      (headersFrame id ended last fragment).header fragment = collected s id ended fragment := by
    have he : (headersFrame id ended last fragment).header.has .endStream = ended := he
    have ht : ((headersFrame id ended last fragment).header.type != .continuation) = true := rfl
    simp only [H2Stream.appendHeaderFragment, he, ht, Bool.true_and]
    rfl
  have hid : (headersFrame id ended last fragment).header.streamId ≠ 0 := h.ne_zero
  have hs : (collected s id false []).state ≠ .closed := by
    exact nofun
  rw [handleHeaders, if_neg hid, ho]
  dsimp only
  rw [if_neg hs, hf]
  dsimp only
  rw [ha]

theorem handleHeaders_continuing (hid : id ≠ 0)
    (hl : fragment.length ≤ s.config.maximumFrameSize.toNat) :
    (holding s id (some id) ended block).handleHeaders (continuationFrame id last fragment).header
        fragment .accepted =
      (holding s id (some id) ended block).continueHeaders (continuationFrame id last fragment).header
        (collected s id ended (block ++ fragment)) .accepted := by
  obtain ⟨-, -, hpa, hp⟩ := flagsOf_has false last
  have hfo : (holding s id (some id) ended block).headerStream
      (continuationFrame id last fragment).header =
      some (holding s id (some id) ended block, collected s id ended block) := by
    have hs : (holding s id (some id) ended block).streams.lookup id =
        some (collected s id ended block) := AList.lookup_insert s.streams
    have hco : (holding s id (some id) ended block).continuationStreamId = some id := rfl
    simp [headerStream, continuationFrame, hco, hs]
  have hf : headerFragment (continuationFrame id last fragment).header fragment =
      some fragment := headerFragment_plain hpa hp (length_eq hl)
  have ha : (collected s id ended block).appendHeaderFragment
      (continuationFrame id last fragment).header fragment =
        collected s id ended (block ++ fragment) := by
    have ht : ((continuationFrame id last fragment).header.type != .continuation) = false := rfl
    simp only [H2Stream.appendHeaderFragment, ht, Bool.false_and, Bool.or_false]
    rfl
  have hsa : (continuationFrame id last fragment).header.streamId ≠ 0 := hid
  have hst : (collected s id ended block).state ≠ .closed := by
    exact nofun
  rw [handleHeaders, if_neg hsa, hfo]
  dsimp only
  rw [if_neg hst, hf]
  dsimp only
  rw [ha]

theorem setStream_holding :
    (holding s id continued before earlier).setStream (collected s id ended block) =
      holding s id continued ended block :=
  congrArg (fun u => { u with continuationStreamId := continued })
    setStream_collecting

theorem continue_more (hm : header.has .endHeaders = false) (hid : header.streamId = id) :
    (holding s id continued before earlier).continueHeaders header (collected s id ended block)
      .accepted = (holding s id (some id) ended block, .ready) := by
  simp only [continueHeaders, setStream_holding, hm, Bool.false_eq_true, if_false, hid]
  rfl

def asked (s : H2Session) (id : UInt32) (block : Octets) (request : HttpRequest) : H2Stream :=
  { collected s id false block with
    request := some request
    headersComplete := true }

def headed (s : H2Session) (id : UInt32) (block : Octets) (codec : HpackCodec)
    (request : HttpRequest) : H2Session :=
  { s.setStream (asked s id block request) with
    outbound := s.outbound.openStream id
    lastStreamId := id
    continuationStreamId := none
    hpackDecoder := codec }

structure Dispatches (s : H2Session) (request : HttpRequest) (t : H2Session) : Prop where
  dispatched : t.dispatched = s.dispatched ++ [request]
  connected : t.state = .connected

theorem continue_last (hl : header.has .endHeaders = true)
    (hde : s.hpackDecoder.decode block = (codec, .ok fields))
    (hass : assembleRequest s.connectionId id fields = some a) (hc : a.complete = true) :
    (holding s id continued before earlier).continueHeaders header (collected s id ended block)
        .accepted =
      ({ holding s id none ended block with hpackDecoder := codec }).acceptRequest
        (collected s id ended block) a.request .accepted := by
  have hd : (holding s id none ended block).hpackDecoder.decode
      (collected s id ended block).headerBlock = (codec, .ok fields) := hde
  have hf : (collected s id ended block).headersComplete = false := rfl
  have ha : assembleRequest
      ({ holding s id none ended block with hpackDecoder := codec } : H2Session).connectionId
      (collected s id ended block).streamId fields = some a := hass
  simp only [continueHeaders, setStream_holding, hl, if_true, hf, Bool.false_eq_true, if_false]
  rw [show ({ holding s id continued ended block with continuationStreamId := none } : H2Session) =
    holding s id none ended block from rfl, finishHeaders, hd]
  dsimp only
  rw [ha]
  dsimp only
  rw [if_pos hc]

theorem accept_running :
    ({ holding s id none false block with hpackDecoder := codec }).acceptRequest
      (collected s id false block) request .accepted = (headed s id block codec request, .ready) := by
  have hi : ((s.streams.insert id (collected s id false block)).insert id
      (asked s id block request)) = s.streams.insert id (asked s id block request) :=
    AList.insert_insert _
  have hr : (collected s id false block).endStream = false := rfl
  simp only [acceptRequest, hr, Bool.false_eq_true, if_false, headed]
  simp only [holding, collecting, setStream, asked, collected, H2Stream.create] at hi ⊢
  rw [hi]

theorem accept_ended (hs : s.state = .connected) :
    ∃ t, ({ holding s id none true block with hpackDecoder := codec }).acceptRequest
        (collected s id true block) request .accepted = (t, .ready) ∧
      Dispatches s { request with body := [] } t := by
  have he : (collected s id true block).endStream = true := rfl
  simp only [acceptRequest, he, if_true]
  unfold dispatchRequest
  simp only [holding, collecting, setStream, collected, H2Stream.create, AList.lookup_insert,
    Bool.not_true, Bool.or_self, Bool.false_eq_true, if_false]
  exact ⟨_, rfl, rfl, hs⟩

end Head

section Blocks
variable {id : UInt32}

/-- What the last frame of the header block leads to. -/
def Headed (s : H2Session) (id : UInt32) (ended : Bool) (block : Octets) (codec : HpackCodec)
    (request : HttpRequest) (t : H2Session) : Prop :=
  if ended then Dispatches s { request with body := [] } t else t = headed s id block codec request

theorem Headed.connected
    (h : Headed s id ended block codec request t) (ho : Opens s id) : t.state = .connected := by
  cases ended with
  | false =>
    rw [show t = headed s id block codec request from h]
    exact ho.connected
  | true => exact Dispatches.connected h

theorem finished (hs : s.state = .connected) (hl : header.has .endHeaders = true)
    (hd : s.hpackDecoder.decode block = (codec, .ok fields))
    (ha : assembleRequest s.connectionId id fields = some a) (hc : a.complete = true) :
    ∃ t, (holding s id continued before earlier).continueHeaders header (collected s id ended block)
        .accepted = (t, .ready) ∧ Headed s id ended block codec a.request t := by
  rw [continue_last hl hd ha hc]
  cases ended with
  | false => exact ⟨_, accept_running, rfl⟩
  | true => exact accept_ended hs

theorem continuation_hears (id : UInt32) (hst : s.state = .connected)
    (hs : s.receivedInitialSettings = true)
    (hl : fragment.length ≤ s.config.maximumFrameSize.toNat)
    (ended last : Bool) (block : Octets) :
    Hears (holding s id (some id) ended block) (continuationFrame id last fragment) where
  connected := hst
  short := short_of_le hl
  settled := hs
  expected := by
    simp [holding, continuationFrame]

theorem continuations_run (ho : Opens s id) (hf : fragments ≠ [])
    (hl : ∀ fragment ∈ fragments, fragment.length ≤ s.config.maximumFrameSize.toNat)
    (hd : s.hpackDecoder.decode (block ++ fragments.flatten) = (codec, .ok fields))
    (ha : assembleRequest s.connectionId id fields = some a) (hco : a.complete = true) :
    ∃ t, Reads (holding s id (some id) ended block) (continuations id fragments) t ∧
      Headed s id ended (block ++ fragments.flatten) codec a.request t := by
  induction fragments generalizing block with
  | nil => exact absurd rfl hf
  | cons fragment fragments ih =>
    have hle := hl fragment List.mem_cons_self
    have hhe := continuation_hears id ho.connected ho.settled hle ended fragments.isEmpty block
    have hc := (consume_headers hhe (Or.inr rfl) [] .accepted).trans
      (handleHeaders_continuing ho.ne_zero hle)
    have hla := continuationFrame_last id fragments.isEmpty fragment
    rw [List.flatten_cons, ← List.append_assoc] at hd ⊢
    rw [continuations, framesOf]
    cases fragments with
    | nil =>
      rw [List.flatten_nil, List.append_nil] at hd ⊢
      obtain ⟨t, hfi, hh⟩ := finished ho.connected hla hd ha hco
      exact ⟨t, .cons hhe.connected (hc.trans hfi) (.nil (hh.connected ho)), hh⟩
    | cons next fragments =>
      obtain ⟨t, hreads, hh⟩ := ih (List.cons_ne_nil _ _)
        (fun other hot => hl other (List.mem_cons_of_mem _ hot)) hd
      exact ⟨t, .cons hhe.connected (hc.trans (continue_more hla rfl)) hreads, hh⟩

/-- A header block in any number of frames. -/
theorem head_run (ho : Opens s id) (ended : Bool) (first : Octets) (fragments : List Octets)
    (hl : ∀ fragment ∈ first :: fragments, fragment.length ≤ s.config.maximumFrameSize.toNat)
    (hd : s.hpackDecoder.decode (first ++ fragments.flatten) = (codec, .ok fields))
    (ha : assembleRequest s.connectionId id fields = some a) (hc : a.complete = true) :
    ∃ t, Reads s (headersFrame id ended fragments.isEmpty first :: continuations id fragments) t ∧
      Headed s id ended (first ++ fragments.flatten) codec a.request t := by
  have hle := hl first List.mem_cons_self
  have hhe : Hears s (headersFrame id ended fragments.isEmpty first) :=
    ⟨ho.connected, short_of_le hle, ho.settled, by rw [ho.idle]; rfl⟩
  have hco := (consume_headers hhe (Or.inl rfl) [] .accepted).trans (handleHeaders_opening ho hle)
  have hla := headersFrame_last id ended fragments.isEmpty first
  cases fragments with
  | nil =>
    rw [List.flatten_nil, List.append_nil] at hd ⊢
    obtain ⟨t, hf, hh⟩ := finished ho.connected hla hd ha hc
    exact ⟨t, .cons hhe.connected (hco.trans hf) (.nil (hh.connected ho)), hh⟩
  | cons next fragments =>
    obtain ⟨t, hreads, hh⟩ := continuations_run ho (List.cons_ne_nil _ _)
      (fun other hot => hl other (List.mem_cons_of_mem _ hot)) hd ha hc
    exact ⟨t, .cons hhe.connected (hco.trans (continue_more hla rfl)) hreads, hh⟩

end Blocks

section Data
variable {id : UInt32}

/-- Data that respects a window, as the session refills it. -/
def Credited (initial : UInt32) : UInt32 → List Octets → Prop
  | _, [] => True
  | window, part :: parts =>
    UInt32.ofNat part.length ≤ window ∧
      Credited initial (SessionFrames.refilled initial (window - UInt32.ofNat part.length)) parts

structure Uploading (s : H2Session) (id : UInt32) (request : HttpRequest) (stream : H2Stream) :
    Prop where
  connected : s.state = .connected
  settled : s.receivedInitialSettings = true
  idle : s.continuationStreamId = none
  client : id ≠ 0
  found : s.streams.lookup id = some stream
  own : stream.streamId = id
  headed : stream.headersComplete = true
  running : stream.endStream = false
  opened : stream.state = .opened
  waiting : stream.dispatched = false
  asked : stream.request = some request

theorem headed_uploading (ho : Opens s id) :
    Uploading (headed s id block codec request) id request (asked s id block request) where
  connected := ho.connected
  settled := ho.settled
  idle := rfl
  client := ho.ne_zero
  found := AList.lookup_insert s.streams
  own := rfl
  headed := rfl
  running := rfl
  opened := rfl
  waiting := rfl
  asked := rfl

theorem dataFrame_flags (id : UInt32) (ended : Bool) (part : Octets) :
    (dataFrame id ended part).header.has .endStream = ended ∧
      (dataFrame id ended part).header.has .padded = false := by
  have hf : ∀ ended : Bool,
      ((if ended then FrameFlags.endStream.octet else 0) &&& FrameFlags.endStream.octet != 0) =
        ended ∧
      ((if ended then FrameFlags.endStream.octet else 0) &&& FrameFlags.padded.octet != 0) =
        false := by
    decide
  exact hf ended

structure Room (s : H2Session) (stream : H2Stream) (parts : List Octets) : Prop where
  frames : ∀ part ∈ parts, part.length ≤ s.config.maximumFrameSize.toNat
  own : Credited s.config.initialWindowSize stream.recvWindow parts
  shared : Credited s.config.initialWindowSize s.connectionRecvWindow parts
  body : stream.body.length + parts.flatten.length ≤ s.config.maximumRequestBodySize

def after (s : H2Session) (stream : H2Stream) (id : UInt32) (ended : Bool) (part : Octets) :
    H2Session :=
  SessionFrames.dataReceived s stream (dataFrame id ended part).header part

def grown (s : H2Session) (stream : H2Stream) (id : UInt32) (ended : Bool) (part : Octets) :
    H2Stream :=
  SessionFrames.dataStored s.config.initialWindowSize stream (dataFrame id ended part).header part

section

variable (h : Uploading s id request stream)
include h

theorem handleData_room (hro : Room s stream (part :: parts)) :
    s.handleData (dataFrame id ended part).header part .accepted =
      if ended then (after s stream id ended part).dispatchRequest id .accepted
      else (after s stream id ended part, .ready) := by
  obtain ⟨he, hp⟩ := dataFrame_flags id ended part
  have hl : (dataFrame id ended part).header.length.toNat = part.length :=
    length_eq (hro.frames part List.mem_cons_self)
  have hb := hro.body
  rw [List.flatten_cons, List.length_append] at hb
  have hid : (dataFrame id ended part).header.streamId ≠ 0 := h.client
  have hf : s.streams.lookup (dataFrame id ended part).header.streamId = some stream := h.found
  have hop : (!stream.headersComplete || stream.endStream || stream.state == .closed) = false := by
    rw [h.headed, h.running, h.opened]
    rfl
  have hr : dataRange (dataFrame id ended part).header part = some (0, part.length) := by
    simp [dataRange, hp, hl]
  have hwi : ¬ ((dataFrame id ended part).header.length > stream.recvWindow ∨
      (dataFrame id ended part).header.length > s.connectionRecvWindow) := by
    rintro (ho | ho)
    · exact absurd ho (UInt32.not_lt.mpr hro.own.1)
    · exact absurd ho (UInt32.not_lt.mpr hro.shared.1)
  have hli : ¬ (part.length > s.config.maximumRequestBodySize ∨
      stream.body.length > s.config.maximumRequestBodySize - part.length) := by
    omega
  have hs : slice part 0 (0 + part.length) = part := by
    rw [slice, List.drop_zero, Nat.zero_add, Nat.sub_zero, List.take_length]
  rw [handleData, if_neg hid, hf]
  dsimp only
  rw [hop, if_neg Bool.false_ne_true, hr]
  dsimp only
  rw [if_neg hwi, if_neg hli, SessionFrames.dataReceived_eq, hs, he]
  rfl

theorem data_hears (hr : Room s stream (part :: parts))
    (ended : Bool) : Hears s (dataFrame id ended part) where
  connected := h.connected
  short := short_of_le (hr.frames part List.mem_cons_self)
  settled := h.settled
  expected := by
    rw [h.idle]
    rfl

theorem grown_found :
    (after s stream id ended part).streams.lookup id = some (grown s stream id ended part) := by
  rw [← h.own]
  exact AList.lookup_insert s.streams

theorem Uploading.more (hr : Room s stream (part :: parts)) :
    s.consumeFrame (dataFrame id false part) [] .accepted = (after s stream id false part, .ready) ∧
      Uploading (after s stream id false part) id request (grown s stream id false part) ∧
      Room (after s stream id false part) (grown s stream id false part) parts := by
  have hc := (consume_data (data_hears h hr false) rfl [] .accepted).trans (handleData_room h hr)
  refine ⟨hc, ?_, ?_⟩
  · exact {
      connected := h.connected
      settled := h.settled
      idle := h.idle
      client := h.client
      found := grown_found h
      own := h.own
      headed := h.headed
      running := (dataFrame_flags id false part).1
      opened := by
        rw [grown, SessionFrames.dataStored, (dataFrame_flags id false part).1]
        exact h.opened
      waiting := h.waiting
      asked := h.asked }
  · refine ⟨fun other ho => hr.frames other (List.mem_cons_of_mem _ ho), hr.own.2, hr.shared.2, ?_⟩
    have hb := hr.body
    rw [List.flatten_cons, List.length_append] at hb
    rw [grown, SessionFrames.dataStored, List.length_append, Nat.add_assoc]
    exact hb

theorem Uploading.last (hr : Room s stream [part]) :
    ∃ t, s.consumeFrame (dataFrame id true part) [] .accepted = (t, .ready) ∧
      Dispatches s { request with body := stream.body ++ part } t := by
  have hc := (consume_data (data_hears h hr true) rfl [] .accepted).trans (handleData_room h hr)
  have hd : SessionFrames.Dispatches (after s stream id true part)
      (grown s stream id true part) request .accepted
      ((after s stream id true part).dispatchRequest id .accepted).1
      ((after s stream id true part).dispatchRequest id .accepted).2 :=
    SessionFrames.dispatchRequest_dispatches (grown_found h) h.own h.asked h.headed
      (dataFrame_flags id true part).1 h.waiting
  rw [if_pos rfl] at hc
  generalize ho : (after s stream id true part).dispatchRequest id .accepted = outcome at hc hd
  obtain ⟨t, status⟩ := outcome
  cases hd with
  | accepted => exact ⟨_, hc, rfl, h.connected⟩

theorem Uploading.run (hf : parts ≠ []) (hr : Room s stream parts) :
    ∃ t, Reads s (dataFrames id parts) t ∧
      Dispatches s { request with body := stream.body ++ parts.flatten } t := by
  induction parts generalizing s stream with
  | nil => exact absurd rfl hf
  | cons part parts ih =>
    rw [dataFrames, framesOf]
    cases parts with
    | nil =>
      obtain ⟨t, hc, hd⟩ := h.last hr
      rw [List.flatten_cons, List.flatten_nil, List.append_nil]
      exact ⟨t, .cons h.connected hc (.nil hd.connected), hd⟩
    | cons next parts =>
      obtain ⟨hc, hm, hre⟩ := h.more hr
      obtain ⟨t, hreads, hd⟩ := ih hm (List.cons_ne_nil _ _) hre
      rw [List.flatten_cons, ← List.append_assoc]
      exact ⟨t, .cons h.connected hc hreads, hd.dispatched, hd.connected⟩

end

end Data

/-- A request that the session has room for: the frames of its header block, which decodes to
`fields`, and of its data. -/
structure Upload (s : H2Session) (id : UInt32) (first : Octets) (fragments parts : List Octets)
    (fields : List HttpHeader) : Prop where
  opens : Opens s id
  block : ∀ fragment ∈ first :: fragments, fragment.length ≤ s.config.maximumFrameSize.toNat
  decoded : (s.hpackDecoder.decode (first ++ fragments.flatten)).2 = .ok fields
  data : ∀ part ∈ parts, part.length ≤ s.config.maximumFrameSize.toNat
  own : Credited s.config.initialWindowSize s.config.initialWindowSize parts
  shared : Credited s.config.initialWindowSize s.connectionRecvWindow parts
  body : parts.flatten.length ≤ s.config.maximumRequestBodySize

/-- There is room for the data once the header block has been read. -/
theorem Upload.room {id : UInt32} (h : Upload s id first fragments parts fields) (block : Octets)
    (codec : HpackCodec) (request : HttpRequest) :
    Room (headed s id block codec request) (asked s id block request) parts where
  frames := h.data
  own := h.own
  shared := h.shared
  body := by
    have he : (asked s id block request).body = [] := rfl
    rw [he, List.length_nil, Nat.zero_add]
    exact h.body

/-- Such a request is dispatched. -/
theorem Upload.dispatched {id : UInt32}
    (h : Upload s id first fragments parts fields)
    (ha : assembleRequest s.connectionId id fields = some a) (hc : a.complete = true) :
    ∃ t, Reads s (requestFrames id first fragments parts) t ∧
      Dispatches s { a.request with body := parts.flatten } t := by
  have hde : s.hpackDecoder.decode (first ++ fragments.flatten) =
      ((s.hpackDecoder.decode (first ++ fragments.flatten)).1, .ok fields) :=
    Prod.ext rfl h.decoded
  obtain ⟨t, hreads, hh⟩ := head_run h.opens parts.isEmpty first fragments h.block hde ha hc
  rw [requestFrames, ← List.cons_append]
  cases parts with
  | nil =>
    rw [dataFrames, framesOf, List.append_nil]
    exact ⟨t, hreads, hh⟩
  | cons part parts =>
    rw [Headed, List.isEmpty_cons, if_neg Bool.false_ne_true] at hh
    subst hh
    obtain ⟨u, hda, hd⟩ := (headed_uploading h.opens).run
      (List.cons_ne_nil _ _) (h.room _ _ a.request)
    exact ⟨u, hreads.append hda, hd.dispatched, hd.connected⟩

end IocpRuntime.Proofs.RequestUploads
