import IocpRuntime.Proofs.RequestFields
import IocpRuntime.Proofs.StreamEnds

namespace IocpRuntime.Proofs.RequestAssembly
open Lib Http Http2 Http2.H2Session SessionFrames SessionRuns StreamEnds
open RequestFields (assembled_carries)
open Requests (Decoded HeadOf RequestOf blockComplete blockComplete_append block_append body_append
  decoder_append ended_append isData isHeader unpadded)

variable {a : Assembly}
  {id : UInt32}

/-- `HandleData` cuts off what is padding. -/
theorem data_unpadded (hd : Decoded frame)
    (h : dataRange frame.header frame.payload = some (offset, size)) :
    slice frame.payload offset (offset + size) = unpadded frame := by
  simp only [dataRange, Option.ite_none_left_eq_some, Option.some.injEq, Prod.mk.injEq] at h
  obtain ⟨-, -, rfl, rfl⟩ := h
  unfold unpadded slice
  rw [← hd]
  cases frame.header.has .padded <;> simp

/-- `HandleHeaders` cuts off padding and priority fields. -/
theorem header_fragment (hd : Decoded frame)
    (h : headerFragment frame.header frame.payload = some fragment) :
    fragment = Requests.fragment frame := by
  simp only [headerFragment, Option.ite_none_left_eq_some, Option.some.injEq] at h
  obtain ⟨-, -, rfl⟩ := h
  unfold Requests.fragment unpadded slice
  rw [← hd]
  by_cases ht : frame.header.type = .continuation
  · simp [ht]
  · cases frame.header.has .padded <;> cases frame.header.has .priority <;>
      simp [ht, List.drop_take] <;> omega

def About (id : UInt32) (frame : Frame) : Prop :=
  (isHeader frame = true ∨ isData frame = true) ∧ frame.header.streamId = id

/-- An open stream holds what the frames say about it. -/
structure Told (options : HpackOptions) (connectionId : Nat) (frames : List Frame) (id : UInt32)
    (stream : H2Stream) : Prop where
  block : stream.headerBlock = Requests.block id frames
  body : stream.body = Requests.body id frames
  complete : stream.headersComplete = blockComplete id frames
  ended : stream.endStream = Requests.ended id frames
  head : ∀ request, stream.request = some request →
    HeadOf options connectionId frames id request

structure Assembled (options : HpackOptions) (connectionId : Nat) (frames : List Frame)
    (s : H2Session) : Prop where
  connection : s.connectionId = connectionId
  decoder : s.hpackDecoder = Requests.decoder options frames
  stream : ∀ id stream, s.streams.lookup id = some stream →
    Told options connectionId frames id stream
  later : ∀ id, s.lastStreamId < id → ∀ frame ∈ frames, ¬ About id frame

section Telling
variable {connectionId : Nat}
  {frame : Frame}

/-- Nothing is known of a stream that no frame is about. -/
theorem unheard (h : ∀ frame ∈ frames, ¬ About id frame) :
    Requests.block id frames = [] ∧ Requests.body id frames = [] ∧
      blockComplete id frames = false ∧ Requests.ended id frames = false := by
  have hhe : ∀ frame ∈ frames, isHeader frame = true → frame.header.streamId ≠ id :=
    fun frame hf hh hid => h frame hf ⟨Or.inl hh, hid⟩
  have hda : ∀ frame ∈ frames, isData frame = true → frame.header.streamId ≠ id :=
    fun frame hf hd hid => h frame hf ⟨Or.inr hd, hid⟩
  refine ⟨?_, ?_, ?_, ?_⟩
  · simp only [Requests.block, List.flatMap_eq_nil_iff, List.mem_filter]
    rintro frame ⟨hf, hm⟩
    simp only [Bool.and_eq_true, beq_iff_eq] at hm
    exact absurd hm.2 (hhe frame hf hm.1)
  · simp only [Requests.body, List.flatMap_eq_nil_iff, List.mem_filter]
    rintro frame ⟨hf, hm⟩
    simp only [Bool.and_eq_true, beq_iff_eq] at hm
    exact absurd hm.2 (hda frame hf hm.1)
  · simp only [blockComplete, List.any_eq_false]
    intro frame hf hm
    simp only [Bool.and_eq_true, beq_iff_eq] at hm
    exact hhe frame hf hm.1.1 hm.1.2
  · simp only [Requests.ended, List.any_eq_false]
    intro frame hf hm
    simp only [Bool.and_eq_true, Bool.or_eq_true, beq_iff_eq] at hm
    obtain ⟨⟨hhd | hda', hid⟩, -⟩ := hm
    · exact hhe frame hf (by simp [isHeader, hhd]) hid
    · exact hda frame hf hda' hid

theorem unmoved (frames : List Frame) (h : ¬ About id frame) :
    Requests.block id (frames ++ [frame]) = Requests.block id frames ∧
      Requests.body id (frames ++ [frame]) = Requests.body id frames ∧
      blockComplete id (frames ++ [frame]) = blockComplete id frames ∧
      Requests.ended id (frames ++ [frame]) = Requests.ended id frames := by
  rw [block_append, body_append, blockComplete_append,
    ended_append]
  by_cases hid : frame.header.streamId = id
  · have hhe : isHeader frame = false :=
      Bool.eq_false_iff.mpr (fun hh => h ⟨Or.inl hh, hid⟩)
    have hda : isData frame = false :=
      Bool.eq_false_iff.mpr (fun hd => h ⟨Or.inr hd, hid⟩)
    have hhd : (frame.header.type == .headers) = false := by
      simp only [isHeader, Bool.or_eq_false_iff] at hhe
      exact hhe.1
    simp [hhe, hda, hhd]
  · simp [hid]

theorem Told.other (h : Told options connectionId frames id stream)
    (ho : ¬ About id frame) : Told options connectionId (frames ++ [frame]) id stream := by
  obtain ⟨hb, hbo, hc, he⟩ := unmoved frames ho
  exact ⟨h.block.trans hb.symm, h.body.trans hbo.symm, h.complete.trans hc.symm,
    h.ended.trans he.symm, fun request hr => (h.head request hr).append hb⟩

/-- A frame about no stream, after which no new stream is open. -/
theorem Assembled.aside (h : Assembled options connectionId frames s)
    (hh : isHeader frame = false) (hda : isData frame = false)
    (hc : t.connectionId = s.connectionId) (hd : t.hpackDecoder = s.hpackDecoder)
    (hla : t.lastStreamId = s.lastStreamId)
    (he : ∀ id stream, t.streams.lookup id = some stream →
      s.streams.lookup id = some stream) :
    Assembled options connectionId (frames ++ [frame]) t := by
  have ho : ∀ id, ¬ About id frame := by
    intro id ha
    simp [About, hh, hda] at ha
  refine ⟨hc.trans h.connection, ?_, ?_, ?_⟩
  · rw [hd, h.decoder, decoder_append, hh]
    rfl
  · intro id stream hl
    exact (h.stream id stream (he id stream hl)).other (ho id)
  · intro id hid other hmem
    rw [hla] at hid
    rcases List.mem_append.mp hmem with hmem | hmem
    · exact h.later id hid other hmem
    · rw [List.mem_singleton.mp hmem]
      exact ho id

/-- The stream of a HEADERS or CONTINUATION frame, before and after its fragment. -/
structure Growing (options : HpackOptions) (connectionId : Nat) (frames : List Frame) (s : H2Session)
    (frame : Frame) (t : H2Session) (stream : H2Stream) : Prop where
  header : isHeader frame = true
  block : stream.headerBlock = Requests.block frame.header.streamId (frames ++ [frame])
  body : stream.body = Requests.body frame.header.streamId (frames ++ [frame])
  ended : stream.endStream = Requests.ended frame.header.streamId (frames ++ [frame])
  incomplete : blockComplete frame.header.streamId frames = false
  unrequested : stream.request = none
  others : ∀ id other, id ≠ frame.header.streamId → t.streams.lookup id = some other →
    Told options connectionId (frames ++ [frame]) id other
  later : ∀ id, t.lastStreamId < id → ∀ frame' ∈ frames ++ [frame], ¬ About id frame'

theorem Heads.typed (h : Heads s frame.header t stream) :
    frame.header.type = .headers ∨ frame.header.type = .continuation := by
  cases h with
  | opens type => exact Or.inl type
  | continues type => exact Or.inr type

theorem Heads.told (h : Heads s frame.header t stream)
    (ha : Assembled options connectionId frames s) :
    Told options connectionId frames frame.header.streamId stream := by
  cases h with
  | opens type odd newer fresh room =>
    obtain ⟨hb, hbo, hc, he⟩ := unheard (ha.later _ newer)
    exact ⟨hb.symm, hbo.symm, hc.symm, he.symm, fun request h => by cases h⟩
  | continues type found expected => exact ha.stream _ _ found

theorem Heads.later (h : Heads s frame.header t stream) (hs : Sound s)
    (ha : Assembled options connectionId frames s) (hid : t.lastStreamId < id) :
    ∀ frame' ∈ frames ++ [frame], ¬ About id frame' := by
  have hl := (h.found hs).last
  intro frame' hmem
  rcases List.mem_append.mp hmem with hmem | hmem
  · exact ha.later id (UInt32.lt_of_le_of_lt h.last_le hid) frame' hmem
  · rw [List.mem_singleton.mp hmem]
    intro hab
    rw [← hab.2] at hid
    exact absurd hl (UInt32.not_le.mpr hid)

theorem Assembles.growing (h : Assembles s frame t stream) (hs : Sound s)
    (ha : Assembled options connectionId frames s) (hde : Decoded frame) :
    Growing options connectionId frames s frame t stream := by
  have hf := h.found hs
  have hr := Option.isSome_eq_false_iff.mp (h.unrequested hs)
  have hn : isData frame = false := by
    simp [isData, Assembles.not_data h]
  cases h with
  | @fragment t old piece heads cut =>
    have ht := Heads.typed heads
    have hto := Heads.told heads ha
    have hh : isHeader frame = true := by
      simpa [isHeader] using ht
    have hi := hto.complete.symm.trans (heads.found hs).incomplete
    refine ⟨hh, ?_, ?_, ?_, hi, Option.isNone_iff_eq_none.mp hr, ?_,
      fun id hid => Heads.later heads hs ha hid⟩
    · rw [block_append]
      simp [H2Stream.appendHeaderFragment, hto.block, hh, header_fragment hde cut]
    · rw [body_append]
      simp [H2Stream.appendHeaderFragment, hto.body, hn]
    · rw [ended_append]
      have hd : (FrameType.headers != FrameType.continuation) = true := by decide
      have hd' : (FrameType.continuation == FrameType.headers) = false := by decide
      rcases ht with hty | hty
      · simp [H2Stream.appendHeaderFragment, hto.ended, hn, hty, hd]
      · simp [H2Stream.appendHeaderFragment, hto.ended, hn, hty, hd']
    · intro id other hne hl
      have ho : ¬ About id frame := fun hab => hne hab.2.symm
      rw [hf.others id hne] at hl
      exact (ha.stream id other hl).other ho

section

variable (h : Growing options connectionId frames s frame t stream)
include h

/-- The stream of the frame once its block is complete. -/
theorem Growing.head
    (ha : Assembled options connectionId frames s) (hl : frame.header.has .endHeaders = true)
    (hd : s.hpackDecoder.decode stream.headerBlock = (decoder, .ok decoded))
    (hass : assembleRequest s.connectionId frame.header.streamId decoded = some a)
    (hco : a.complete = true) :
    HeadOf options connectionId (frames ++ [frame]) frame.header.streamId a.request := by
  obtain ⟨hc, hs, hca⟩ := assembled_carries hass hco
  refine ⟨hc.trans ha.connection, hs, frames, frame, [], decoder, decoded, rfl,
    h.header, rfl, hl, ?_, hca⟩
  rw [← ha.decoder, ← h.block]
  exact hd

theorem Growing.decoding
    (ha : Assembled options connectionId frames s) (hl : frame.header.has .endHeaders = true)
    (hd : s.hpackDecoder.decode stream.headerBlock = (decoder, result)) :
    decoder = Requests.decoder options (frames ++ [frame]) := by
  rw [decoder_append, h.header, hl, ← ha.decoder, ← h.block, hd]
  rfl

theorem Growing.partly
    (hf : Found s frame.header t stream) (ha : Assembled options connectionId frames s)
    (hm : frame.header.has .endHeaders = false) :
    Assembled options connectionId (frames ++ [frame])
      { t with continuationStreamId := some frame.header.streamId } := by
  refine ⟨hf.connectionId.trans ha.connection, ?_, ?_, h.later⟩
  · dsimp only
    rw [hf.decoder, ha.decoder, decoder_append, h.header, hm]
    rfl
  · intro id other hl
    by_cases hid : id = frame.header.streamId
    · subst hid
      cases hf.here.symm.trans hl
      refine ⟨h.block, h.body, ?_, h.ended, ?_⟩
      · rw [hf.incomplete, blockComplete_append, h.incomplete, hm]
        simp
      · intro request hr
        rw [h.unrequested] at hr
        cases hr
    · exact h.others id other hid hl

/-- The session after a complete header block, if the stream is not open any more. -/
theorem Growing.finished
    (ha : Assembled options connectionId frames s) (hls : frame.header.has .endHeaders = true)
    (hde : s.hpackDecoder.decode stream.headerBlock = (decoder, result))
    (hc : u.connectionId = s.connectionId) (hd : u.hpackDecoder = decoder)
    (hla : u.lastStreamId = t.lastStreamId)
    (he : ∀ id other, u.streams.lookup id = some other →
      id ≠ frame.header.streamId ∧ t.streams.lookup id = some other) :
    Assembled options connectionId (frames ++ [frame]) u := by
  refine ⟨hc.trans ha.connection, hd.trans (h.decoding ha hls hde), ?_, ?_⟩
  · intro id other hl
    obtain ⟨hne, hold⟩ := he id other hl
    exact h.others id other hne hold
  · intro id hid
    rw [hla] at hid
    exact h.later id hid

/-- A stream whose request waits for data. -/
theorem Growing.headed
    (hf : Found s frame.header t stream) (ha : Assembled options connectionId frames s)
    (hla : frame.header.has .endHeaders = true)
    (hd : s.hpackDecoder.decode stream.headerBlock = (decoder, .ok decoded))
    (hass : assembleRequest s.connectionId frame.header.streamId decoded = some a)
    (hc : a.complete = true) :
    Assembled options connectionId (frames ++ [frame])
      ({ t with continuationStreamId := none, hpackDecoder := decoder }.setStream
        (requestStored stream a.request)) := by
  refine ⟨hf.connectionId.trans ha.connection, h.decoding ha hla hd, ?_, h.later⟩
  intro id other hl
  rcases Maps.of_lookup_insert hl with ⟨rfl, rfl⟩ | ⟨hne, hold⟩
  · have hkey : (requestStored stream a.request).streamId = frame.header.streamId := hf.key
    rw [hkey]
    refine ⟨h.block, h.body, ?_, h.ended, ?_⟩
    · rw [blockComplete_append, h.header, hla]
      simp [requestStored]
    · intro request hr
      cases hr
      exact h.head ha hla hd hass hc
  · have hne' : id ≠ frame.header.streamId := fun heq => hne (heq.trans hf.key.symm)
    exact h.others id other hne' hold

end

/-- Fewer streams, and nothing new about them. -/
theorem Assembled.fewer (h : Assembled options connectionId frames s)
    (hc : t.connectionId = s.connectionId) (hd : t.hpackDecoder = s.hpackDecoder)
    (hla : t.lastStreamId = s.lastStreamId)
    (he : ∀ id stream, t.streams.lookup id = some stream →
      s.streams.lookup id = some stream) : Assembled options connectionId frames t :=
  ⟨hc.trans h.connection, hd.trans h.decoder,
    fun id stream hl => h.stream id stream (he id stream hl),
    fun id hid => h.later id (hla ▸ hid)⟩

section

variable (h : Delivers s frame stream offset size)
include h

theorem Delivers.kinds : isHeader frame = false ∧ isData frame = true ∧
      (frame.header.type == .headers) = false := by
  simp only [isHeader, isData, h.type]
  decide

/-- A DATA frame extends the body of its stream, and may end it. -/
theorem Delivers.told (hs : Sound s)
    (ha : Assembled options connectionId frames s) (hd : Decoded frame) :
    Told options connectionId (frames ++ [frame]) frame.header.streamId
      (dataStored s.config.initialWindowSize stream frame.header
        (slice frame.payload offset (offset + size))) := by
  obtain ⟨hh, hda, hhe⟩ := Delivers.kinds h
  have ht := ha.stream _ _ h.found
  have hu := (hs.entry _ _ h.found).unended h.complete
  have hb : Requests.block frame.header.streamId (frames ++ [frame]) =
      Requests.block frame.header.streamId frames := by
    simp [block_append, hh]
  refine ⟨ht.block.trans hb.symm, ?_, ?_, ?_, ?_⟩
  · rw [body_append]
    simp [dataStored, ht.body, hda, data_unpadded hd h.range]
  · rw [blockComplete_append]
    simp [dataStored, ht.complete, hh]
  · rw [ended_append, ← ht.ended]
    simp [dataStored, hu, hda]
  · intro request hr
    exact (ht.head request hr).append hb

theorem Delivers.assembled (hs : Sound s)
    (ha : Assembled options connectionId frames s) (hd : Decoded frame) :
    Assembled options connectionId (frames ++ [frame])
      (dataReceived s stream frame.header (slice frame.payload offset (offset + size))) := by
  obtain ⟨hh, -, -⟩ := Delivers.kinds h
  have he := hs.entry _ _ h.found
  refine ⟨ha.connection, ?_, ?_, ?_⟩
  · rw [decoder_append, hh]
    exact ha.decoder
  · intro id other hl
    rcases Maps.of_lookup_insert hl with ⟨rfl, rfl⟩ | ⟨hne, hold⟩
    · rw [he.key]
      exact Delivers.told h hs ha hd
    · have ho : ¬ About id frame := fun hab => hne (hab.2.symm.trans he.key.symm)
      exact (ha.stream id other hold).other ho
  · intro id hid frame' hmem
    rcases List.mem_append.mp hmem with hmem | hmem
    · exact ha.later id hid frame' hmem
    · rw [List.mem_singleton.mp hmem]
      intro hab
      rw [← hab.2] at hid
      exact absurd he.seen (UInt32.not_le.mpr hid)

end

theorem Delivered.assembled (h : Delivered s frame dispatch t status)
    (hs : Sound s) (ha : Assembled options connectionId frames s)
    (hd : Decoded frame) : Assembled options connectionId (frames ++ [frame]) t := by
  cases h with
  | overrun delivers beyond =>
    refine (Delivers.assembled delivers hs ha hd).fewer rfl rfl rfl ?_
    intro id other hl
    obtain ⟨hne, hold⟩ := Maps.of_lookup_erase hl
    have hkey := (hs.entry _ _ delivers.found).key
    exact (AList.lookup_insert_ne (hkey ▸ hne)).trans hold
  | stored delivers fits unended => exact Delivers.assembled delivers hs ha hd
  | completed delivers fits ended asked dispatches =>
    have hst := Delivers.assembled delivers hs ha hd
    cases dispatches <;>
      exact hst.fewer rfl rfl rfl (fun id other hl => (Maps.of_lookup_erase hl).2)

/-- After every frame the session holds what the frames say. -/
theorem Handled.assembled (h : Handled s frame dispatch t status)
    (hst : status ≠ .protocolError) (hs : Sound s)
    (ha : Assembled options connectionId frames s) (hd : Decoded frame) :
    Assembled options connectionId (frames ++ [frame]) t := by
  cases h with
  | failed => exact absurd rfl hst
  | served served other =>
    refine ha.aside ?_ ?_ served.connectionId served.decoder served.last ?_
    · simp [isHeader, other.1, other.2.1]
    · simp [isData, other.2.2.1]
    · intro id stream hl
      rwa [served.streams] at hl
  | reset type =>
    refine ha.aside ?_ ?_ rfl rfl rfl (fun id stream hl => (Maps.of_lookup_erase hl).2)
    · rw [isHeader, type]
      decide
    · rw [isData, type]
      decide
  | partly assembles more =>
    exact (Assembles.growing assembles hs ha hd).partly (assembles.found hs) ha more
  | garbled assembles last decode =>
    exact (Assembles.growing assembles hs ha hd).finished ha last decode
      (assembles.found hs).connectionId rfl rfl (fun id other hl => Maps.of_lookup_erase hl)
  | headed assembles last decode assembled complete unended =>
    exact (Assembles.growing assembles hs ha hd).headed (assembles.found hs) ha last decode
      assembled complete
  | asked assembles last decode assembled complete ended dispatches =>
    have hsto := (Assembles.growing assembles hs ha hd).headed (assembles.found hs) ha last
      decode assembled complete
    cases dispatches <;>
      exact hsto.fewer rfl rfl rfl (fun id other hl => (Maps.of_lookup_erase hl).2)
  | delivered delivered => exact Delivered.assembled delivered hs ha hd

def Completes (frames : List Frame) (frame : Frame) : Prop :=
  Requests.complete frame.header.streamId (frames ++ [frame]) = true ∧
    Requests.complete frame.header.streamId frames = false

inductive Hands (options : HpackOptions) (connectionId : Nat) (frames : List Frame) (s : H2Session)
    (frame : Frame) (dispatch : HttpDispatchStatus) (t : H2Session) : Prop
  | nothing (dispatched : t.dispatched = s.dispatched)
      (excused : Completes frames frame → dispatch ≠ .accepted ∨
        Resets s t frame.header.streamId ∨ exceedsBodyLimit s frame = true)
  | request {request : HttpRequest} (dispatched : t.dispatched = s.dispatched ++ [request])
      (told : RequestOf options connectionId (frames ++ [frame]) frame.header.streamId
        request)
      (completes : Completes frames frame) (accepted : dispatch = .accepted)
      (kept : ¬ Resets s t frame.header.streamId) (fits : exceedsBodyLimit s frame = false)

/-- A frame that leaves the request incomplete, or was too late to complete it. -/
theorem Hands.idle (hd : t.dispatched = s.dispatched) (hi : ¬ Completes frames frame) :
    Hands options connectionId frames s frame dispatch t :=
  .nothing hd (fun hc => absurd hc hi)

theorem Hands.aside (hd : t.dispatched = s.dispatched)
    (hh : isHeader frame = false) (hda : isData frame = false) :
    Hands options connectionId frames s frame dispatch t := by
  refine .idle hd (fun hc => ?_)
  have ho : ¬ About frame.header.streamId frame := by
    simp [About, hh, hda]
  obtain ⟨-, -, hb, he⟩ := unmoved frames ho
  have hs : Requests.complete frame.header.streamId (frames ++ [frame]) =
      Requests.complete frame.header.streamId frames := by
    simp [Requests.complete, hb, he]
  rw [Completes, hs] at hc
  simp [hc.2] at hc

theorem Growing.hands
    (h : Growing options connectionId frames s frame t stream) (hf : Found s frame.header t stream)
    (ha : Assembled options connectionId frames s) (hl : frame.header.has .endHeaders = true)
    (hde : s.hpackDecoder.decode stream.headerBlock = (decoder, .ok decoded))
    (hass : assembleRequest s.connectionId frame.header.streamId decoded = some a)
    (hc : a.complete = true) (he : stream.endStream = true)
    (hfi : exceedsBodyLimit s frame = false)
    (hd : Dispatches
      ({ t with continuationStreamId := none, hpackDecoder := decoder }.setStream
        (requestStored stream a.request)) (requestStored stream a.request) a.request dispatch u
        status) : Hands options connectionId frames s frame dispatch u := by
  have hh := h.head ha hl hde hass hc
  cases hd with
  | accepted =>
    refine .request (congrArg (· ++ _) hf.dispatched) (hh.bodied h.body) ⟨?_, ?_⟩ rfl ?_ hfi
    · simp [Requests.complete, ← h.ended, he, blockComplete_append, h.header, hl]
    · simp [Requests.complete, h.incomplete]
    · simp [Resets, H2Session.setStream, hf.sent]
  | saturated => exact .nothing hf.dispatched (fun _ => Or.inl (by simp))
  | stopped => exact .nothing hf.dispatched (fun _ => Or.inl (by simp))

/-- DATA on a stream finds its request incomplete. -/
theorem Delivers.incomplete (h : Delivers s frame stream offset size) (hs : Sound s)
    (ha : Assembled options connectionId frames s) :
    Requests.complete frame.header.streamId frames = false := by
  have hu := (hs.entry _ _ h.found).unended h.complete
  rw [(ha.stream _ _ h.found).ended] at hu
  simp [Requests.complete, hu]

theorem dataReceived_keeps (stream : H2Stream) (header : FrameHeader) (data : Octets)
    (hs : t.sent = (dataReceived s stream header data).sent) : ¬ Resets s t id := by
  rintro ⟨answer, ha, hty, -⟩
  have ht : ∀ initial id window, answer ∈ topUp initial id window →
      answer.header.type = .windowUpdate := by
    intro initial id window hmem
    simp only [topUp] at hmem
    split at hmem
    · rw [List.mem_singleton.mp hmem]
    · cases hmem
  rw [hs, dataReceived, List.drop_left] at ha
  have hu := (List.mem_append.mp ha).elim (ht _ _ _) (ht _ _ _)
  rw [hu] at hty
  cases hty

theorem Delivered.hands (h : Delivered s frame dispatch t status)
    (hs : Sound s) (hst : s.state = .connected) (had : Admitted s frame.header)
    (ha : Assembled options connectionId frames s) (hd : Decoded frame) :
    Hands options connectionId frames s frame dispatch t := by
  cases h with
  | overrun delivers beyond =>
    have he := (exceedsBodyLimit_of_overrun hs hst had delivers).mpr beyond
    exact .nothing rfl (fun _ => Or.inr (Or.inr he))
  | stored delivers fits unended =>
    refine .idle rfl (fun hc => ?_)
    have hen := (Delivers.told delivers hs ha hd).ended
    simp only [dataStored, unended] at hen
    simp [Completes, Requests.complete, ← hen] at hc
  | @completed t stream request offset size status delivers fits ended asked dispatches =>
    have he := mt (exceedsBodyLimit_of_overrun hs hst had delivers).mp fits
    have ht := Delivers.told delivers hs ha hd
    cases dispatches with
    | accepted =>
      refine .request rfl ((ht.head request asked).bodied ht.body)
        ⟨?_, Delivers.incomplete delivers hs ha⟩ rfl
        (dataReceived_keeps stream frame.header (slice frame.payload offset (offset + size)) rfl)
        (Bool.eq_false_iff.mpr he)
      simp [Requests.complete, ← ht.complete, ← ht.ended, dataStored, delivers.complete, ended]
    | saturated => exact .nothing rfl (fun _ => Or.inl (by simp))
    | stopped => exact .nothing rfl (fun _ => Or.inl (by simp))

/-- A frame hands over the request that it completes, and no other. -/
theorem Handled.hands (h : Handled s frame dispatch t status)
    (hst : status ≠ .protocolError) (hs : Sound s) (hsta : s.state = .connected)
    (had : Admitted s frame.header) (ha : Assembled options connectionId frames s)
    (hd : Decoded frame) : Hands options connectionId frames s frame dispatch t := by
  cases h with
  | failed => exact absurd rfl hst
  | served served other =>
    refine .aside served.dispatched ?_ ?_
    · simp [isHeader, other.1, other.2.1]
    · simp [isData, other.2.2.1]
  | reset type =>
    refine .aside rfl ?_ ?_
    · rw [isHeader, type]
      decide
    · rw [isData, type]
      decide
  | @partly t stream assembles more =>
    have hg := Assembles.growing assembles hs ha hd
    have hdi : ({ t with continuationStreamId := some frame.header.streamId } :
        H2Session).dispatched = s.dispatched := (assembles.found hs).dispatched
    refine .idle hdi (fun hc => ?_)
    simp [Completes, Requests.complete, blockComplete_append, hg.incomplete, more] at hc
  | @garbled t stream decoder thrown assembles last decode =>
    have hf := assembles.found hs
    refine .nothing hf.dispatched (fun _ => Or.inr (Or.inl ?_))
    simp [Resets, H2Session.closeStream, H2Session.sendRstStream, H2Session.send, hf.sent,
      encodeRstStream]
  | headed assembles last decode assembled complete unended =>
    have hg := Assembles.growing assembles hs ha hd
    refine .idle (assembles.found hs).dispatched (fun hc => ?_)
    simp [Completes, Requests.complete, ← hg.ended, unended] at hc
  | asked assembles last decode assembled complete ended dispatches =>
    exact (Assembles.growing assembles hs ha hd).hands (assembles.found hs) ha last decode
      assembled complete ended (exceedsBodyLimit_type (Assembles.not_data assembles)) dispatches
  | delivered delivered => exact Delivered.hands delivered hs hsta had ha hd

end Telling

def handledFrame (event : Runs.Event H2Session Input) : Option Frame :=
  match event.input with
  | .frame frame _ _ => if event.before.state = .connected then some frame else none
  | _ => none

def handledFrames (log : List (Runs.Event H2Session Input)) : List Frame :=
  log.filterMap handledFrame

def openedStream (event : Runs.Event H2Session Input) : Option UInt32 :=
  match event.input with
  | .frame frame _ _ =>
    if frame.header.type = .headers ∧ event.before.state = .connected ∧
        (event.after handle).state ≠ .closed then
      some frame.header.streamId
    else none
  | _ => none

def openedStreams (log : List (Runs.Event H2Session Input)) : List UInt32 :=
  log.filterMap openedStream

section Runs
variable {connectionId : Nat}

theorem openedStream_eq_some (hh : Healthy event.before) (h : openedStream event = some id) :
    event.before.state ≠ .closed ∧ (event.after handle).state ≠ .closed ∧ id % 2 = 1 ∧
      event.before.lastStreamId < id ∧ (event.after handle).lastStreamId = id ∧
      event.before.streams.entries.length < event.before.config.maximumConcurrentStreams := by
  obtain ⟨s, input⟩ := event
  cases input with
  | frame frame order dispatch =>
    simp only [openedStream, Option.ite_none_right_eq_some, Option.some.injEq] at h
    obtain ⟨⟨ht, hst, hop⟩, rfl⟩ := h
    have hl : s.state ≠ .closed := by
      rw [hst]
      decide
    refine ⟨hl, hop, ?_⟩
    have hs := handle_steps hh (.frame frame order dispatch)
    dsimp only [Runs.Event.after] at hs hop ⊢
    generalize s.handle (.frame frame order dispatch) = t at hs hop ⊢
    cases hs with
    | frame received =>
      cases received with
      | ignored unconnected => exact absurd hst unconnected
      | handled connected admitted handled well =>
        have ho := Handled.opens handled well ht
        exact ⟨ho.odd, ho.newer, ho.last, ho.room⟩
      | failed => exact absurd rfl hop
  | _ => cases h

/-- The streams of a run are odd and increasing. -/
structure Opened (log : List (Runs.Event H2Session Input)) (s : H2Session) : Prop where
  odd : ∀ id ∈ openedStreams log, id % 2 = 1
  seen : s.state ≠ .closed → ∀ id ∈ openedStreams log, id ≤ s.lastStreamId
  increasing : (openedStreams log).Pairwise (· < ·)

theorem openedStreams_append :
    openedStreams (log ++ [event]) = openedStreams log ++ (openedStream event).toList := by
  cases ho : openedStream event <;> simp [openedStreams, ho]

theorem Opened.next (hh : Healthy event.before) (h : Opened log event.before) :
    Opened (log ++ [event]) (event.after handle) := by
  have ha : openedStreams (log ++ [event]) = _ := openedStreams_append
  cases ho : openedStream event with
  | none =>
    rw [ho, Option.toList_none, List.append_nil] at ha
    refine ⟨ha ▸ h.odd, fun hop id hid => ?_, ha ▸ h.increasing⟩
    rw [ha] at hid
    obtain ⟨hl, hla⟩ := (handle_steps hh event.input).last_le hh hop
    exact UInt32.le_trans (h.seen hl id hid) hla
  | some id =>
    obtain ⟨hl, -, hodd, hn, hla, -⟩ := openedStream_eq_some hh ho
    rw [ho, Option.toList_some] at ha
    have hb : ∀ old ∈ openedStreams log, old < id :=
      fun old hold => UInt32.lt_of_le_of_lt (h.seen hl old hold) hn
    refine ⟨?_, fun _ => ?_, ?_⟩ <;> rw [ha]
    · simpa [or_imp, forall_and] using ⟨h.odd, hodd⟩
    · simpa [or_imp, forall_and, hla] using fun old hold => UInt32.le_of_lt (hb old hold)
    · simpa [List.pairwise_append] using ⟨h.increasing, hb⟩

structure Tracked (options : HpackOptions) (connectionId : Nat)
    (log : List (Runs.Event H2Session Input)) (s : H2Session) : Prop where
  healthy : Healthy s
  assembled : s.state ≠ .closed → Assembled options connectionId (handledFrames log) s
  complete : ∀ request ∈ s.dispatched, ∃ id : UInt32, request.requestId = id.toNat ∧
    Requests.complete id (handledFrames log) = true
  once : (s.dispatched.map HttpRequest.requestId).Nodup

theorem handledFrames_append :
    handledFrames (log ++ [event]) = handledFrames log ++ (handledFrame event).toList := by
  cases hf : handledFrame event <;> simp [handledFrames, hf]

theorem complete_append
    (h : Requests.complete id frames = true) : Requests.complete id (frames ++ more) = true := by
  simp only [Requests.complete, blockComplete, Requests.ended, Bool.and_eq_true] at h ⊢
  rw [List.any_append, List.any_append, h.1, h.2]
  simp

theorem Tracked.quiet (h : Tracked options connectionId log event.before)
    (hd : (event.after handle).dispatched = event.before.dispatched)
    (ha : (event.after handle).state ≠ .closed →
      Assembled options connectionId (handledFrames (log ++ [event])) (event.after handle)) :
    Tracked options connectionId (log ++ [event]) (event.after handle) := by
  refine ⟨handle_healthy h.healthy event.input, ha, ?_, hd ▸ h.once⟩
  intro request hr
  rw [hd] at hr
  obtain ⟨id, hid, hc⟩ := h.complete request hr
  rw [handledFrames_append]
  exact ⟨id, hid, complete_append hc⟩

/-- An event that dispatches the request it completes: no earlier one has its number. -/
theorem Tracked.dispatching
    (h : Tracked options connectionId log event.before) (hf : handledFrame event = some frame)
    (hd : (event.after handle).dispatched = event.before.dispatched ++ [request])
    (hs : request.requestId = frame.header.streamId.toNat)
    (hco : Completes (handledFrames log) frame)
    (ha : (event.after handle).state ≠ .closed →
      Assembled options connectionId (handledFrames (log ++ [event])) (event.after handle)) :
    Tracked options connectionId (log ++ [event]) (event.after handle) := by
  refine ⟨handle_healthy h.healthy event.input, ha, ?_, ?_⟩
  · rw [handledFrames_append, hf, hd]
    intro other ho
    rcases List.mem_append.mp ho with ho | ho
    · obtain ⟨id, hid, hc⟩ := h.complete other ho
      exact ⟨id, hid, complete_append hc⟩
    · rw [List.mem_singleton.mp ho]
      exact ⟨frame.header.streamId, hs, hco.1⟩
  · rw [hd, List.map_append, List.nodup_append]
    refine ⟨h.once, List.nodup_singleton _, ?_⟩
    intro number hn number' hn' heq
    obtain ⟨other, ho, rfl⟩ := List.mem_map.mp hn
    obtain ⟨id, hid, hc⟩ := h.complete other ho
    have hsa : id = frame.header.streamId := by
      rw [List.map_singleton, List.mem_singleton] at hn'
      exact UInt32.toNat_inj.mp (by rw [← hid, heq, hn', hs])
    rw [hsa, hco.2] at hc
    cases hc

theorem Steps.unread (h : Steps s input t) (hf : received [input] = []) :
    t.dispatched = s.dispatched ∧ (t.state ≠ .closed → s.state ≠ .closed ∧
      t.connectionId = s.connectionId ∧ t.hpackDecoder = s.hpackDecoder ∧
      t.lastStreamId = s.lastStreamId ∧ t.streams = s.streams) := by
  cases h with
  | frame => cases hf
  | overflow => exact ⟨failConnection_dispatched s _, fun ho => absurd rfl ho⟩
  | gone => exact ⟨rfl, fun ho => ⟨ho, rfl, rfl, rfl, rfl⟩⟩
  | respond => exact ⟨rfl, fun ho => ⟨ho, rfl, rfl, rfl, rfl⟩⟩
  | goaway connected =>
    refine ⟨rfl, fun _ => ⟨?_, rfl, rfl, rfl, rfl⟩⟩
    rw [connected]
    decide
  | silent => exact ⟨rfl, fun ho => ⟨ho, rfl, rfl, rfl, rfl⟩⟩
  | close => exact ⟨rfl, fun ho => absurd rfl ho⟩

theorem Tracked.unread (h : Tracked options connectionId log event.before)
    (hf : received [event.input] = []) :
    Tracked options connectionId (log ++ [event]) (event.after handle) := by
  obtain ⟨hd, ho⟩ := Steps.unread (handle_steps h.healthy event.input) hf
  refine h.quiet hd (fun hli => ?_)
  obtain ⟨hb, hc, hde, hla, hs⟩ := ho hli
  have hn : handledFrame event = none := by
    obtain ⟨s, input⟩ := event
    cases input with
    | frame => cases hf
    | _ => rfl
  rw [handledFrames_append, hn, Option.toList_none, List.append_nil]
  exact (h.assembled hb).fewer hc hde hla (fun _ _ hl => hs ▸ hl)

/-- A frame that meets a connected session fails it, or may hand over a request. -/
theorem Tracked.hands (h : Tracked options connectionId log s)
    (hst : s.state = .connected) (hd : Decoded frame) :
    (s.handle (.frame frame order dispatch)).state = .closed ∧
        (s.handle (.frame frame order dispatch)).dispatched = s.dispatched ∨
      (s.handle (.frame frame order dispatch)).state ≠ .closed ∧
        Hands options connectionId (handledFrames log) s frame dispatch
          (s.handle (.frame frame order dispatch)) ∧
        Assembled options connectionId (handledFrames log ++ [frame])
          (s.handle (.frame frame order dispatch)) := by
  have hste := handle_steps h.healthy (.frame frame order dispatch)
  have hs := h.healthy.sound hst
  have hl : s.state ≠ .closed := by
    rw [hst]
    decide
  generalize s.handle (.frame frame order dispatch) = t at hste ⊢
  cases hste with
  | frame received =>
    have hc := Received.closed_iff h.healthy hst received
    cases received with
    | ignored unconnected => exact absurd hst unconnected
    | handled connected admitted handled well =>
      have ho := mt hc.mpr (Handled.status_ne handled)
      exact Or.inr ⟨ho, Handled.hands handled well hs hst admitted (h.assembled hl) hd,
        Handled.assembled handled well hs (h.assembled hl) hd⟩
    | @failed t connected dispatched =>
      exact Or.inl ⟨rfl, (failConnection_dispatched t _).trans dispatched⟩

theorem handle_unconnected {s : H2Session} (hs : s.state ≠ .connected) (frame : Frame)
    (order : List UInt32) (dispatch : HttpDispatchStatus) :
    s.handle (.frame frame order dispatch) = s := by
  simp [H2Session.handle, H2Session.receive, hs]

theorem Tracked.read (h : Tracked options connectionId log s)
    (hde : Decoded frame) :
    Tracked options connectionId (log ++ [⟨s, .frame frame order dispatch⟩])
      (s.handle (.frame frame order dispatch)) := by
  by_cases hs : s.state = .connected
  · have hf : handledFrame ⟨s, .frame frame order dispatch⟩ = some frame := if_pos hs
    have hap : handledFrames (log ++ [⟨s, .frame frame order dispatch⟩]) = _ := handledFrames_append
    rw [hf, Option.toList_some] at hap
    rcases h.hands hs hde with ⟨hc, hd⟩ | ⟨-, hh, ha⟩
    · exact h.quiet hd (fun ho => absurd hc ho)
    · rw [← hap] at ha
      cases hh with
      | nothing dispatched => exact h.quiet dispatched (fun _ => ha)
      | request dispatched told completes =>
        exact h.dispatching hf dispatched told.stream completes (fun _ => ha)
  · have hn : handledFrame ⟨s, .frame frame order dispatch⟩ = none := if_neg hs
    have hsa := handle_unconnected hs frame order dispatch
    refine h.quiet (congrArg H2Session.dispatched hsa) (fun ho => ?_)
    rw [handledFrames_append, hn, Option.toList_none, List.append_nil]
    dsimp only [Runs.Event.after] at ho ⊢
    rw [hsa] at ho ⊢
    exact h.assembled ho

end Runs

end IocpRuntime.Proofs.RequestAssembly
