import IocpRuntime.Http2.Outbound

namespace IocpRuntime.Proofs.OutboundFrames
open Lib Http Http2

def isData (frame : Frame) : Bool := frame.header.type == FrameType.data

def dataPayload (frames : List Frame) : Octets :=
  (frames.filter isData).flatMap Frame.payload

@[simp] theorem dataPayload_append : dataPayload (a ++ b) = dataPayload a ++ dataPayload b := by
  simp [dataPayload]

/-- DATA frames that carry `body[start..stop)`; END_STREAM marks the one that reaches the end. -/
inductive DataRun (streamId : UInt32) (limit : Nat) (body : Octets) :
    Nat → Nat → List Frame → Prop
  | nil (offset : Nat) : DataRun streamId limit body offset offset []
  | cons {offset bytes stop : Nat} {frame : Frame} {frames : List Frame}
      (type : frame.header.type = FrameType.data) (stream : frame.header.streamId = streamId)
      (payload : frame.payload = slice body offset (offset + bytes))
      (positive : 0 < bytes) (short : bytes ≤ limit) (inside : offset + bytes ≤ body.length)
      (marked : frame.header.has .endStream = true ↔ offset + bytes = body.length)
      (rest : DataRun streamId limit body (offset + bytes) stop frames) :
      DataRun streamId limit body offset stop (frame :: frames)

namespace DataRun
theorem le (h : DataRun streamId limit body start stop frames) : start ≤ stop := by
  induction h with
  | nil offset => exact Nat.le_refl _
  | cons _ _ _ _ _ _ _ _ ih => omega

theorem append (h : DataRun streamId limit body start middle frames)
    (h' : DataRun streamId limit body middle stop more) :
    DataRun streamId limit body start stop (frames ++ more) := by
  induction h with
  | nil offset => exact h'
  | cons type stream payload positive short inside marked _ ih =>
    exact .cons type stream payload positive short inside marked (ih h')

theorem mono (hl : limit ≤ limit') (h : DataRun streamId limit body start stop frames) :
    DataRun streamId limit' body start stop frames := by
  induction h with
  | nil offset => exact .nil offset
  | cons type stream payload positive short inside marked _ ih =>
    exact .cons type stream payload positive (Nat.le_trans short hl) inside marked ih

section

variable (h : DataRun streamId limit body start stop frames)
include h

theorem streamId_eq :
    ∀ frame ∈ frames, frame.header.streamId = streamId := by
  induction h with
  | nil offset => simp
  | cons _ stream _ _ _ _ _ _ ih => exact List.forall_mem_cons.mpr ⟨stream, ih⟩

theorem isData_eq :
    ∀ frame ∈ frames, isData frame = true := by
  induction h with
  | nil offset => simp
  | cons type _ _ _ _ _ _ _ ih => exact List.forall_mem_cons.mpr ⟨by simp [isData, type], ih⟩

theorem payload_eq :
    dataPayload frames = slice body start stop := by
  induction h with
  | nil offset => simp [dataPayload, slice]
  | @cons offset bytes stop frame frames type _ payload _ _ _ _ rest ih =>
    have hle := rest.le
    have hs : dataPayload (frame :: frames) = frame.payload ++ dataPayload frames := by
      simp [dataPayload, isData, type]
    rw [hs, payload, ih, slice_append body _ _ _ (by omega) hle]

theorem lengths :
    ∀ frame ∈ frames, frame.payload ≠ [] ∧ frame.payload.length ≤ limit := by
  induction h with
  | nil offset => simp
  | @cons offset bytes stop frame frames _ _ payload positive short inside _ _ ih =>
    have hlen : frame.payload.length = bytes := by
      rw [payload, slice_length _ _ _ inside]
      omega
    exact List.forall_mem_cons.mpr ⟨⟨List.ne_nil_of_length_pos (by omega), by omega⟩, ih⟩

theorem at_end (he : start = body.length) :
    frames = [] := by
  cases h with
  | nil offset => rfl
  | cons _ _ _ positive _ inside _ _ => omega

theorem stop_le (hs : start ≤ body.length) : stop ≤ body.length := by
  induction h with
  | nil offset => exact hs
  | cons _ _ _ _ _ inside _ _ ih => exact ih inside

/-- Cutting a run at one of its frames: END_STREAM is set there exactly when the
payloads up to it reach the end of the body. -/
theorem split (hcut : frames = before ++ frame :: after) :
    ∃ reached, dataPayload (before ++ [frame]) = slice body start reached ∧ start < reached ∧
      reached ≤ body.length ∧ (frame.header.has .endStream = true ↔ reached = body.length) ∧
      DataRun streamId limit body reached stop after := by
  induction h generalizing before with
  | nil offset => simp at hcut
  | @cons offset bytes stop first frames type stream payload positive short inside marked rest ih =>
    cases before with
    | nil =>
      obtain ⟨rfl, rfl⟩ : first = frame ∧ frames = after := by simpa using hcut
      refine ⟨offset + bytes, ?_, by omega, inside, marked, rest⟩
      simp [dataPayload, isData, type, payload]
    | cons head before =>
      obtain ⟨rfl, hr⟩ : first = head ∧ frames = before ++ frame :: after := by simpa using hcut
      obtain ⟨reached, hpay, hlt, hle, hm, ha⟩ := ih hr
      refine ⟨reached, ?_, by omega, hle, hm, ha⟩
      have hh : dataPayload (first :: before ++ [frame]) =
          first.payload ++ dataPayload (before ++ [frame]) := by
        simp [dataPayload, isData, type]
      rw [hh, hpay, payload, slice_append body _ _ _ (by omega) (by omega)]

/-- A run that reaches the end of the body carries END_STREAM. -/
theorem ends (hs : start < stop)
    (hst : stop = body.length) : ∃ frame ∈ frames, frame.header.has .endStream = true := by
  induction h with
  | nil offset => exact absurd hs (Nat.lt_irrefl _)
  | @cons offset bytes stop frame frames _ _ _ _ _ inside marked rest ih =>
    by_cases hend : offset + bytes = body.length
    · exact ⟨frame, List.mem_cons_self, marked.mpr hend⟩
    · have hm : offset + bytes < stop := by
        rw [hst]
        exact Nat.lt_of_le_of_ne inside hend
      obtain ⟨last, hl, hma⟩ := ih hm hst
      exact ⟨last, List.mem_cons_of_mem _ hl, hma⟩

end

end DataRun

theorem bytes_bounds {flush : Flush} (hf : 0 < maximumFrameSize)
    (ho : flush.stream.offset < flush.stream.body.length) (hw : flush.stream.window > 0)
    (hc : flush.connectionWindow > 0) :
    0 < flush.bytes maximumFrameSize ∧ flush.bytes maximumFrameSize ≤ maximumFrameSize ∧
      flush.stream.offset + flush.bytes maximumFrameSize ≤ flush.stream.body.length := by
  unfold Flush.bytes
  omega

theorem dataFrame_marked :
    (Flush.dataFrame streamId stream bytes).header.has .endStream = true ↔
      stream.offset + bytes = stream.body.length := by
  unfold Flush.dataFrame FrameHeader.has
  dsimp only
  split
  · rename_i h
    exact iff_of_true rfl h
  · rename_i h
    exact iff_of_false (by decide) h

def advanced (flush : Flush) (count : Nat) (frames : List Frame) : Flush where
  stream := { flush.stream with
    offset := flush.stream.offset + count
    window := flush.stream.window - count }
  connectionWindow := flush.connectionWindow - count
  frames := flush.frames ++ frames

theorem advanced_advanced :
    advanced (advanced flush a x) b y = advanced flush (a + b) (x ++ y) := by
  simp [advanced, Nat.add_assoc, Int.sub_sub]

/-- What the `while` of `FlushStreamLocked` adds: the next DATA frames of the
body, as far as the windows allow. -/
theorem loop_run (streamId : UInt32) (hf : 0 < maximumFrameSize) (rounds : Nat) (flush : Flush) :
    ∃ count frames, Flush.loop streamId maximumFrameSize rounds flush =
        advanced flush count frames ∧
      DataRun streamId maximumFrameSize flush.stream.body flush.stream.offset
        (flush.stream.offset + count) frames ∧
      (count = 0 ∨ count ≤ flush.stream.window ∧ count ≤ flush.connectionWindow) := by
  have hs : flush = advanced flush 0 [] := by simp [advanced]
  induction rounds generalizing flush with
  | zero => exact ⟨0, [], hs, .nil _, Or.inl rfl⟩
  | succ rounds ih =>
    unfold Flush.loop
    split
    · rename_i hg
      obtain ⟨ho, hw, hc⟩ := hg
      obtain ⟨hpos, hsh, hi⟩ := bytes_bounds hf ho hw hc
      have hb : (flush.bytes maximumFrameSize : Int) ≤ flush.stream.window ∧
          (flush.bytes maximumFrameSize : Int) ≤ flush.connectionWindow := by
        unfold Flush.bytes
        omega
      obtain ⟨count, frames, heq, hrun, hcr⟩ := ih (advanced flush (flush.bytes maximumFrameSize)
        [Flush.dataFrame streamId flush.stream (flush.bytes maximumFrameSize)]) (by simp [advanced])
      rw [advanced_advanced] at heq
      refine ⟨_, _, heq, .cons rfl rfl rfl hpos hsh hi dataFrame_marked ?_, ?_⟩
      · rw [← Nat.add_assoc]
        exact hrun
      · dsimp only [advanced] at hcr
        omega
    · exact ⟨0, [], hs, .nil _, Or.inl rfl⟩

/-- The rounds never run out before the loop's own test fails. -/
theorem loop_stops (streamId : UInt32) (hf : 0 < maximumFrameSize)
    (rounds : Nat) (flush : Flush)
    (hr : flush.stream.body.length - flush.stream.offset ≤ rounds) :
    let done := Flush.loop streamId maximumFrameSize rounds flush
    ¬ (done.stream.offset < done.stream.body.length ∧ done.stream.window > 0 ∧
      done.connectionWindow > 0) := by
  induction rounds generalizing flush with
  | zero =>
    intro done hg
    have ho : flush.stream.offset < flush.stream.body.length := hg.1
    omega
  | succ rounds ih =>
    unfold Flush.loop
    split
    · rename_i hg
      obtain ⟨ho, hw, hc⟩ := hg
      obtain ⟨hpos, -, hi⟩ := bytes_bounds hf ho hw hc
      apply ih
      dsimp only
      omega
    · rename_i hg
      exact hg

/-- HEADERS, then CONTINUATION frames; only the last one carries END_HEADERS. -/
inductive HeaderRun (streamId : UInt32) (endStream : Bool) : FrameType → List Frame → Prop
  | last {type : FrameType} {frame : Frame} (typed : frame.header.type = type)
      (stream : frame.header.streamId = streamId)
      (complete : frame.header.has .endHeaders = true)
      (marked : frame.header.has .endStream = endStream) :
      HeaderRun streamId endStream type [frame]
  | more {type : FrameType} {frame : Frame} {frames : List Frame}
      (typed : frame.header.type = type) (stream : frame.header.streamId = streamId)
      (incomplete : frame.header.has .endHeaders = false)
      (unmarked : frame.header.has .endStream = false)
      (rest : HeaderRun streamId endStream .continuation frames) :
      HeaderRun streamId endStream type (frame :: frames)

/-- The loop of `EncodeHeaderBlockLocked`; `rounds` covers what is left of the block. -/
theorem headerFrames_run (streamId : UInt32) (hf : 0 < maximumFrameSize)
    (endStream : Bool) (block : Octets) (rounds offset : Nat) (first : Bool)
    (hr : block.length - offset < rounds) (ho : offset ≤ block.length) :
    HeaderRun streamId endStream (if first then .headers else .continuation)
      (headerFrames streamId maximumFrameSize endStream block rounds offset first) := by
  induction rounds generalizing offset first with
  | zero => omega
  | succ rounds ih =>
    unfold headerFrames
    dsimp only
    by_cases hm : offset + min maximumFrameSize (block.length - offset) < block.length
    · rw [if_pos hm]
      have hnot : (offset + min maximumFrameSize (block.length - offset) == block.length) = false := by
        simp only [beq_eq_false_iff_ne]
        omega
      have hre := ih (offset + min maximumFrameSize (block.length - offset)) false (by omega)
        (by omega)
      exact .more rfl rfl (by simp [FrameHeader.has, hnot]) (by simp [FrameHeader.has, hnot]) hre
    · rw [if_neg hm]
      have hl : (offset + min maximumFrameSize (block.length - offset) == block.length) = true := by
        simp only [beq_iff_eq]
        omega
      refine .last rfl rfl ?_ ?_
      · simp only [FrameHeader.has, hl, if_true]
        cases endStream <;> decide
      · simp only [FrameHeader.has, hl, if_true]
        cases endStream <;> decide

namespace HeaderRun
section

variable (h : HeaderRun streamId endStream type frames)
include h

theorem streamId_eq :
    ∀ frame ∈ frames, frame.header.streamId = streamId := by
  induction h with
  | last _ stream _ _ => simpa using stream
  | more _ stream _ _ _ ih => exact List.forall_mem_cons.mpr ⟨stream, ih⟩

theorem no_data (ht : type ≠ FrameType.data) :
    ∀ frame ∈ frames, isData frame = false := by
  induction h with
  | last typed _ _ _ => simp [isData, typed, ht]
  | more typed _ _ _ _ ih =>
    exact List.forall_mem_cons.mpr ⟨by simp [isData, typed, ht], ih (by decide)⟩

/-- END_STREAM stands on the last frame of the block or on none. -/
theorem split (hcut : frames = before ++ frame :: after)
    (hm : frame.header.has .endStream = true) : after = [] ∧ endStream = true := by
  induction h generalizing before with
  | @last type only _ _ _ marked =>
    cases before with
    | nil =>
      obtain ⟨rfl, rfl⟩ : only = frame ∧ [] = after := by simpa using hcut
      exact ⟨rfl, marked.symm.trans hm⟩
    | cons head before => simp at hcut
  | @more type first frames _ _ _ unmarked _ ih =>
    cases before with
    | nil =>
      obtain ⟨rfl, rfl⟩ : first = frame ∧ frames = after := by simpa using hcut
      rw [unmarked] at hm
      cases hm
    | cons head before =>
      obtain ⟨rfl, hr⟩ : first = head ∧ frames = before ++ frame :: after := by simpa using hcut
      exact ih hr

end

/-- A block that is to end the stream does. -/
theorem ends (h : HeaderRun streamId true type frames) :
    ∃ frame ∈ frames, frame.header.has .endStream = true := by
  induction h with
  | last _ _ _ marked => exact ⟨_, List.mem_singleton.mpr rfl, marked⟩
  | more _ _ _ _ _ ih =>
    obtain ⟨frame, hf, hm⟩ := ih
    exact ⟨frame, List.mem_cons_of_mem _ hf, hm⟩

theorem types (h : HeaderRun streamId endStream type frames) :
    ∃ head rest, frames = head :: rest ∧ head.header.type = type ∧
      ∀ frame ∈ rest, frame.header.type = .continuation := by
  induction h with
  | last typed _ _ _ => exact ⟨_, [], rfl, typed, by simp⟩
  | more typed _ _ _ _ ih =>
    obtain ⟨head, rest, rfl, hhead, hrest⟩ := ih
    exact ⟨_, _, rfl, typed, List.forall_mem_cons.mpr ⟨hhead, hrest⟩⟩

/-- The flags of a block stand on its last frame. -/
theorem flags (h : HeaderRun streamId endStream type frames) :
    ∃ front last, frames = front ++ [last] ∧ last.header.has .endHeaders = true ∧
      last.header.has .endStream = endStream ∧ ∀ frame ∈ front,
        frame.header.has .endHeaders = false ∧ frame.header.has .endStream = false := by
  induction h with
  | last _ _ complete marked => exact ⟨[], _, rfl, complete, marked, by simp⟩
  | more _ _ incomplete unmarked _ ih =>
    obtain ⟨front, last, rfl, hcomplete, hmarked, hfront⟩ := ih
    exact ⟨_ :: front, last, rfl, hcomplete, hmarked,
      List.forall_mem_cons.mpr ⟨⟨incomplete, unmarked⟩, hfront⟩⟩

end HeaderRun

theorem payload_headerFrames (streamId : UInt32) (maximumFrameSize : Nat) (endStream : Bool)
    (block : Octets) (rounds offset : Nat) (first : Bool) :
    ∀ frame ∈ headerFrames streamId maximumFrameSize endStream block rounds offset first,
      frame.payload.length ≤ maximumFrameSize := by
  have hcut : ∀ offset, (slice block offset
      (offset + min maximumFrameSize (block.length - offset))).length ≤ maximumFrameSize := by
    intro offset
    simp only [slice, List.length_take]
    omega
  induction rounds generalizing offset first with
  | zero => simp [headerFrames]
  | succ rounds ih =>
    rw [headerFrames]
    split
    · exact List.forall_mem_cons.mpr ⟨hcut offset, ih _ _⟩
    · simpa using hcut offset

/-- The payloads are the block from the offset on, whatever the cuts. -/
theorem headerFrames_payload (streamId : UInt32) (hf : 0 < maximumFrameSize) (endStream : Bool)
    (block : Octets) (rounds offset : Nat) (first : Bool)
    (hr : block.length - offset < rounds) (ho : offset ≤ block.length) :
    (headerFrames streamId maximumFrameSize endStream block rounds offset first).flatMap
      Frame.payload = slice block offset block.length := by
  induction rounds generalizing offset first with
  | zero => omega
  | succ rounds ih =>
    rw [headerFrames]
    split
    · rename_i hmore
      rw [List.flatMap_cons, ih _ _ (by omega) (by omega)]
      exact slice_append block _ _ _ (by omega) (by omega)
    · rename_i hlast
      rw [List.flatMap_singleton]
      dsimp only
      rw [show offset + min maximumFrameSize (block.length - offset) = block.length by omega]

theorem head_unmarked
    (hlong : maximumFrameSize < block.length) :
    ∃ head rest, headerFrames streamId maximumFrameSize endStream block (rounds + 1) 0 true =
      head :: rest ∧ head.header.has .endStream = false := by
  rw [headerFrames, if_pos (by omega)]
  refine ⟨_, _, rfl, ?_⟩
  simp [FrameHeader.has, Nat.not_le.mpr hlong]

/-- HEADERS and CONTINUATION frames that carry the block and end it in the last one, with END_STREAM
on HEADERS alone. -/
structure HeaderBlock (streamId : UInt32) (maximumFrameSize : Nat) (block : Octets)
    (endStream : Bool) (head : Frame) (rest : List Frame) : Prop where
  first : head.header.type = .headers
  continued : ∀ frame ∈ rest, frame.header.type = .continuation
  stream : ∀ frame ∈ head :: rest, frame.header.streamId = streamId
  short : ∀ frame ∈ head :: rest, frame.payload.length ≤ maximumFrameSize
  carried : (head :: rest).flatMap Frame.payload = block
  complete : ∃ front last, head :: rest = front ++ [last] ∧
    last.header.has .endHeaders = true ∧ ∀ frame ∈ front, frame.header.has .endHeaders = false
  marked : head.header.has .endStream = endStream
  unmarked : ∀ frame ∈ rest, frame.header.has .endStream = false

/-- The header block ends the stream as it should, unless it needs two frames: then END_STREAM is on
the last CONTINUATION. -/
theorem header_block_ends_stream (s : H2OutboundScheduler) (streamId : UInt32)
    (response : HttpResponse) :
    (∃ head rest,
      (s.encodeHeaderBlockLocked streamId response response.body.isEmpty).2 = head :: rest ∧
      HeaderBlock streamId s.maximumFrameSize (s.encoder.encode (responseHeaders response)).2
        response.body.isEmpty head rest) ↔
      response.body ≠ [] ∨
        (s.encoder.encode (responseHeaders response)).2.length ≤ s.maximumFrameSize := by
  have hpos : 0 < s.maximumFrameSize := Nat.lt_of_lt_of_le (by decide) s.frameSizeChecked.1
  unfold H2OutboundScheduler.encodeHeaderBlockLocked
  dsimp only
  generalize (s.encoder.encode (responseHeaders response)).2 = block
  have hrun := headerFrames_run streamId hpos response.body.isEmpty block (block.length + 1) 0 true
    (by omega) (Nat.zero_le _)
  have hshort := payload_headerFrames streamId s.maximumFrameSize response.body.isEmpty block
    (block.length + 1) 0 true
  have hcarried := headerFrames_payload streamId hpos response.body.isEmpty block
    (block.length + 1) 0 true (by omega) (Nat.zero_le _)
  obtain ⟨front, last, hsplit, hcomplete, hmarked, hfront⟩ := hrun.flags
  constructor
  · rintro ⟨head, rest, hframes, hblock⟩
    by_contra hcondition
    rw [not_or, not_not, Nat.not_le] at hcondition
    obtain ⟨hempty, hlong⟩ := hcondition
    obtain ⟨_, _, hlate, hunmarked⟩ := head_unmarked hlong
    obtain ⟨rfl, -⟩ := List.cons.inj (hframes.symm.trans hlate)
    rw [hblock.marked, hempty] at hunmarked
    cases hunmarked
  · intro hcondition
    obtain ⟨head, rest, hframes, hfirst, hcontinued⟩ := hrun.types
    have hflags : head.header.has .endStream = response.body.isEmpty ∧
        ∀ frame ∈ rest, frame.header.has .endStream = false := by
      rcases hcondition with hbody | hfits
      · have hfalse : response.body.isEmpty = false := List.isEmpty_eq_false_iff.mpr hbody
        have hnone : ∀ frame ∈ head :: rest, frame.header.has .endStream = false := by
          rw [← hframes, hsplit]
          intro frame hmem
          rcases List.mem_append.mp hmem with hmem | hmem
          · exact (hfront frame hmem).2
          · rw [List.mem_singleton.mp hmem, hmarked, hfalse]
        rw [hfalse]
        exact List.forall_mem_cons.mp hnone
      · have hone : rest = [] := by
          rw [headerFrames, if_neg (by omega)] at hframes
          exact (List.cons.inj hframes).2.symm
        subst hone
        have hsame := congrArg List.getLast? (hframes.symm.trans hsplit)
        rw [List.getLast?_singleton, List.getLast?_concat] at hsame
        rw [Option.some.inj hsame]
        exact ⟨hmarked, by simp⟩
    refine ⟨head, rest, hframes, hfirst, hcontinued, ?_, ?_, ?_, ?_, hflags.1, hflags.2⟩
    · exact hframes ▸ hrun.streamId_eq
    · exact hframes ▸ hshort
    · rw [← hframes, hcarried, slice, List.drop_zero, Nat.sub_zero, List.take_length]
    · exact ⟨front, last, hframes.symm.trans hsplit, hcomplete, fun f hf => (hfront f hf).1⟩

/-- Fields of the static table take one octet each. -/
theorem encode_static (codec : HpackCodec) (result : Octets)
    (h : ∀ header ∈ headers, ∃ index, HpackCodec.findStatic (· == header) = some index ∧
      0 < index ∧ index < 127) :
    (codec.encodeHeaders result headers).2.length = result.length + headers.length := by
  induction headers generalizing result with
  | nil => rfl
  | cons header headers ih =>
    obtain ⟨⟨index, hindex, hpos, hlt⟩, hrest⟩ := List.forall_mem_cons.mp h
    have hfind : codec.findIndex (· == header) = index := by rw [HpackCodec.findIndex, hindex]
    rw [HpackCodec.encodeHeaders, HpackCodec.encodeHeader, hfind, if_pos (Nat.ne_of_gt hpos)]
    dsimp only
    rw [ih _ hrest, encodeInteger, if_pos (show index < 1 <<< 7 - 1 from hlt)]
    simp
    omega

def manyFields (count : Nat) : HttpResponse where
  statusCode := 200
  headers := List.replicate count (entry "accept-encoding" "gzip, deflate")

theorem manyFields_length (count : Nat) :
    ((HpackCodec.create {}).encode (responseHeaders (manyFields count))).2.length =
      count + 1 := by
  have hheaders : responseHeaders (manyFields count) =
      entry ":status" "200" :: List.replicate count (entry "accept-encoding" "gzip, deflate") := by
    unfold responseHeaders manyFields
    have hname : lowercase (entry "accept-encoding" "gzip, deflate").name =
        octets "accept-encoding" := by decide +kernel
    have hstatus : octets (toString (200 : UInt16).toNat) = octets "200" := by decide +kernel
    rw [List.map_replicate, List.filter_replicate, if_pos (by decide +kernel), hstatus,
      hname]
    rfl
  have hstatic : ∀ header ∈ responseHeaders (manyFields count),
      ∃ index, HpackCodec.findStatic (· == header) = some index ∧ 0 < index ∧ index < 127 := by
    rw [hheaders]
    refine List.forall_mem_cons.mpr ⟨⟨8, by decide +kernel⟩, ?_⟩
    intro header hmem
    rw [List.eq_of_mem_replicate hmem]
    exact ⟨16, by decide +kernel⟩
  have hlength := encode_static (HpackCodec.create {}) [] hstatic
  rw [HpackCodec.encode]
  dsimp only [HpackCodec.create] at hlength ⊢
  rw [hlength, hheaders]
  simp

/-- The block above ends the stream in its last frame, which is not HEADERS. -/
theorem many_fields_end_late (hcount : 16384 ≤ count)
    (hs : H2OutboundScheduler.create 65535 16384 {} = .ok s) :
    ∃ head rest, (s.encodeHeaderBlockLocked 1 (manyFields count) true).2 = head :: rest ∧
      head.header.type = .headers ∧ head.header.has .endStream = false ∧
      ∃ last ∈ rest, last.header.type = .continuation ∧ last.header.has .endStream = true := by
  cases hs
  unfold H2OutboundScheduler.encodeHeaderBlockLocked
  have hlong := manyFields_length count
  dsimp only
  generalize ((HpackCodec.create {}).encode (responseHeaders (manyFields count))).2 = block at *
  have hrun := headerFrames_run 1 (by decide : 0 < 16384) true block (block.length + 1) 0 true
    (by omega) (Nat.zero_le _)
  obtain ⟨head, rest, hframes, hunmarked⟩ := head_unmarked
    (show 16384 < block.length by omega)
  obtain ⟨_, _, htypes, hfirst, hcontinued⟩ := hrun.types
  obtain ⟨last, hlast, hmarked⟩ := hrun.ends
  rw [hframes] at htypes hlast
  obtain ⟨rfl, rfl⟩ := List.cons.inj htypes
  rcases List.mem_cons.mp hlast with rfl | hmem
  · rw [hunmarked] at hmarked
    cases hmarked
  · exact ⟨_, _, hframes, hfirst, hunmarked, last, hmem, hcontinued last hmem, hmarked⟩

theorem header_block_ends_late :
    ∃ s, H2OutboundScheduler.create 65535 16384 {} = .ok s ∧ (manyFields 16384).body = [] ∧
      ∃ head rest, (s.encodeHeaderBlockLocked 1 (manyFields 16384) true).2 = head :: rest ∧
        head.header.type = .headers ∧ head.header.has .endStream = false ∧
        ∃ last ∈ rest, last.header.type = .continuation ∧ last.header.has .endStream = true :=
  ⟨_, rfl, rfl, many_fields_end_late (Nat.le_refl _) rfl⟩

end IocpRuntime.Proofs.OutboundFrames
