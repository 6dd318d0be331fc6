import IocpRuntime.Lib.Incremental
import IocpRuntime.Lib.Runs
import IocpRuntime.Proofs.RingContents
import IocpRuntime.Protocol.LengthPrefixed

namespace IocpRuntime.Proofs.LengthPrefixedRuns
open Lib Buffer Execution Http Protocol LengthPrefixed LengthPrefixedSession Proofs.RingContents

def decodeBody (bodyBytes : Nat) : Octets → FrameDecodeResult
  | i0 :: i1 :: rest =>
    if rest.length < bodyBytes - kMessageIdBytes then {}
    else {
      status := .complete
      consumedBytes := kLengthPrefixBytes + bodyBytes
      message := {
        id := (i0.toUInt16 <<< 8) ||| i1.toUInt16
        payload := rest.take (bodyBytes - kMessageIdBytes) } }
  | _ => {}

def decodeOctets (maximum : UInt64) : Octets → FrameDecodeResult
  | b0 :: b1 :: b2 :: b3 :: rest =>
    let bodyBytes := (bigEndian b0 b1 b2 b3).toNat
    if bodyBytes < kMessageIdBytes then { status := .error, error := .bodyTooSmall }
    else if bodyBytes - kMessageIdBytes > maximum.toNat then
      { status := .error, error := .payloadTooLarge }
    else decodeBody bodyBytes rest
  | _ => {}

theorem byteAt_ok {input : BufferSequence}
    (h : input.bytes[index]? = some octet) : input.byteAt index = .ok octet := by
  obtain ⟨hi, rfl⟩ := List.getElem?_eq_some_iff.mp h
  exact BufferSequence.byteAt_eq input index hi

theorem readBigEndian32_ok
    (h : input.bytes = b0 :: b1 :: b2 :: b3 :: rest) :
    readBigEndian32 input 0 = .ok (bigEndian b0 b1 b2 b3) := by
  have h0 : input.byteAt 0 = .ok b0 := byteAt_ok (by rw [h]; rfl)
  have h1 : input.byteAt (0 + 1) = .ok b1 := byteAt_ok (by rw [h]; rfl)
  have h2 : input.byteAt (0 + 2) = .ok b2 := byteAt_ok (by rw [h]; rfl)
  have h3 : input.byteAt (0 + 3) = .ok b3 := byteAt_ok (by rw [h]; rfl)
  simp only [readBigEndian32, h0, h1, h2, h3]
  rfl

theorem readBigEndian16_ok {b0 b1 b2 b3 i0 i1 : UInt8}
    (h : input.bytes = b0 :: b1 :: b2 :: b3 :: i0 :: i1 :: rest) :
    readBigEndian16 input kLengthPrefixBytes = .ok ((i0.toUInt16 <<< 8) ||| i1.toUInt16) := by
  have h0 : input.byteAt kLengthPrefixBytes = .ok i0 := byteAt_ok (by rw [h]; rfl)
  have h1 : input.byteAt (kLengthPrefixBytes + 1) = .ok i1 := byteAt_ok (by rw [h]; rfl)
  simp only [readBigEndian16, h0, h1]
  rfl

theorem copyTo_ok {input : BufferSequence}
    (h : input.bytes = b0 :: b1 :: b2 :: b3 :: i0 :: i1 :: rest) (hc : count ≤ rest.length) :
    input.copyTo kFrameOverheadBytes count = .ok (rest.take count) := by
  have hi : kFrameOverheadBytes + count ≤ input.bytes.length := by
    simp only [h, List.length_cons, kFrameOverheadBytes, kLengthPrefixBytes, kMessageIdBytes]
    omega
  rw [BufferSequence.copyTo_eq _ _ _ hi, h, slice, Nat.add_sub_cancel_left]
  rfl

/-- The decoder looks at the octets and not at where they are cut in two. -/
theorem decode_eq : decode maximum input = .ok (decodeOctets maximum input.bytes) := by
  unfold decode
  rw [BufferSequence.size_eq]
  rcases hb : input.bytes with _ | ⟨b0, _ | ⟨b1, _ | ⟨b2, _ | ⟨b3, rest⟩⟩⟩⟩
  iterate 4 rfl
  have hlo : ¬ (b0 :: b1 :: b2 :: b3 :: rest).length < kLengthPrefixBytes := by
    simp [kLengthPrefixBytes]
  rw [if_neg hlo, readBigEndian32_ok hb, decodeOctets]
  simp only [bind, Except.bind, pure, Except.pure]
  generalize (bigEndian b0 b1 b2 b3).toNat = bodyBytes
  split
  · rfl
  · rename_i hbo
    split
    · rfl
    · rcases rest with _ | ⟨i0, _ | ⟨i1, rest⟩⟩
      · rw [if_pos (by simp [kLengthPrefixBytes, kMessageIdBytes] at hbo ⊢; omega)]
        rfl
      · rw [if_pos (by simp [kLengthPrefixBytes, kMessageIdBytes] at hbo ⊢; omega)]
        rfl
      · have hl : (b0 :: b1 :: b2 :: b3 :: i0 :: i1 :: rest).length <
            kLengthPrefixBytes + bodyBytes ↔ rest.length < bodyBytes - kMessageIdBytes := by
          simp only [List.length_cons, kLengthPrefixBytes, kMessageIdBytes] at hbo ⊢
          omega
        rw [decodeBody]
        split
        · rename_i hs
          rw [if_pos (hl.mp hs)]
        · rename_i he
          have hr := Nat.le_of_not_lt (mt hl.mpr he)
          rw [if_neg (mt hl.mpr he), readBigEndian16_ok hb, copyTo_ok hb hr]

inductive Decodes (maximum : UInt64) (bytes : Octets) : FrameDecodeResult → Prop
  | incomplete (short : bytes.length < kFrameOverheadBytes + maximum.toNat) :
      Decodes maximum bytes {}
  | error (error : FrameDecodeError) (some : 0 < bytes.length) :
      Decodes maximum bytes { status := .error, error }
  | complete (consumed : Nat) (message : SampleMessage) (some : 0 < consumed)
      (within : consumed ≤ bytes.length) :
      Decodes maximum bytes { status := .complete, consumedBytes := consumed, message }

theorem decodeOctets_spec (maximum : UInt64) (bytes : Octets) :
    Decodes maximum bytes (decodeOctets maximum bytes) := by
  rcases bytes with _ | ⟨b0, _ | ⟨b1, _ | ⟨b2, _ | ⟨b3, rest⟩⟩⟩⟩
  iterate 4
    refine .incomplete ?_
    simp only [List.length_cons, List.length_nil, kFrameOverheadBytes, kLengthPrefixBytes,
      kMessageIdBytes]
    omega
  rw [decodeOctets]
  generalize (bigEndian b0 b1 b2 b3).toNat = bodyBytes
  split
  · exact .error _ (Nat.succ_pos _)
  · rename_i hb
    split
    · exact .error _ (Nat.succ_pos _)
    · rename_i hm
      simp only [kMessageIdBytes] at hb hm
      rcases rest with _ | ⟨i0, _ | ⟨i1, rest⟩⟩
      iterate 2
        refine .incomplete ?_
        simp only [List.length_cons, List.length_nil, kFrameOverheadBytes, kLengthPrefixBytes,
          kMessageIdBytes]
        omega
      rw [decodeBody]
      split
      · rename_i hs
        refine .incomplete ?_
        simp only [List.length_cons, kFrameOverheadBytes, kLengthPrefixBytes, kMessageIdBytes] at *
        omega
      · rename_i he
        refine .complete _ _ (by simp [kLengthPrefixBytes]) ?_
        simp only [List.length_cons, kLengthPrefixBytes, kMessageIdBytes] at *
        omega

/-- Octets behind a frame do not change what is found. -/
theorem decodeOctets_append
    (h : (decodeOctets maximum bytes).status ≠ .incomplete) (more : Octets) :
    decodeOctets maximum (bytes ++ more) = decodeOctets maximum bytes := by
  rcases bytes with _ | ⟨b0, _ | ⟨b1, _ | ⟨b2, _ | ⟨b3, rest⟩⟩⟩⟩
  iterate 4 exact absurd rfl h
  simp only [List.cons_append, decodeOctets] at h ⊢
  generalize (bigEndian b0 b1 b2 b3).toNat = bodyBytes at h ⊢
  split
  · rfl
  · rename_i hb
    rw [if_neg hb] at h
    split
    · rfl
    · rename_i hm
      rw [if_neg hm] at h
      rcases rest with _ | ⟨i0, _ | ⟨i1, rest⟩⟩
      iterate 2 exact absurd rfl h
      simp only [List.cons_append, decodeBody] at h ⊢
      split at h
      · exact absurd rfl h
      · rename_i he
        rw [if_neg he, if_neg (by rw [List.length_append]; omega),
          List.take_append_of_le_length (Nat.le_of_not_lt he)]

def frame (message : SampleMessage) : Octets :=
  writeBigEndian32 (UInt32.ofNat (kMessageIdBytes + message.payload.length)) ++
    writeBigEndian16 message.id ++ message.payload

theorem encode_ok (h : message.payload.length ≤ maximum.toNat) :
    LengthPrefixed.encode maximum message.id message.payload = .ok (frame message) := by
  rw [LengthPrefixed.encode, if_neg (Nat.not_lt.mpr h)]
  rfl

theorem messageId_written (id : UInt16) :
    (((id >>> 8) &&& 0xff).toUInt8.toUInt16 <<< 8) ||| (id &&& 0xff).toUInt8.toUInt16 = id := by
  have hid := id.toNat_lt
  have hs : (id >>> 8).toNat = id.toNat / 2 ^ 8 := by
    rw [UInt16.toNat_shiftRight, Nat.shiftRight_eq_div_pow]
    rfl
  have ho : ∀ x : UInt16, (x &&& 0xff).toUInt8.toUInt16.toNat = x.toNat % 256 := by
    intro x
    have hm : (x &&& 0xff).toNat = x.toNat % 256 := by
      rw [UInt16.toNat_and]
      exact Nat.and_two_pow_sub_one_eq_mod _ 8
    rw [UInt8.toNat_toUInt16, UInt16.toNat_toUInt8, hm]
    omega
  have hh : (((id >>> 8) &&& 0xff).toUInt8.toUInt16 <<< 8).toNat = id.toNat / 2 ^ 8 * 2 ^ 8 := by
    rw [UInt16.toNat_shiftLeft, ho, hs, Nat.shiftLeft_eq]
    have h8 : (8 : UInt16).toNat % 16 = 8 := rfl
    rw [h8]
    omega
  apply UInt16.toNat_inj.mp
  rw [UInt16.toNat_or, hh, ho, mul_two_pow_or (by omega)]
  omega

/-- A frame is decoded to its message, whatever stands behind it. -/
theorem decodeOctets_frame (hv : validateMaximumPayload maximum = .ok ())
    (h : message.payload.length ≤ maximum.toNat) (more : Octets) :
    decodeOctets maximum (frame message ++ more) =
      { status := .complete, consumedBytes := (frame message).length, message } := by
  have hm : maximum.toNat ≤ 2 ^ 32 - 7 := by
    unfold validateMaximumPayload at hv
    split at hv
    · cases hv
    · simp only [kFrameOverheadBytes, kLengthPrefixBytes, kMessageIdBytes] at *
      omega
  have hb : (UInt32.ofNat (kMessageIdBytes + message.payload.length)).toNat =
      kMessageIdBytes + message.payload.length := by
    rw [UInt32.toNat_ofNat']
    simp only [kMessageIdBytes]
    omega
  simp only [frame, writeBigEndian32, writeBigEndian16, List.cons_append, List.nil_append,
    decodeOctets, bigEndian_written, hb, decodeBody, messageId_written, Nat.add_sub_cancel_left]
  rw [if_neg (by simp), if_neg (Nat.not_lt.mpr h), if_neg (by simp), List.take_left]
  simp [kLengthPrefixBytes, kMessageIdBytes]
  omega

/-- A length field that no frame has. -/
def Bad (maximum : UInt64) (b0 b1 b2 b3 : UInt8) : Prop :=
  (bigEndian b0 b1 b2 b3).toNat < kMessageIdBytes ∨
    maximum.toNat < (bigEndian b0 b1 b2 b3).toNat - kMessageIdBytes

theorem decodeOctets_bad (h : Bad maximum b0 b1 b2 b3)
    (more : Octets) : decodeOctets maximum (b0 :: b1 :: b2 :: b3 :: more) = {
      status := .error
      error := if (bigEndian b0 b1 b2 b3).toNat < kMessageIdBytes then .bodyTooSmall
        else .payloadTooLarge } := by
  rw [decodeOctets]
  split
  · rfl
  · rename_i hb
    rw [if_pos (h.resolve_left hb)]

variable {η : Type}

/-- What a session has done with the octets it has taken. -/
structure Progress (η : Type) where
  posted : List (η × SampleMessage)
  stopped : Bool
  error : FrameDecodeError

/-- The loop of `Feed`, with an executor that accepts every task. -/
def reader (handlers : AList (fun _ : UInt16 => η)) (maximum : UInt64) :
    Incremental.Reader (Progress η) UInt8 where
  deaf p := p.stopped
  round p buffer :=
    if p.stopped then none
    else
      let decoded := decodeOctets maximum buffer
      match decoded.status with
      | .incomplete => none
      | .error => some ({ p with stopped := true, error := decoded.error }, [])
      | .complete =>
        match handlers.lookup decoded.message.id with
        | none => some ({ p with stopped := true }, [])
        | some handler =>
          some ({ p with posted := p.posted ++ [(handler, decoded.message)] },
            buffer.drop decoded.consumedBytes)

theorem reader_stable : Incremental.Stable (reader handlers maximum) where
  shorter := by
    intro p buffer next h
    have hs := decodeOctets_spec maximum buffer
    simp only [reader] at h
    split at h
    · cases h
    · generalize decodeOctets maximum buffer = decoded at h hs
      cases hs with
      | incomplete => cases h
      | error error hso =>
        cases h
        exact hso
      | complete consumed message hso hwi =>
        dsimp only at h
        split at h
        · cases h
          exact Nat.lt_of_lt_of_le hso hwi
        · cases h
          dsimp only
          rw [List.length_drop]
          omega
  behind := by
    intro p buffer next h more
    have hs := decodeOctets_spec maximum buffer
    have ha := @decodeOctets_append maximum buffer
    simp only [reader, Incremental.Reader.join] at h ⊢
    split at h
    · cases h
    · rename_i ho
      rw [if_neg ho]
      generalize decodeOctets maximum buffer = decoded at h hs ha
      cases hs with
      | incomplete => cases h
      | error error hso =>
        cases h
        rw [ha (by simp)]
        rfl
      | complete consumed message hso hwi =>
        rw [ha (by simp)]
        dsimp only at h ⊢
        split at h
        · cases h
          rfl
        · cases h
          rw [List.drop_append_of_le_length hwi]
          simp [ho]
  deaf := by
    intro p hd buffer
    exact if_pos hd

def view (s : LengthPrefixedSession η) : Progress η × Octets :=
  (⟨s.dispatcher.posted, s.stopped, s.lastDecodeError⟩,
    if s.stopped then [] else s.receiveBuffer.contents)

def accepting : Nat → SubmitStatus := fun _ => .accepted

variable {s : LengthPrefixedSession η}

theorem drain_stopped (h : p.stopped = true) :
    (reader handlers maximum).drain rounds (p, buffer) = (p, buffer) :=
  Incremental.drain_none (if_pos h)

theorem feedLoop_view (ho : s.stopped = false) : view (feedLoop accepting rounds s dispatched).2 =
      (reader s.dispatcher.handlers s.maximumPayloadBytes).drain rounds (view s) := by
  induction rounds generalizing s dispatched with
  | zero => rfl
  | succ rounds ih =>
    have hs := decodeOctets_spec s.maximumPayloadBytes s.receiveBuffer.contents
    have hv : view s = (⟨s.dispatcher.posted, s.stopped, s.lastDecodeError⟩,
        s.receiveBuffer.contents) := by
      simp [view, ho]
    have hr : (reader s.dispatcher.handlers s.maximumPayloadBytes).round (view s).1 (view s).2 =
        _ := if_neg (Bool.eq_false_iff.mp ho)
    rw [hv] at hr
    rw [feedLoop, decode_eq, RingReceiveBuffer.bytes_readableSequence, hv,
      Incremental.Reader.drain, hr]
    generalize decodeOctets s.maximumPayloadBytes s.receiveBuffer.contents = decoded at hs
    cases hs with
    | incomplete =>
      dsimp only
      exact hv
    | error error hso =>
      dsimp only
      exact (drain_stopped rfl).symm
    | complete consumed message hso hwi =>
      dsimp only [SampleDispatcher.dispatch, accepting]
      cases hl : s.dispatcher.handlers.lookup message.id with
      | none =>
        dsimp only
        exact (drain_stopped rfl).symm
      | some handler =>
        rw [RingReceiveBuffer.length_contents] at hwi
        obtain ⟨ring, hco, hc, -⟩ := consume_contents hwi
        dsimp only
        rw [if_neg (not_not.mpr rfl), hco]
        let next : LengthPrefixedSession η := { s with
          dispatcher := { s.dispatcher with posted := s.dispatcher.posted ++ [(handler, message)] }
          receiveBuffer := ring }
        refine (@ih next (dispatched + 1) ho).trans ?_
        simp [next, view, ho, hc]

structure Kept (s t : LengthPrefixedSession η) : Prop where
  handlers : t.dispatcher.handlers = s.dispatcher.handlers
  maximum : t.maximumPayloadBytes = s.maximumPayloadBytes
  capacity : t.receiveBuffer.maximumCapacity = s.receiveBuffer.maximumCapacity

theorem Kept.trans (h : Kept s t) (k : Kept t u) : Kept s u :=
  ⟨k.handlers.trans h.handlers, k.maximum.trans h.maximum, k.capacity.trans h.capacity⟩

theorem dispatch_handlers (d : SampleDispatcher η) (submit : SubmitStatus)
    (message : SampleMessage) :
    (d.dispatch submit message).2.handlers = d.handlers := by
  unfold SampleDispatcher.dispatch
  split
  · rfl
  · split <;> rfl

def Waiting (s : LengthPrefixedSession η) : Prop :=
  s.stopped = false → (decodeOctets s.maximumPayloadBytes s.receiveBuffer.contents).status = .incomplete

theorem feedLoop_spec (submit : Nat → SubmitStatus) (hro : s.receiveBuffer.readableBytes < rounds) :
    Kept s (feedLoop submit rounds s dispatched).2 ∧ Waiting (feedLoop submit rounds s dispatched).2 ∧
      ∃ result, (feedLoop submit rounds s dispatched).1 = .ok result ∧
        result.status ≠ .bufferLimitExceeded := by
  induction rounds generalizing s dispatched with
  | zero => omega
  | succ rounds ih =>
    have hs := decodeOctets_spec s.maximumPayloadBytes s.receiveBuffer.contents
    rw [feedLoop, decode_eq, RingReceiveBuffer.bytes_readableSequence]
    generalize hd : decodeOctets s.maximumPayloadBytes s.receiveBuffer.contents = decoded at hs
    cases hs with
    | incomplete =>
      refine ⟨⟨rfl, rfl, rfl⟩, fun _ => congrArg FrameDecodeResult.status hd, _, rfl, ?_⟩
      exact nofun
    | error error hso =>
      refine ⟨⟨rfl, rfl, rfl⟩, nofun, _, rfl, ?_⟩
      exact nofun
    | complete consumed message hso hwi =>
      have hk := dispatch_handlers s.dispatcher (submit dispatched) message
      dsimp only
      generalize s.dispatcher.dispatch (submit dispatched) message = outcome at hk
      obtain ⟨status, dispatcher⟩ := outcome
      dsimp only at hk ⊢
      split
      · refine ⟨⟨hk, rfl, rfl⟩, nofun, _, rfl, ?_⟩
        cases status <;> exact nofun
      · rw [RingReceiveBuffer.length_contents] at hwi
        obtain ⟨ring, hco, hc, hca⟩ := consume_contents hwi
        have hl := congrArg List.length hc
        rw [List.length_drop, RingReceiveBuffer.length_contents,
          RingReceiveBuffer.length_contents] at hl
        rw [hco]
        let next : LengthPrefixedSession η := { s with
          dispatcher := dispatcher
          receiveBuffer := ring }
        have hf : Kept s next := ⟨hk, rfl, hca⟩
        obtain ⟨hre, hwa, hr⟩ := @ih next (dispatched + 1) (by dsimp only [next]; omega)
        exact ⟨hf.trans hre, hwa, hr⟩

structure Call where
  bytes : Octets
  submit : Nat → SubmitStatus

def step (s : LengthPrefixedSession η) (call : Call) : LengthPrefixedSession η :=
  (s.feed call.bytes call.submit).2

/-- The octets of a call fit into the buffer, and a process holds no more than `2 ^ 62` octets. -/
structure Fits (s : LengthPrefixedSession η) (bytes : Octets) : Prop where
  limit : s.receiveBuffer.readableBytes + bytes.length ≤ s.receiveBuffer.maximumCapacity.toNat
  memory : s.receiveBuffer.readableBytes + bytes.length ≤ 2 ^ 62

theorem feed_fits (ho : s.stopped = false) (h : Fits s bytes) :
    ∃ ring : RingReceiveBuffer, s.feed bytes submit =
        feedLoop submit (ring.readableBytes + 1) { s with receiveBuffer := ring } 0 ∧
      ring.contents = s.receiveBuffer.contents ++ bytes ∧
      ring.maximumCapacity = s.receiveBuffer.maximumCapacity := by
  obtain ⟨ring, ha, hc, hca⟩ := append_ready h.limit h.memory
  refine ⟨ring, ?_, hc, hca⟩
  rw [feed, if_neg (Bool.eq_false_iff.mp ho), ha]

theorem feed_stopped (h : s.stopped = true) : s.feed bytes submit =
      (.ok { status := .stopped, bufferedBytes := s.receiveBuffer.readableBytes }, s) := if_pos h

theorem feed_view (h : s.stopped = false → Fits s bytes) : view (s.feed bytes accepting).2 =
      (reader s.dispatcher.handlers s.maximumPayloadBytes).feed (view s) bytes := by
  unfold Incremental.Reader.feed Incremental.Reader.join
  cases hs : s.stopped with
  | true =>
    have hv : view s = (⟨s.dispatcher.posted, true, s.lastDecodeError⟩, []) := by
      simp [view, hs]
    rw [feed_stopped hs, hv]
    exact (drain_stopped rfl).symm
  | false =>
    obtain ⟨ring, hf, hc, -⟩ := feed_fits hs (h hs)
    let next : LengthPrefixedSession η := { s with receiveBuffer := ring }
    have hn : view next = ((view s).1, (view s).2 ++ bytes) := by
      simp [view, next, hs, hc]
    have hj : (if (reader s.dispatcher.handlers s.maximumPayloadBytes).deaf (view s).1 then (view s).2
        else (view s).2 ++ bytes) = (view s).2 ++ bytes := if_neg (Bool.eq_false_iff.mp hs)
    have hl : ((view s).2 ++ bytes).length ≤ ring.readableBytes + 1 := by
      have hr := congrArg List.length hc
      simp only [view, hs, Bool.false_eq_true, if_false]
      rw [← hr, RingReceiveBuffer.length_contents]
      omega
    rw [hf, hj, ← Incremental.drain_enough reader_stable hl, ← hn]
    exact @feedLoop_view _ next _ _ hs

theorem feed_spec (h : s.stopped = false → Fits s bytes) (hwa : Waiting s) :
    Kept s (s.feed bytes submit).2 ∧ Waiting (s.feed bytes submit).2 ∧
      ∃ result, (s.feed bytes submit).1 = .ok result ∧ result.status ≠ .bufferLimitExceeded := by
  cases hs : s.stopped with
  | true =>
    rw [feed_stopped hs]
    exact ⟨⟨rfl, rfl, rfl⟩, hwa, _, rfl, nofun⟩
  | false =>
    obtain ⟨ring, hfe, -, hc⟩ := feed_fits hs (h hs)
    let next : LengthPrefixedSession η := { s with receiveBuffer := ring }
    have hf : Kept s next := ⟨rfl, rfl, hc⟩
    obtain ⟨hr, hk⟩ := @feedLoop_spec _ next _ 0 submit (Nat.lt_succ_self _)
    rw [hfe]
    exact ⟨hf.trans hr, hk⟩

def tasks (handlers : AList (fun _ : UInt16 => η)) (messages : List SampleMessage) :
    List (η × SampleMessage) :=
  messages.filterMap (fun message => (handlers.lookup message.id).map (fun handler => (handler, message)))

/-- A message that the encoder takes and that has a handler. -/
structure Sendable (handlers : AList (fun _ : UInt16 => η)) (maximum : UInt64)
    (message : SampleMessage) : Prop where
  payload : message.payload.length ≤ maximum.toNat
  registered : (handlers.lookup message.id).isSome

variable {messages : List SampleMessage}

theorem tasks_messages (h : ∀ message ∈ messages, Sendable handlers maximum message) :
    (tasks handlers messages).map Prod.snd = messages := by
  induction messages with
  | nil => rfl
  | cons message messages ih =>
    rw [List.forall_mem_cons] at h
    obtain ⟨handler, hl⟩ := Option.isSome_iff_exists.mp h.1.registered
    simp only [tasks, List.filterMap_cons, hl, Option.map_some, List.map_cons]
    exact congrArg _ (ih h.2)

theorem tasks_handlers (h : task ∈ tasks handlers messages) :
    handlers.lookup task.2.id = some task.1 := by
  obtain ⟨message, -, ht⟩ := List.mem_filterMap.mp h
  obtain ⟨handler, hl, rfl⟩ := Option.map_eq_some_iff.mp ht
  exact hl

theorem round_complete (ho : p.stopped = false) (hd : decodeOctets maximum buffer =
      { status := .complete, consumedBytes := consumed, message })
    (hl : handlers.lookup message.id = some handler) :
    (reader handlers maximum).round p buffer =
      some ({ p with posted := p.posted ++ [(handler, message)] }, buffer.drop consumed) := by
  unfold reader
  dsimp only
  rw [if_neg (Bool.eq_false_iff.mp ho), hd]
  dsimp only
  rw [hl]

theorem drain_frames (hv : validateMaximumPayload maximum = .ok ())
    (h : ∀ message ∈ messages, Sendable handlers maximum message) {p : Progress η}
    (ho : p.stopped = false) :
    (reader handlers maximum).drain (messages.flatMap frame ++ rest).length
        (p, messages.flatMap frame ++ rest) =
      (reader handlers maximum).drain rest.length
        ({ p with posted := p.posted ++ tasks handlers messages }, rest) := by
  induction messages generalizing p with
  | nil => simp [tasks]
  | cons message messages ih =>
    rw [List.forall_mem_cons] at h
    obtain ⟨handler, hl⟩ := Option.isSome_iff_exists.mp h.1.registered
    have hd := decodeOctets_frame hv h.1.payload (messages.flatMap frame ++ rest)
    let next : Progress η := { p with posted := p.posted ++ [(handler, message)] }
    have hr : (reader handlers maximum).round p
        (frame message ++ (messages.flatMap frame ++ rest)) =
          some (next, messages.flatMap frame ++ rest) := by
      rw [round_complete ho hd hl, List.drop_left]
    have hf := Incremental.drain_some
      (x := (p, frame message ++ (messages.flatMap frame ++ rest))) reader_stable hr
    rw [List.flatMap_cons, List.append_assoc]
    refine hf.trans ((@ih h.2 next ho).trans ?_)
    simp [next, tasks, hl]

def Roomy (s : LengthPrefixedSession η) (calls : List Call) : Prop :=
  ∀ event ∈ Runs.history step s calls, event.before.stopped = false →
    Fits event.before event.input.bytes

def Accepting (calls : List Call) : Prop := ∀ call ∈ calls, ∀ k, call.submit k = .accepted

theorem step_view (ha : ∀ k, call.submit k = .accepted)
    (h : s.stopped = false → Fits s call.bytes) :
    view (step s call) =
      (reader s.dispatcher.handlers s.maximumPayloadBytes).feed (view s) call.bytes := by
  have hs : call.submit = accepting := funext ha
  rw [step, hs]
  exact feed_view h

theorem feed_nothing (h : Waiting s) :
    (reader s.dispatcher.handlers s.maximumPayloadBytes).feed (view s) [] = view s := by
  rw [Incremental.Reader.feed, Incremental.join_nil]
  apply Incremental.drain_none
  cases hs : s.stopped with
  | true => exact if_pos hs
  | false =>
    simp [reader, view, hs, h hs]

theorem Roomy.head (h : Roomy s (call :: calls)) : s.stopped = false → Fits s call.bytes :=
  h ⟨s, call⟩ List.mem_cons_self

theorem Roomy.tail (h : Roomy s (call :: calls)) : Roomy (step s call) calls :=
  fun event he => h event (List.mem_cons_of_mem _ he)

/-- A run of calls is one feed of all their octets. -/
theorem run_view (hwa : Waiting s) (ha : Accepting calls) (h : Roomy s calls) :
    view (Runs.final step s calls) = (reader s.dispatcher.handlers s.maximumPayloadBytes).feed
      (view s) (calls.flatMap Call.bytes) := by
  induction calls generalizing s with
  | nil => exact (feed_nothing hwa).symm
  | cons call calls ih =>
    rw [Accepting, List.forall_mem_cons] at ha
    obtain ⟨hk, hn, -⟩ := feed_spec h.head hwa
    have hr := ih (s := step s call) hn ha.2 h.tail
    have hh : (step s call).dispatcher.handlers = s.dispatcher.handlers := hk.handlers
    have hm : (step s call).maximumPayloadBytes = s.maximumPayloadBytes := hk.maximum
    rw [hh, hm, step_view ha.1 h.head, Incremental.feed_feed reader_stable] at hr
    exact hr

structure Fresh (options : LengthPrefixedSessionOptions) (dispatcher : SampleDispatcher η)
    (s : LengthPrefixedSession η) : Prop where
  valid : validateMaximumPayload options.maximumPayloadBytes = .ok ()
  room : kFrameOverheadBytes + options.maximumPayloadBytes.toNat ≤ options.maximumBufferBytes.toNat
  dispatcher : s.dispatcher = dispatcher
  maximum : s.maximumPayloadBytes = options.maximumPayloadBytes
  capacity : s.receiveBuffer.maximumCapacity = options.maximumBufferBytes
  empty : s.receiveBuffer.contents = []
  opened : s.stopped = false

theorem Fresh.of_create {dispatcher : SampleDispatcher η}
    (h : LengthPrefixedSession.create (some dispatcher) options = .ok s) :
    Fresh options dispatcher s := by
  unfold LengthPrefixedSession.create at h
  simp only [bind, Except.bind] at h
  split at h
  · cases h
  · rename_i ring hr
    split at h
    · cases h
    · rename_i hv
      split at h
      · cases h
      · rename_i hro
        cases h
        obtain ⟨he, hc⟩ := create_contents hr
        refine ⟨hv, ?_, rfl, rfl, hc, he, rfl⟩
        simp only [kWireOverheadBytes, kFrameOverheadBytes, kLengthPrefixBytes, kMessageIdBytes] at *
        omega

section Sessions

variable {options : LengthPrefixedSessionOptions} {dispatcher : SampleDispatcher η}

theorem Fresh.view_eq (h : Fresh options dispatcher s) :
    view s = (⟨dispatcher.posted, false, s.lastDecodeError⟩, []) := by
  simp [view, h.opened, h.empty, h.dispatcher]

theorem Fresh.waiting (h : Fresh options dispatcher s) : Waiting s := by
  intro _
  rw [h.empty]
  rfl

/-- Behind the frames of some messages, all of them are dispatched and the rest is read on. -/
theorem Fresh.frames (h : Fresh options dispatcher s)
    (hs : ∀ message ∈ messages, Sendable dispatcher.handlers options.maximumPayloadBytes message)
    (hb : calls.flatMap Call.bytes = messages.flatMap frame ++ rest)
    (ha : Accepting calls) (hr : Roomy s calls) :
    view (Runs.final step s calls) =
      (reader dispatcher.handlers options.maximumPayloadBytes).drain rest.length
        (⟨dispatcher.posted ++ tasks dispatcher.handlers messages, false, s.lastDecodeError⟩, rest) := by
  rw [run_view h.waiting ha hr, h.view_eq, h.dispatcher, h.maximum, hb]
  exact drain_frames h.valid hs rfl

theorem Waiting.short (h : Waiting s) (ho : s.stopped = false) :
    s.receiveBuffer.readableBytes < kFrameOverheadBytes + s.maximumPayloadBytes.toNat := by
  have hsp := decodeOctets_spec s.maximumPayloadBytes s.receiveBuffer.contents
  have hi := h ho
  generalize decodeOctets s.maximumPayloadBytes s.receiveBuffer.contents = decoded at hsp hi
  cases hsp with
  | incomplete hs => rwa [RingReceiveBuffer.length_contents] at hs
  | error => cases hi
  | complete => cases hi

/-- One more octet always fits. -/
theorem Fresh.octet_fits (h : Fresh options dispatcher s)
    (hk : Kept s t) (hwa : Waiting t) (hop : t.stopped = false)
    (hb : bytes.length = 1) : Fits t bytes := by
  have hs := hwa.short hop
  have hr := h.room
  have hv := h.valid
  rw [hk.maximum, h.maximum] at hs
  have hm : options.maximumPayloadBytes.toNat ≤ 2 ^ 32 := by
    unfold validateMaximumPayload at hv
    split at hv
    · cases hv
    · omega
  have ho : kFrameOverheadBytes = 6 := rfl
  constructor
  · rw [hb, hk.capacity, h.capacity]
    omega
  · rw [hb]
    omega

/-- The messages a session has dispatched since it was created, each to its handler. -/
def Dispatched (dispatcher : SampleDispatcher η) (s : LengthPrefixedSession η)
    (messages : List SampleMessage) : Prop :=
  ∃ tasks, s.dispatcher.posted = dispatcher.posted ++ tasks ∧ tasks.map Prod.snd = messages ∧
    ∀ task ∈ tasks, dispatcher.handlers.lookup task.2.id = some task.1

theorem mapM_encode (h : ∀ message ∈ messages, Sendable handlers maximum message) :
    messages.mapM (fun message => LengthPrefixed.encode maximum message.id message.payload) =
      .ok (messages.map frame) := by
  induction messages with
  | nil => rfl
  | cons message messages ih =>
    rw [List.forall_mem_cons] at h
    rw [List.mapM_cons, encode_ok h.1.payload, ih h.2]
    rfl

theorem Dispatched.of_posted
    (hs : ∀ message ∈ messages, Sendable dispatcher.handlers options.maximumPayloadBytes message)
    (hp : t.dispatcher.posted = dispatcher.posted ++ tasks dispatcher.handlers messages) :
    Dispatched dispatcher t messages :=
  ⟨_, hp, tasks_messages hs, fun _ ht => tasks_handlers ht⟩

theorem drain_bad (h : Bad maximum b0 b1 b2 b3) :
    (reader handlers maximum).drain (b0 :: b1 :: b2 :: b3 :: rest).length
        (⟨posted, false, error⟩, b0 :: b1 :: b2 :: b3 :: rest) =
      (⟨posted, true, if (bigEndian b0 b1 b2 b3).toNat < kMessageIdBytes then .bodyTooSmall
        else .payloadTooLarge⟩, []) := by
  have hd := decodeOctets_bad h rest
  have hr : (reader handlers maximum).round ⟨posted, false, error⟩ (b0 :: b1 :: b2 :: b3 :: rest) =
      some (⟨posted, true, if (bigEndian b0 b1 b2 b3).toNat < kMessageIdBytes then .bodyTooSmall
        else .payloadTooLarge⟩, []) := by
    unfold reader
    dsimp only
    rw [hd]
    rfl
  rw [List.length_cons, Incremental.Reader.drain, hr]
  exact drain_stopped rfl

theorem Fresh.octets (h : Fresh options dispatcher s) (hk : Kept s t)
    (hwa : Waiting t) (ho : ∀ call ∈ calls, call.bytes.length = 1) :
    ∀ event ∈ Runs.history step t calls,
      (event.before.stopped = false → Fits event.before event.input.bytes) ∧
      ∃ result, (event.before.feed event.input.bytes event.input.submit).1 = .ok result ∧
        result.status ≠ .bufferLimitExceeded := by
  induction calls generalizing t with
  | nil => simp [Runs.history]
  | cons call calls ih =>
    rw [List.forall_mem_cons] at ho
    have hf : t.stopped = false → Fits t call.bytes :=
      fun hop => h.octet_fits hk hwa hop ho.1
    obtain ⟨hn, hwt, hr⟩ := feed_spec hf hwa
    rw [Runs.history, List.forall_mem_cons]
    exact ⟨⟨hf, hr⟩, ih (hk.trans hn) hwt ho.2⟩

/-- However the frames are cut, all are dispatched in order; a length field that no frame has stops
the session behind those before it. -/
theorem sample_protocol_end_to_end
    (h : LengthPrefixedSession.create (some dispatcher) options = .ok s) :
    (∀ messages, (∀ message ∈ messages,
        Sendable dispatcher.handlers options.maximumPayloadBytes message) →
      ∃ frames, messages.mapM (fun message =>
          LengthPrefixed.encode options.maximumPayloadBytes message.id message.payload) = .ok frames ∧
        (∀ calls, calls.flatMap Call.bytes = frames.flatten → Accepting calls → Roomy s calls →
          Dispatched dispatcher (Runs.final step s calls) messages ∧
          (Runs.final step s calls).receiveBuffer.contents = [] ∧
          (Runs.final step s calls).stopped = false) ∧
        ∀ b0 b1 b2 b3 rest calls, Bad options.maximumPayloadBytes b0 b1 b2 b3 →
          calls.flatMap Call.bytes = frames.flatten ++ b0 :: b1 :: b2 :: b3 :: rest →
          Accepting calls → Roomy s calls →
          Dispatched dispatcher (Runs.final step s calls) messages ∧
          (Runs.final step s calls).stopped = true ∧
          (Runs.final step s calls).lastDecodeError =
            if (bigEndian b0 b1 b2 b3).toNat < kMessageIdBytes then .bodyTooSmall
            else .payloadTooLarge) ∧
    ∀ calls : List Call, (∀ call ∈ calls, call.bytes.length = 1) →
      ∀ event ∈ Runs.history step s calls,
        (event.before.stopped = false → Fits event.before event.input.bytes) ∧
        ∃ result, (event.before.feed event.input.bytes event.input.submit).1 = .ok result ∧
          result.status ≠ .bufferLimitExceeded := by
  have hfresh := Fresh.of_create h
  refine ⟨?_, fun calls => hfresh.octets ⟨rfl, rfl, rfl⟩ hfresh.waiting⟩
  intro messages hsendable
  refine ⟨_, mapM_encode hsendable, ?_, ?_⟩
  · intro calls hbytes haccepting hroomy
    rw [← List.flatMap_def, ← List.append_nil (messages.flatMap frame)] at hbytes
    have hview := hfresh.frames hsendable hbytes haccepting hroomy
    have hstopped : (Runs.final step s calls).stopped = false :=
      congrArg (fun v => v.1.stopped) hview
    have hcontents := congrArg Prod.snd hview
    rw [view, if_neg (Bool.eq_false_iff.mp hstopped)] at hcontents
    exact ⟨.of_posted hsendable (congrArg (fun v => v.1.posted) hview), hcontents, hstopped⟩
  · intro b0 b1 b2 b3 rest calls hbad hbytes haccepting hroomy
    rw [← List.flatMap_def] at hbytes
    have hview := hfresh.frames hsendable hbytes haccepting hroomy
    rw [drain_bad hbad] at hview
    exact ⟨.of_posted hsendable (congrArg (fun v => v.1.posted) hview),
      congrArg (fun v => v.1.stopped) hview, congrArg (fun v => v.1.error) hview⟩

end Sessions

def notes : List SampleMessage := [{ id := 7, payload := [1, 2] }, { id := 8, payload := [3] }]

def noteOctets : Octets := [0, 0, 0, 4, 0, 7, 1, 2, 0, 0, 0, 3, 0, 8, 3]

def noteDispatcher : SampleDispatcher String :=
  { handlers := (AList.singleton 8 "second").insert 7 "first" }

def octetwise (bytes : Octets) : List Call := bytes.map fun octet => ⟨[octet], accepting⟩

/-- Two messages octet by octet, and then the length of a body too small for a message id. -/
theorem sample_protocol_end_to_end_notes : ∃ s : LengthPrefixedSession String,
    LengthPrefixedSession.create (some noteDispatcher) {} = .ok s ∧
    Dispatched noteDispatcher (Runs.final step s (octetwise noteOctets)) notes ∧
    let t := Runs.final step s (octetwise (noteOctets ++ [0, 0, 0, 1, 9]))
    Dispatched noteDispatcher t notes ∧ t.stopped = true ∧ t.lastDecodeError = .bodyTooSmall := by
  refine ⟨_, rfl, ?_⟩
  obtain ⟨hmessages, hoctets⟩ := @sample_protocol_end_to_end String _ {} noteDispatcher rfl
  have hsendable : ∀ message ∈ notes,
      Sendable noteDispatcher.handlers (60 * 1024) message := by
    intro message hmessage
    simp only [notes, List.mem_cons, List.not_mem_nil, or_false] at hmessage
    rcases hmessage with rfl | rfl <;> exact ⟨by decide, by decide⟩
  have haccepting : ∀ bytes, Accepting (octetwise bytes) := by
    intro bytes call hcall k
    obtain ⟨octet, -, rfl⟩ := List.mem_map.mp hcall
    rfl
  have hsingle : ∀ bytes, ∀ call ∈ octetwise bytes, call.bytes.length = 1 := by
    intro bytes call hcall
    obtain ⟨octet, -, rfl⟩ := List.mem_map.mp hcall
    rfl
  obtain ⟨frames, hframes, hgood, hbad⟩ := hmessages notes hsendable
  cases hframes.symm.trans (mapM_encode hsendable)
  refine ⟨(hgood _ (by decide) (haccepting _) ?_).1,
    hbad 0 0 0 1 [9] _ (.inl (by decide)) (by decide) (haccepting _) ?_⟩
  all_goals exact fun event hevent => (hoctets _ (hsingle _) event hevent).1

end IocpRuntime.Proofs.LengthPrefixedRuns
