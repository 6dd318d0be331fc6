import IocpRuntime.Http2.Feed

namespace IocpRuntime.Proofs.FrameRoundTrip
open Lib Buffer Http2

/-- The stream id the decoder reads back from the octets the encoder wrote. -/
def foldedId (id : UInt32) : UInt32 :=
  (makeUint32 0 0 (((id >>> 24) &&& 0x7f).toUInt8 &&& 0x7f) ((id >>> 16) &&& 0xff).toUInt8 |||
    (((id >>> 8) &&& 0xff).toUInt8.toUInt32 <<< 8) |||
    ((id &&& 0xff).toUInt8.toUInt32 <<< 0)) &&& 0x7fffffff

theorem low_octet_toNat (x : UInt32) : (x &&& 0xff).toUInt8.toNat = x.toNat % 256 := by
  simpa using octet_toNat x 0 (by decide)

theorem mask_toNat (x : UInt32) : (x &&& 0x7fffffff).toNat = x.toNat % 2 ^ 31 := by
  rw [UInt32.toNat_and]
  exact Nat.and_two_pow_sub_one_eq_mod _ 31

/-- Both halves of the decoded id are assembled below bit 16. -/
theorem folded_lt (id : UInt32) : (foldedId id).toNat < 2 ^ 16 := by
  unfold foldedId
  generalize hb5 : ((id >>> 24) &&& 0x7f).toUInt8 &&& 0x7f = b5
  generalize hb6 : ((id >>> 16) &&& 0xff).toUInt8 = b6
  generalize hb7 : ((id >>> 8) &&& 0xff).toUInt8 = b7
  generalize hb8 : (id &&& 0xff).toUInt8 = b8
  have h5 := b5.toNat_lt
  have h6 := b6.toNat_lt
  have h7 := b7.toNat_lt
  have h8 := b8.toNat_lt
  have hh : (makeUint32 0 0 b5 b6).toNat < 2 ^ 16 := by
    rw [makeUint32, bigEndian_toNat]
    simp only [UInt8.toNat_zero]
    omega
  have hmid : (b7.toUInt32 <<< 8).toNat < 2 ^ 16 := by
    simp [Nat.shiftLeft_eq]
    omega
  have hlow : (b8.toUInt32 <<< 0).toNat < 2 ^ 16 := by
    simp
    omega
  rw [mask_toNat, UInt32.toNat_or, UInt32.toNat_or]
  exact Nat.lt_of_le_of_lt (Nat.mod_le _ _) (Nat.or_lt_two_pow (Nat.or_lt_two_pow hh hmid) hlow)

/-- An id that fits in 16 bits leaves octets 5 and 6 zero and survives. -/
theorem folded_small (id : UInt32) (h : id.toNat < 2 ^ 16) : foldedId id = id := by
  have h24 : ((id >>> 24) &&& 0x7f).toUInt8 = 0 := by
    have hs : id >>> 24 = 0 := by
      apply UInt32.toNat_inj.mp
      simp [Nat.shiftRight_eq_div_pow]
      omega
    rw [hs]
    rfl
  have h16 : ((id >>> 16) &&& 0xff).toUInt8 = 0 := by
    have hs : id >>> 16 = 0 := by
      apply UInt32.toNat_inj.mp
      simp [Nat.shiftRight_eq_div_pow]
      omega
    rw [hs]
    rfl
  have h8 := octet_toNat id 8 (by decide)
  have h0 := low_octet_toNat id
  have hz : makeUint32 0 0 (0 &&& 0x7f) 0 = 0 := by decide
  unfold foldedId
  rw [h24, h16, hz, UInt32.zero_or]
  apply UInt32.toNat_inj.mp
  rw [mask_toNat, UInt32.toNat_or]
  have hmid : (((id >>> 8) &&& 0xff).toUInt8.toUInt32 <<< 8).toNat = id.toNat / 256 * 2 ^ 8 := by
    rw [UInt32.toNat_shiftLeft, UInt8.toNat_toUInt32, h8]
    simp [Nat.shiftLeft_eq]
    omega
  have hlow : ((id &&& 0xff).toUInt8.toUInt32 <<< 0).toNat = id.toNat % 256 := by
    rw [UInt32.toNat_shiftLeft, UInt8.toNat_toUInt32, h0]
    simp
    omega
  rw [hmid, hlow, mul_two_pow_or (by omega)]
  omega

theorem folded_eq_iff (id : UInt32) : foldedId id = id ↔ id.toNat < 2 ^ 16 := by
  constructor
  · intro h
    have := folded_lt id
    rwa [h] at this
  · exact folded_small id

/-- The 24-bit length is read back exactly. -/
theorem length_round_trip (length : UInt32) (h : length.toNat < 2 ^ 24) :
    makeUint32 0 ((length >>> 16) &&& 0xff).toUInt8 ((length >>> 8) &&& 0xff).toUInt8
      (length &&& 0xff).toUInt8 = length := by
  have h16 := octet_toNat length 16 (by decide)
  have h8 := octet_toNat length 8 (by decide)
  have h0 := low_octet_toNat length
  apply UInt32.toNat_inj.mp
  rw [makeUint32, bigEndian_toNat, h16, h8, h0]
  simp
  omega

theorem encode_length : (encodeHeader header).length = kHeaderSize := rfl

theorem headerOf_append (h : kHeaderSize ≤ readable.length) :
    headerOf (readable ++ more) = headerOf readable := by
  have hs : ∀ index, index < kHeaderSize → (readable ++ more).getD index 0 = readable.getD index 0 := by
    intro index hi
    rw [List.getD_append _ _ _ _ (Nat.lt_of_lt_of_le hi h)]
  simp only [headerOf, hs 0 (by decide), hs 1 (by decide), hs 2 (by decide),
    hs 3 (by decide), hs 4 (by decide), hs 5 (by decide), hs 6 (by decide),
    hs 7 (by decide), hs 8 (by decide)]

theorem decodeHeader_eq (readable : BufferSequence) (h : kHeaderSize ≤ readable.bytes.length) :
    decodeHeader readable = .ok (some (headerOf readable.bytes)) := by
  have hs : ¬ readable.size < kHeaderSize := by
    rw [BufferSequence.size_eq]
    exact Nat.not_lt.mpr h
  have hb : ∀ index, index < kHeaderSize →
      readable.byteAt index = .ok (readable.bytes.getD index 0) := by
    intro index hi
    have hl := Nat.lt_of_lt_of_le hi h
    rw [BufferSequence.byteAt_eq readable index hl, List.getD_eq_getElem _ _ hl]
  simp only [decodeHeader, hs, if_false]
  rw [hb 0 (by decide), hb 1 (by decide), hb 2 (by decide), hb 3 (by decide),
    hb 4 (by decide), hb 5 (by decide), hb 6 (by decide), hb 7 (by decide),
    hb 8 (by decide)]
  rfl

theorem headerOf_encode (hl : header.length.toNat < 2 ^ 24) :
    headerOf (encodeHeader header) = { header with streamId := foldedId header.streamId } := by
  simp only [headerOf, encodeHeader, foldedId, List.getD_cons_zero, List.getD_cons_succ,
    length_round_trip header.length hl]

def recovered (frame : Frame) : Frame :=
  { frame with header := { frame.header with streamId := foldedId frame.header.streamId } }

theorem recovered_eq_iff : recovered frame = frame ↔ frame.header.streamId.toNat < 2 ^ 16 := by
  rw [← folded_eq_iff]
  obtain ⟨⟨length, type, flags, id⟩, payload⟩ := frame
  simp [recovered]

/-- A frame the peer may send: its length is that of the payload and within the limits. -/
structure Sendable (maximumFrameSize : UInt32) (frame : Frame) : Prop where
  length_eq : frame.header.length.toNat = frame.payload.length
  length_lt : frame.payload.length < 2 ^ 24
  length_le : frame.payload.length ≤ maximumFrameSize.toNat
  id_lt : frame.header.streamId.toNat < 2 ^ 31

/-- What is cut off, wherever the ring splits the octets. -/
def cutSeen : FrameCut → Cut
  | .needMore => .needMore
  | .protocolError => .protocolError
  | .frame frame rest => .frame frame rest.bytes

theorem cutFrame_seen (maximumFrameSize : UInt32) (readable : BufferSequence) :
    (cutFrame maximumFrameSize readable).map cutSeen =
      .ok (cutOctets maximumFrameSize readable.bytes) := by
  unfold cutFrame cutOctets
  rw [BufferSequence.size_eq]
  by_cases hs : readable.bytes.length < kHeaderSize
  · rw [if_pos hs, if_pos hs]
    rfl
  rw [if_neg hs, if_neg hs, decodeHeader_eq readable (Nat.not_lt.mp hs)]
  simp only [bind, Except.bind]
  generalize headerOf readable.bytes = header
  by_cases hl : header.length > maximumFrameSize
  · rw [if_pos hl, if_pos hl]
    rfl
  rw [if_neg hl, if_neg hl]
  by_cases hw : readable.bytes.length < kHeaderSize + header.length.toNat
  · rw [if_pos hw, if_pos hw]
    rfl
  rw [if_neg hw, if_neg hw, BufferSequence.copyTo_eq _ _ _ (Nat.not_lt.mp hw)]
  split
  · rename_i hz
    simp [hz, cutSeen, slice, Except.map, pure, Except.pure]
  · simp [cutSeen, Except.map, pure, Except.pure]

theorem cutOctets_octets (hl : frame.header.length.toNat = frame.payload.length)
    (hf : frame.payload.length < 2 ^ 24) (hsi : frame.header.length ≤ maximumFrameSize)
    (rest : Octets) :
    cutOctets maximumFrameSize (frame.octets ++ rest) = .frame (recovered frame) rest := by
  have hh : headerOf (frame.octets ++ rest) =
      { frame.header with streamId := foldedId frame.header.streamId } := by
    rw [Frame.octets, List.append_assoc, headerOf_append encode_length.ge,
      headerOf_encode (hl ▸ hf)]
  have hwh : (frame.octets ++ rest).length =
      kHeaderSize + frame.header.length.toNat + rest.length := by
    rw [Frame.octets, List.length_append, List.length_append, encode_length, hl]
  have hp : (frame.octets ++ rest).drop kHeaderSize = frame.payload ++ rest := by
    rw [Frame.octets, List.append_assoc, ← encode_length, List.drop_left]
  have hs : slice (frame.octets ++ rest) kHeaderSize
      (kHeaderSize + frame.header.length.toNat) = frame.payload := by
    rw [slice, hp, Nat.add_sub_cancel_left, hl, List.take_left]
  have hr : (frame.octets ++ rest).drop (kHeaderSize + frame.header.length.toNat) = rest := by
    rw [← List.drop_drop, hp, hl, List.drop_left]
  unfold cutOctets
  rw [if_neg (by omega), hh]
  dsimp only
  rw [if_neg (UInt32.not_lt.mpr hsi), if_neg (by omega), hs, hr]
  rfl

/-- One step of the splitting loop on a buffer that starts with a whole frame. -/
theorem cut_frame (hs : Sendable maximumFrameSize frame)
    (hin : input.bytes = frame.octets ++ rest) :
    ∃ more, cutFrame maximumFrameSize input = .ok (.frame (recovered frame) more) ∧
      more.bytes = rest := by
  have hsize : frame.header.length ≤ maximumFrameSize := by
    rw [UInt32.le_iff_toNat_le, hs.length_eq]
    exact hs.length_le
  have hcut := cutFrame_seen maximumFrameSize input
  rw [hin, cutOctets_octets hs.length_eq hs.length_lt hsize] at hcut
  cases hc : cutFrame maximumFrameSize input with
  | error error =>
    rw [hc] at hcut
    cases hcut
  | ok cut =>
    rw [hc] at hcut
    cases cut with
    | frame cutOff more =>
      cases hcut
      exact ⟨more, rfl, rfl⟩
    | _ => cases hcut

/-- The whole splitting loop: every frame comes back, folded, and nothing is left. -/
theorem split_frames (maximumFrameSize : UInt32) (frames : List Frame) (input : BufferSequence)
    (hs : ∀ f ∈ frames, Sendable maximumFrameSize f)
    (hin : input.bytes = frames.flatMap Frame.octets) (fuel : Nat)
    (hfu : frames.length ≤ fuel) :
    splitFrames maximumFrameSize fuel input = .ok (frames.map recovered, []) := by
  induction frames generalizing input fuel with
  | nil =>
    have hb : input.bytes = [] := by simpa using hin
    cases fuel with
    | zero => simp [splitFrames, hb]
    | succ fuel =>
      have hz : input.size < kHeaderSize := by simp [hb, kHeaderSize]
      have hcut : cutFrame maximumFrameSize input = .ok .needMore := by rw [cutFrame, if_pos hz]
      simp [splitFrames, hcut, hb, bind, Except.bind, pure, Except.pure]
  | cons frame frames ih =>
    cases fuel with
    | zero => simp at hfu
    | succ fuel =>
      obtain ⟨more, hcut, hr⟩ := cut_frame (hs frame List.mem_cons_self)
        (by rw [hin, List.flatMap_cons])
      have hih := ih more (fun f hf => hs f (List.mem_cons_of_mem _ hf)) hr fuel
        (by simpa using hfu)
      simp [splitFrames, hcut, bind, Except.bind, hih, pure, Except.pure]

/-- Every frame takes at least its nine header octets, so the octet count is fuel enough. -/
theorem frames_length_le (frames : List Frame) :
    frames.length ≤ (frames.flatMap Frame.octets).length := by
  induction frames with
  | nil => simp
  | cons frame frames ih =>
    have hl : frame.octets.length = kHeaderSize + frame.payload.length := by
      rw [Frame.octets, List.length_append, encode_length]
    simp only [List.length_cons, List.flatMap_cons, List.length_append, hl, kHeaderSize]
    omega

/-- Encoded frames split into themselves exactly when every stream id fits in 16 bits. -/
theorem frames_round_trip (maximumFrameSize : UInt32) (frames : List Frame)
    (input : BufferSequence) (hs : ∀ f ∈ frames, Sendable maximumFrameSize f)
    (hin : input.bytes = frames.flatMap Frame.octets) :
    splitFrames maximumFrameSize input.size input = .ok (frames, []) ↔
      ∀ f ∈ frames, f.header.streamId.toNat < 2 ^ 16 := by
  have hfuel : frames.length ≤ input.size := by
    rw [BufferSequence.size_eq, hin]
    exact frames_length_le frames
  rw [split_frames maximumFrameSize frames input hs hin _ hfuel]
  simp only [Except.ok.injEq, Prod.mk.injEq, and_true]
  simp only [← recovered_eq_iff]
  constructor
  · intro h f hf
    exact List.map_eq_map_iff.mp (h.trans (List.map_id frames).symm) f hf
  · intro h
    exact (List.map_congr_left h).trans (List.map_id frames)

def bareHeaders (id : UInt32) : Frame := ⟨{ type := .headers, flags := 0x05, streamId := id }, []⟩

def bareInput (id : UInt32) : BufferSequence :=
  .ofViews (bareHeaders id).octets [] (by simp [Frame.octets, encodeHeader, bareHeaders])

theorem bare_sendable (id : UInt32) (h : id.toNat < 2 ^ 31) : Sendable 16384 (bareHeaders id) :=
  ⟨rfl, Nat.two_pow_pos 24, Nat.zero_le _, h⟩

def sentFrames : List Frame :=
  [⟨{ length := 2, type := .headers, flags := 0x04, streamId := 259 }, [0x83, 0x84]⟩,
    ⟨{ length := 3, type := .data, flags := 0x01, streamId := 259 }, [7, 8, 9]⟩]

/-- The ring splits the payload of the first frame. -/
def sentInput : BufferSequence :=
  .ofViews ((sentFrames.flatMap Frame.octets).take 10) ((sentFrames.flatMap Frame.octets).drop 10)
    (by decide)

theorem frames_round_trip_upload :
    splitFrames 16384 sentInput.size sentInput = .ok (sentFrames, []) := by
  refine (frames_round_trip 16384 sentFrames sentInput ?_ (by decide)).mpr (by decide)
  intro f hf
  simp only [sentFrames, List.mem_cons, List.not_mem_nil, or_false] at hf
  rcases hf with rfl | rfl <;> exact ⟨rfl, by decide, by decide, by decide⟩

/-- Stream 65537 comes back as stream 1. -/
theorem frames_round_trip_fails : Sendable 16384 (bareHeaders 65537) ∧
    (bareInput 65537).bytes = [bareHeaders 65537].flatMap Frame.octets ∧
    splitFrames 16384 (bareInput 65537).size (bareInput 65537) = .ok ([bareHeaders 1], []) ∧
    splitFrames 16384 (bareInput 65537).size (bareInput 65537) ≠ .ok ([bareHeaders 65537], []) :=
  ⟨bare_sendable 65537 (by decide), by simp [bareInput], by rfl, by decide⟩

end IocpRuntime.Proofs.FrameRoundTrip
