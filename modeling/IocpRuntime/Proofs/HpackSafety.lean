import IocpRuntime.Http2.HpackMemory

namespace IocpRuntime.Proofs.HpackSafety
open Lib Lib.Faults Http Http2

/-- A value read up to an offset that is not below `low`, and the same value with the
octets that are left. -/
structure At {α : Type} (data : Octets) (low : Nat) (p : α × Nat) (q : α × Octets) : Prop where
  value : p.1 = q.1
  rest : q.2 = data.drop p.2
  low : low ≤ p.2
  high : p.2 ≤ data.length

variable {data : Octets}

theorem drop_cons (h : offset < data.length) :
    data.drop offset = data[offset] :: data.drop (offset + 1) :=
  List.drop_eq_getElem_cons h

theorem readContinuation_follows (hm : m + 7 * rounds = 35) (hr : 0 < rounds) (ho : offset ≤ data.length) :
    Follows (At data offset) (HpackMemory.readContinuation data rounds offset value m)
      (readContinuation rounds (data.drop offset) value m) := by
  induction rounds generalizing m offset value with
  | zero => omega
  | succ rounds ih =>
    rw [HpackMemory.readContinuation]
    by_cases hlt : offset < data.length
    · rw [if_neg (Nat.not_le.mpr hlt), drop_cons hlt, fetch_lt hlt, readContinuation]
      refine .ite (fun _ => .returns ⟨rfl, rfl, Nat.le_succ _, hlt⟩) (fun _ => ?_)
      refine .ite (fun _ => .throws _) (fun hs => ?_)
      exact (ih (by omega) (by omega) hlt).mono
        (fun _ _ h => ⟨h.value, h.rest, Nat.le_of_succ_le h.low, h.high⟩)
    · rw [if_pos (Nat.le_of_not_lt hlt), List.drop_of_length_le (Nat.le_of_not_lt hlt)]
      exact .throws _

theorem readDecodedInteger_follows (data : Octets) (offset prefixBits : Nat) :
    Follows (At data (offset + 1)) (HpackMemory.readDecodedInteger data offset prefixBits)
      (readDecodedInteger (data.drop offset) prefixBits) := by
  rw [HpackMemory.readDecodedInteger]
  by_cases hlt : offset < data.length
  · rw [if_neg (Nat.not_le.mpr hlt), drop_cons hlt, fetch_lt hlt, readDecodedInteger]
    refine .ite (fun _ => .returns ⟨rfl, rfl, Nat.le_refl _, hlt⟩) (fun _ => ?_)
    exact readContinuation_follows rfl (by decide) hlt
  · rw [if_pos (Nat.le_of_not_lt hlt), List.drop_of_length_le (Nat.le_of_not_lt hlt)]
    exact .throws _

theorem decodeString_follows : Follows (At data offset) (HpackMemory.decodeString data offset)
      (decodeString (data.drop offset)) := by
  rw [HpackMemory.decodeString]
  by_cases hlt : offset < data.length
  · have hr := readDecodedInteger_follows data offset 7
    rw [if_neg (Nat.not_le.mpr hlt), fetch_lt hlt]
    rw [drop_cons hlt] at hr ⊢
    rw [decodeString]
    refine hr.bind ?_
    rintro ⟨length, stop⟩ ⟨_, rest⟩ ⟨rfl, hre, hlow, hh⟩
    dsimp only at hre hlow hh ⊢
    subst hre
    by_cases hl : stop + length > data.length
    · rw [if_pos hl, if_pos (by rw [List.length_drop]; omega)]
      exact .throws _
    · rw [if_neg hl, if_neg (by rw [List.length_drop]; omega), span_eq (Nat.le_of_not_lt hl)]
      have hr (result : Octets) : At data offset (result, stop + length)
          (result, (data.drop stop).drop length) :=
        ⟨rfl, List.drop_drop, by dsimp only; omega, Nat.le_of_not_lt hl⟩
      refine .ite (fun _ => ?_) (fun _ => .returns (hr _))
      cases huffmanDecode ((data.drop stop).take length) with
      | none => exact .throws _
      | some result => exact .returns (hr result)
  · rw [if_pos (Nat.le_of_not_lt hlt), List.drop_of_length_le (Nat.le_of_not_lt hlt)]
    exact .throws _

theorem lookup_follows : Follows Eq (HpackMemory.lookup codec index) (codec.lookup index) := by
  unfold HpackMemory.lookup HpackCodec.lookup
  refine .ite (fun _ => .throws _) (fun _ => .ite (fun hs => ?_) (fun hd => ?_))
  · rw [fetch_lt hs, List.getD_eq_getElem _ _ hs]
    exact .returns rfl
  · rw [minus_eq (Nat.le_of_not_lt hd)]
    cases he : codec.dynamicTable[index - staticTable.length]? with
    | none =>
      have hout := List.getElem?_eq_none_iff.mp he
      rw [pure_bind, if_pos hout]
      exact .throws _
    | some e =>
      have hin := (List.getElem?_eq_some_iff.mp he).1
      rw [pure_bind, if_neg (Nat.not_le.mpr hin), fetch_eq he]
      exact .returns rfl

theorem decodeName_follows (ho : offset ≤ data.length) :
    Follows (At data offset) (HpackMemory.decodeName data codec nameIndex offset)
      (codec.decodeName nameIndex (data.drop offset)) := by
  refine .ite (fun _ => ?_) (fun _ => decodeString_follows)
  refine lookup_follows.bind ?_
  rintro e _ rfl
  exact .returns ⟨rfl, rfl, Nat.le_refl _, ho⟩

structure Behind (data : Octets) (s : HpackMemory.Decoding) (t : HpackCodec.Decoding) :
    Prop where
  codec : s.codec = t.codec
  headers : s.headers = t.headers
  size : s.headerListSize = t.headerListSize
  rest : t.data = data.drop s.offset
  inside : s.offset ≤ data.length

theorem decodeRepresentation_follows (h : Behind data s t) (firstByte : UInt8) :
    Follows (fun s' t' => Behind data s' t' ∧ s.offset < s'.offset)
      (HpackMemory.decodeRepresentation data s firstByte)
      (HpackCodec.decodeRepresentation t firstByte) := by
  have he (header : HttpHeader) (stop : Nat) (hh : stop ≤ data.length) :
      Behind data (HpackMemory.emit s header stop) (HpackCodec.emit t header (data.drop stop)) :=
    ⟨h.codec, congrArg (· ++ [header]) h.headers, congrArg (· + entrySize header) h.size, rfl, hh⟩
  unfold HpackMemory.decodeRepresentation HpackCodec.decodeRepresentation
  refine .ite (fun _ => ?indexed) (fun _ => .ite (fun _ => ?indexing) (fun _ =>
    .ite (fun _ => ?without) (fun _ => .ite (fun _ => ?update) (fun _ => .throws _))))
  case indexed =>
    rw [h.rest, ← h.codec]
    refine (readDecodedInteger_follows data s.offset 7).bind ?_
    rintro ⟨index, stop⟩ ⟨_, _⟩ ⟨rfl, rfl, hlow, hh⟩
    refine .ite (fun _ => .throws _) (fun _ => ?_)
    refine lookup_follows.bind ?_
    rintro e _ rfl
    exact .returns ⟨he e stop hh, hlow⟩
  case indexing =>
    rw [h.rest, ← h.codec]
    refine (readDecodedInteger_follows data s.offset 6).bind ?_
    rintro ⟨nameIndex, first⟩ ⟨_, _⟩ ⟨rfl, rfl, hf, hh⟩
    refine (decodeName_follows hh).bind ?_
    rintro ⟨name, second⟩ ⟨_, _⟩ ⟨rfl, rfl, hs, -⟩
    refine decodeString_follows.bind ?_
    rintro ⟨value, stop⟩ ⟨_, _⟩ ⟨rfl, rfl, hst, hend⟩
    have hp : s.offset < stop := Nat.lt_of_lt_of_le hf (Nat.le_trans hs hst)
    have hsa := he ⟨name, value⟩ stop hend
    exact .returns ⟨⟨rfl, hsa.headers, hsa.size, rfl, hend⟩, hp⟩
  case without =>
    rw [h.rest, ← h.codec]
    refine (readDecodedInteger_follows data s.offset 4).bind ?_
    rintro ⟨nameIndex, first⟩ ⟨_, _⟩ ⟨rfl, rfl, hf, hh⟩
    refine (decodeName_follows hh).bind ?_
    rintro ⟨name, second⟩ ⟨_, _⟩ ⟨rfl, rfl, hs, -⟩
    refine decodeString_follows.bind ?_
    rintro ⟨value, stop⟩ ⟨_, _⟩ ⟨rfl, rfl, hst, hend⟩
    have hp : s.offset < stop := Nat.lt_of_lt_of_le hf (Nat.le_trans hs hst)
    exact .returns ⟨he ⟨name, value⟩ stop hend, hp⟩
  case update =>
    rw [h.rest, h.codec]
    refine (readDecodedInteger_follows data s.offset 5).bind ?_
    rintro ⟨newSize, stop⟩ ⟨_, _⟩ ⟨rfl, rfl, hlow, hh⟩
    dsimp only
    cases t.codec.setDynamicTableSize newSize with
    | error e => exact .throws e
    | ok codec => exact .returns ⟨⟨rfl, h.headers, h.size, rfl, hh⟩, hlow⟩

/-- With a round for every octet that is left the loop comes to its end. The induction
is on the rounds. -/
theorem decodeLoop_follows (h : Behind data s t) (hr : data.length ≤ s.offset + rounds) :
    HpackMemory.decodeLoop data rounds s = some (HpackCodec.decodeLoop rounds t) := by
  induction rounds generalizing s t with
  | zero =>
    rw [HpackMemory.decodeLoop, if_neg (by omega), HpackCodec.decodeLoop, h.codec, h.headers]
  | succ rounds ih =>
    rw [HpackMemory.decodeLoop, HpackCodec.decodeLoop, h.rest]
    by_cases hlt : s.offset < data.length
    · have hro := decodeRepresentation_follows h data[s.offset]
      rw [if_pos hlt, drop_cons hlt, fetch_lt hlt, pure_bind]
      dsimp only
      generalize HpackMemory.decodeRepresentation data s data[s.offset] = x at hro ⊢
      generalize HpackCodec.decodeRepresentation t data[s.offset] = y at hro ⊢
      cases hro with
      | throws e => exact congrArg (fun codec => some (codec, _)) h.codec
      | @returns s' t' related =>
        obtain ⟨hb, hp⟩ := related
        change (if s'.headerListSize > s'.codec.options.maximumHeaderListSize then _ else _) =
          some (if t'.headerListSize > t'.codec.options.maximumHeaderListSize then _ else _)
        rw [hb.codec, hb.size]
        split
        · rfl
        · exact ih hb (by omega)
    · rw [if_neg hlt, List.drop_of_length_le (Nat.le_of_not_lt hlt), h.codec, h.headers]

/-- Over memory `Decode` comes to the same end as over values, and every round moves on. -/
theorem decode_total (codec : HpackCodec) (data : Octets) :
    HpackMemory.decode codec data = some (codec.decode data) ∧
      ∀ (s s' : HpackMemory.Decoding) (firstByte : UInt8), s.offset < data.length →
        (HpackMemory.decodeRepresentation data s firstByte).run = some (.ok s') →
        s.offset < s'.offset ∧ s'.offset ≤ data.length := by
  constructor
  · exact decodeLoop_follows ⟨rfl, rfl, rfl, rfl, Nat.zero_le _⟩ (Nat.le_add_left _ _)
  · intro s s' firstByte hlt hround
    have h : Behind data s ⟨s.codec, s.headers, s.headerListSize, data.drop s.offset⟩ :=
      ⟨rfl, rfl, rfl, rfl, Nat.le_of_lt hlt⟩
    have hfollows := decodeRepresentation_follows h firstByte
    generalize HpackMemory.decodeRepresentation data s firstByte = x at hfollows hround
    generalize HpackCodec.decodeRepresentation _ firstByte = y at hfollows
    cases hfollows with
    | throws e => cases hround
    | returns related =>
      cases hround
      exact ⟨related.2, related.1.inside⟩

end IocpRuntime.Proofs.HpackSafety
