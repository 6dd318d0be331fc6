import IocpRuntime.Http2.FrameMemory
import IocpRuntime.Proofs.SessionRuns

namespace IocpRuntime.Proofs.FrameSafety
open Lib Lib.Faults Http Http2 SessionRuns

variable {s : H2Session} {header : FrameHeader} {payload : Octets}

theorem ite_pure {α : Type} [Decidable p] {x y : FrameMemory.Access α} {a b : α}
    (hx : p → x = pure a) (hy : ¬ p → y = pure b) :
    (if p then x else y) = pure (if p then a else b) := by
  split
  · exact hx ‹_›
  · exact hy ‹_›

theorem minusWord_eq (h : b ≤ a) : FrameMemory.minusWord a b = pure (a - b) :=
  if_pos h

theorem exceedsRest_eq (size total part : Nat) :
    FrameMemory.exceedsRest (decide (part ≤ total)) size total part =
      pure (decide (part > total) || decide (size > total - part)) := by
  unfold FrameMemory.exceedsRest
  by_cases h : part ≤ total
  · have hn : ¬ total < part := Nat.not_lt.mpr h
    simp [h, hn, minus_eq h]
  · have hn : total < part := Nat.lt_of_not_le h
    simp [h, hn]

section Settings

theorem applySettings_append (s : H2Session) (hl : setting.length = 6) (rest : Octets) :
    s.applySettings (setting ++ rest) =
      if (s.applySettings setting).2 then (s.applySettings setting).1.applySettings rest
      else s.applySettings setting := by
  rcases setting with _ | ⟨a, _ | ⟨b, _ | ⟨c, _ | ⟨d, _ | ⟨e, _ | ⟨f, more⟩⟩⟩⟩⟩⟩ <;> simp at hl
  subst hl
  cases hs : s.applySetting ((a.toUInt16 <<< 8) ||| b.toUInt16) (bigEndian c d e f) <;>
    simp [H2Session.applySettings, hs]

theorem applySettings_short (hl : rest.length < 6) : s.applySettings rest = (s, true) := by
  rcases rest with _ | ⟨a, _ | ⟨b, _ | ⟨c, _ | ⟨d, _ | ⟨e, _ | ⟨f, more⟩⟩⟩⟩⟩⟩
  all_goals first | rfl | (simp at hl; omega)

theorem applySettings_eq (hr : payload.length < i + rounds) (hi : i ≤ payload.length) :
    FrameMemory.applySettings payload payload.length rounds i s =
      pure (s.applySettings (payload.drop i)) := by
  induction rounds generalizing i s with
  | zero => omega
  | succ rounds ih =>
    unfold FrameMemory.applySettings
    split
    · rename_i hin
      have hl : ((payload.drop i).take 6).length = 6 := by simp; omega
      have ha := applySettings_append s hl ((payload.drop i).drop 6)
      rw [List.take_append_drop, List.drop_drop] at ha
      rw [span_eq hin, pure_bind, ha]
      exact ite_pure (fun _ => ih (by omega) hin) (fun _ => rfl)
    · rw [applySettings_short (by simp; omega)]

end Settings

section Handlers
variable (hd : payload.length = header.length.toNat)
include hd

theorem handleSettings_eq : FrameMemory.handleSettings s header payload order =
    pure (s.handleSettings header payload order) := by
  refine ite_pure (fun _ => rfl) (fun _ => ite_pure (fun _ => rfl) (fun _ => ?_))
  refine ite_pure (fun _ => rfl) (fun _ => ?_)
  dsimp only
  rw [← hd, applySettings_eq (by omega) (Nat.zero_le _), pure_bind, List.drop_zero]
  exact ite_pure (fun _ => rfl) (fun _ => rfl)

omit hd in
theorem padLength_eq (h : padded = true → 0 < payload.length) :
    FrameMemory.padLength payload padded =
      pure (if padded then (payload.getD 0 0).toNat else 0) := by
  cases padded with
  | false => rfl
  | true =>
    have hp := h rfl
    simp [FrameMemory.padLength, fetch_lt hp, List.getElem?_eq_getElem hp]

theorem padded_pos (h : ¬ (padded && header.length.toNat == 0) = true) :
    padded = true → 0 < payload.length := by
  rintro rfl
  simp at h
  omega

theorem headerFragment_eq : FrameMemory.headerFragment header payload =
    pure (headerFragment header payload) := by
  refine ite_pure (fun _ => rfl) (fun hz => ?_)
  dsimp only
  rw [padLength_eq (padded_pos hd hz), pure_bind, exceedsRest_eq, pure_bind]
  refine ite_pure (fun _ => rfl) (fun hr => ?_)
  rw [Bool.or_eq_true, decide_eq_true_eq, decide_eq_true_eq, not_or, Nat.not_lt, Nat.not_lt] at hr
  rw [minus_eq hr.1, pure_bind, minus_eq hr.2, pure_bind, span_eq (by omega), pure_bind, slice,
    Nat.sub_right_comm]

theorem handleHeaders_eq : FrameMemory.handleHeaders s header payload dispatch =
    pure (s.handleHeaders header payload dispatch) := by
  unfold FrameMemory.handleHeaders H2Session.handleHeaders
  refine ite_pure (fun _ => rfl) (fun _ => ?_)
  cases s.headerStream header with
  | none => rfl
  | some found =>
    refine ite_pure (fun _ => rfl) (fun _ => ?_)
    exact congrArg (· >>= _) (headerFragment_eq hd)

theorem dataRange_eq : FrameMemory.dataRange header payload = pure (dataRange header payload) := by
  refine ite_pure (fun _ => rfl) (fun hz => ?_)
  have hp := padded_pos hd hz
  have ho : (if header.has .padded then 1 else 0) ≤ header.length.toNat := by
    split
    · exact hd ▸ hp ‹_›
    · exact Nat.zero_le _
  dsimp only
  rw [padLength_eq hp, pure_bind, minus_eq ho, pure_bind]
  exact ite_pure (fun _ => rfl) (fun hr => by rw [minus_eq (Nat.le_of_not_lt hr), pure_bind])

theorem dataRange_inside (h : dataRange header payload = some (offset, size)) :
    offset + size ≤ payload.length := by
  simp only [dataRange, Option.ite_none_left_eq_some, Option.some.injEq, Prod.mk.injEq] at h
  obtain ⟨hz, -, rfl, rfl⟩ := h
  have hp := padded_pos hd hz
  split
  · have h1 := hp ‹_›
    omega
  · omega

omit hd in
theorem replenish_eq (s : H2Session) (stream : H2Stream) :
    FrameMemory.replenishConnection s = pure s.replenishConnection ∧
      FrameMemory.replenishStream s stream = pure (s.replenishStream stream) := by
  -- half of the initial window is no more than all of it
  have hh : ∀ {window : UInt32}, window < s.config.initialWindowSize / 2 →
      window ≤ s.config.initialWindowSize := by
    intro window hw
    rw [UInt32.lt_iff_toNat_lt, UInt32.toNat_div] at hw
    rw [UInt32.le_iff_toNat_le]
    have hd := Nat.div_le_self s.config.initialWindowSize.toNat (2 : UInt32).toNat
    omega
  constructor
  · exact ite_pure (fun hw => by rw [minusWord_eq (hh hw), pure_bind]) (fun _ => rfl)
  · exact ite_pure (fun hw => by rw [minusWord_eq (hh hw), pure_bind]) (fun _ => rfl)

theorem handleData_eq : FrameMemory.handleData s header payload dispatch =
    pure (s.handleData header payload dispatch) := by
  unfold FrameMemory.handleData H2Session.handleData
  refine ite_pure (fun _ => rfl) (fun _ => ?_)
  cases s.streams.lookup header.streamId with
  | none => rfl
  | some stream =>
    refine ite_pure (fun _ => rfl) (fun _ => ?_)
    rw [dataRange_eq hd, pure_bind]
    cases hr : dataRange header payload with
    | none => rfl
    | some range =>
      refine ite_pure (fun _ => rfl) (fun hw => ?_)
      obtain ⟨hs, hc⟩ := not_or.mp hw
      dsimp only
      rw [exceedsRest_eq, pure_bind]
      simp only [Bool.or_eq_true, decide_eq_true_eq]
      refine ite_pure (fun _ => rfl) (fun _ => ?_)
      rw [minusWord_eq (UInt32.not_lt.mp hs), pure_bind, minusWord_eq (UInt32.not_lt.mp hc),
        pure_bind, span_eq (dataRange_inside hd hr), pure_bind, (replenish_eq _ stream).1, pure_bind,
        (replenish_eq _ _).2, pure_bind, slice, Nat.add_sub_cancel_left]

theorem span_whole (h : ¬ header.length ≠ size) :
    (span payload 0 size.toNat : FrameMemory.Access Octets) = pure payload := by
  have hl : payload.length = size.toNat := by rw [hd, not_not.mp h]
  rw [span_eq (by omega), List.drop_zero, ← hl, List.take_length]

theorem handleRstStream_eq : FrameMemory.handleRstStream s header payload =
    pure (s.handleRstStream header) := by
  unfold FrameMemory.handleRstStream
  split
  · rw [H2Session.handleRstStream, if_pos ‹_›]
  · rename_i hl
    exact congrArg (· >>= _) (span_whole hd (not_or.mp hl).2)

theorem handleWindowUpdate_eq : FrameMemory.handleWindowUpdate s header payload order =
    pure (s.handleWindowUpdate header payload order) := by
  unfold FrameMemory.handleWindowUpdate
  split
  · rw [H2Session.handleWindowUpdate, if_pos ‹_›]
  · rename_i hl
    exact congrArg (· >>= _) (span_whole hd hl)

theorem handlePing_eq : FrameMemory.handlePing s header payload =
    pure (s.handlePing header payload) := by
  unfold FrameMemory.handlePing
  split
  · rw [H2Session.handlePing, if_pos ‹_›]
  · rename_i hl
    split
    · rw [H2Session.handlePing, if_neg hl, if_pos ‹_›]
    · exact congrArg (· >>= _) (span_whole hd (not_or.mp hl).2)

theorem handleGoaway_eq : FrameMemory.handleGoaway s header payload =
    pure (s.handleGoaway header) := by
  unfold FrameMemory.handleGoaway
  split
  · rw [H2Session.handleGoaway, if_pos ‹_›]
  · rename_i hl
    have h8 := UInt32.le_iff_toNat_le.mp (UInt32.not_lt.mp (not_or.mp hl).2)
    exact congrArg (· >>= _) (fetch_lt (by rw [hd]; exact Nat.lt_of_lt_of_le (by decide) h8))

end Handlers

/-- No handler reads outside its payload or subtracts below zero. -/
theorem handlers_stay_inside (s : H2Session) (header : FrameHeader) (payload : Octets)
    (order : List UInt32) (dispatch : HttpDispatchStatus)
    (announced : payload.length = header.length.toNat) :
    FrameMemory.handleSettings s header payload order =
        pure (s.handleSettings header payload order) ∧
      FrameMemory.handleHeaders s header payload dispatch =
        pure (s.handleHeaders header payload dispatch) ∧
      FrameMemory.handleData s header payload dispatch =
        pure (s.handleData header payload dispatch) ∧
      FrameMemory.handleWindowUpdate s header payload order =
        pure (s.handleWindowUpdate header payload order) ∧
      FrameMemory.handlePing s header payload = pure (s.handlePing header payload) ∧
      FrameMemory.handleGoaway s header payload = pure (s.handleGoaway header) ∧
      FrameMemory.handleRstStream s header payload = pure (s.handleRstStream header) :=
  ⟨handleSettings_eq announced, handleHeaders_eq announced, handleData_eq announced,
    handleWindowUpdate_eq announced, handlePing_eq announced, handleGoaway_eq announced,
    handleRstStream_eq announced⟩

/-- HEADERS with padding and a priority, one octet of which is a fragment. -/
theorem handlers_stay_inside_padded :
    let s := (created 1 {} (by decide)).acceptPreface
    FrameMemory.handleHeaders s ⟨8, .headers, 0x2c, 1⟩ [1, 0, 0, 0, 0, 16, 0x82, 0] .accepted =
      pure (s.handleHeaders ⟨8, .headers, 0x2c, 1⟩ [1, 0, 0, 0, 0, 16, 0x82, 0] .accepted) :=
  (handlers_stay_inside _ _ _ [] .accepted rfl).2.1

end IocpRuntime.Proofs.FrameSafety
