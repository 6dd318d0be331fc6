import IocpRuntime.Proofs.SessionRuns

namespace IocpRuntime.Proofs.WindowOverflow
open Lib Http Http2 Http2.H2Session SessionFrames SessionRuns OutboundStreams
open H2OutboundScheduler

def Registered (s : H2Session) : Prop :=
  ∀ id, s.lastStreamId < id → s.outbound.streams.lookup id = none

section Invariant
variable {dispatch : HttpDispatchStatus}

/-- A step that reaches the scheduler by one call that opens no later stream. -/
theorem Registered.perform (h : Registered s) (op : Operation)
    (hl : s.lastStreamId ≤ t.lastStreamId) (hout : t.outbound = (s.outbound.perform op).scheduler)
    (hop : ∀ id, t.lastStreamId < id → op ≠ .openStream id) : Registered t := by
  intro id hid
  rw [hout]
  exact (absent_stays (h id (UInt32.lt_of_le_of_lt hl hid)) (hop id hid)).2

theorem Registered.closes (h : Registered s) (id : UInt32) : Registered (s.closeStream id) :=
  h.perform (.closeStream id) (UInt32.le_refl _) rfl (by simp)

theorem Assembles.registered (h : Assembles s frame t stream) (hs : Registered s) : Registered t := by
  cases h with
  | fragment heads cut =>
    cases heads with
    | opens type odd newer fresh room =>
      refine hs.perform (.openStream frame.header.streamId) (UInt32.le_of_lt newer) rfl ?_
      rintro id hid heq
      cases heq
      exact UInt32.lt_irrefl _ hid
    | continues => exact hs

theorem Dispatches.registered
    (h : Dispatches s stream request dispatch t status) (hs : Registered s) : Registered t := by
  cases h with
  | accepted => exact hs
  | saturated => exact hs.closes _
  | stopped => exact hs.closes _

theorem Handled.registered (h : Handled s frame dispatch t status)
    (hst : status ≠ .protocolError) (hs : Registered s) : Registered t := by
  cases h with
  | failed => exact absurd rfl hst
  | served served other =>
    obtain ⟨answers, -, ⟨hout, -⟩ | ⟨op, hop, hout, -⟩⟩ := served.outbound
    · intro id hid
      rw [hout]
      exact hs id (served.last ▸ hid)
    · refine hs.perform op (UInt32.le_of_eq served.last.symm) hout ?_
      rintro id - rfl
      cases hop
  | reset => exact hs.closes _
  | partly assembles =>
    have ha := Assembles.registered assembles hs
    exact ha
  | garbled assembles => exact (Assembles.registered assembles hs).closes _
  | headed assembles =>
    have ha := Assembles.registered assembles hs
    exact ha
  | asked assembles _ _ _ _ _ dispatches =>
    have ha := Assembles.registered assembles hs
    exact Dispatches.registered dispatches ha
  | delivered delivered =>
    cases delivered with
    | overrun => exact hs.closes _
    | stored => exact hs
    | completed _ _ _ _ dispatches => exact Dispatches.registered dispatches hs

theorem Steps.registered (h : Steps s input t) (hs : Registered s) : Registered t := by
  cases h with
  | frame received =>
    cases received with
    | ignored => exact hs
    | handled _ _ handled well => exact Handled.registered handled well hs
    | failed => exact fun _ _ => rfl
  | overflow => exact fun _ _ => rfl
  | gone => exact hs
  | respond => exact hs.perform (.submitResponse _ _) (UInt32.le_refl _) rfl (by simp)
  | goaway => exact hs
  | silent => exact hs
  | close => exact fun _ _ => rfl

theorem reached_registered (connectionId : Nat) {config : H2ConnectionConfig}
    (h : Accepted config) (inputs : List Input) :
    Registered (Runs.final handle (created connectionId config h).acceptPreface inputs) := by
  refine (Runs.final_invariant (motive := fun s => Healthy s ∧ Registered s)
    ⟨created_healthy connectionId h, fun _ _ => rfl⟩ ?_ inputs).2
  intro s input ⟨hh, hs⟩
  exact ⟨handle_healthy hh input, Steps.registered (handle_steps hh input) hs⟩

end Invariant

def windowOf (s : H2Session) (streamId : UInt32) : Option Int :=
  if streamId = 0 then some s.outbound.connectionWindow
  else (s.outbound.streams.lookup streamId).map (·.window)

/-- A WINDOW_UPDATE frame that would raise the window it is for above 2^31 - 1. -/
structure Overflows (s : H2Session) (frame : Frame) (window : Int) : Prop where
  type : frame.header.type = .windowUpdate
  length : frame.header.length = 4
  found : windowOf s frame.header.streamId = some window
  within : window ≤ kMaximumWindow
  beyond : kMaximumWindow < window + (incrementOf frame.payload).toNat

/-- The connection fails, or the stream of the frame is reset and closed. -/
def Noticed (s : H2Session) (streamId : UInt32) (result : H2Session × ProtocolFeedStatus) :
    Prop :=
  result.2 = .protocolError ∨
    (∃ frame ∈ result.1.sent.drop s.sent.length,
      frame.header.type = .rstStream ∧ frame.header.streamId = streamId) ∧
    result.1.streams.lookup streamId = none ∧ result.1.outbound.streams.lookup streamId = none

/-- An overflow is noticed only on the connection window: the session takes the `false` of
`UpdateStreamWindow` for a stream that is gone. -/
theorem window_overflow_noticed_iff (connectionId : Nat) {config : H2ConnectionConfig}
    (h : Accepted config) (inputs : List Input) {frame : Frame} {window : Int}
    (ho : Overflows (Runs.final handle (created connectionId config h).acceptPreface inputs)
      frame window) (order : List UInt32) :
    let s := Runs.final handle (created connectionId config h).acceptPreface inputs
    Noticed s frame.header.streamId (s.handleWindowUpdate frame.header frame.payload order) ↔
      frame.header.streamId = 0 := by
  have hr := reached_registered connectionId h inputs
  intro s
  obtain ⟨hty, hl, hf, hw, hb⟩ := ho
  have hi : incrementOf frame.payload ≠ 0 := by
    intro hz
    rw [hz] at hb
    simp at hb
    omega
  have hs : s.handleWindowUpdate frame.header frame.payload order = _ :=
    (if_neg (not_not.mpr hl)).trans (if_neg hi)
  rw [hs]
  by_cases hz : frame.header.streamId = 0
  · rw [windowOf, if_pos hz] at hf
    cases hf
    have hout : s.outbound.updateConnectionWindow (incrementOf frame.payload) order =
        { scheduler := s.outbound, result := false } := if_pos (Or.inr (Or.inr hb))
    rw [if_pos hz]
    refine ⟨fun _ => hz, fun _ => Or.inl ?_⟩
    exact congrArg (fun outcome : H2OutboundScheduler.Outcome =>
      if outcome.result then ProtocolFeedStatus.ready else .protocolError) hout
  · rw [windowOf, if_neg hz] at hf
    obtain ⟨stream, hst, rfl⟩ := Option.map_eq_some_iff.mp hf
    -- the peer opened the stream, so its id is not beyond the last one
    have hle : ¬ s.lastStreamId < frame.header.streamId := by
      intro hlt
      cases hst.symm.trans (hr _ hlt)
    have hout : s.outbound.updateStreamWindow frame.header.streamId (incrementOf frame.payload) =
        { scheduler := s.outbound, result := false } := by
      rw [H2OutboundScheduler.updateStreamWindow, hst]
      exact if_pos (Or.inr (Or.inr hb))
    rw [incrementOf] at hout
    rw [if_neg hz, hout]
    simp [Noticed, H2Session.scheduled, hz, hle]

def largestUpdate (streamId : UInt32) : Frame :=
  ⟨{ length := 4, type := .windowUpdate, streamId := streamId }, [0x7f, 0xff, 0xff, 0xff]⟩

theorem window_overflow_noticed_connection :
    let s := Runs.final handle (created 1 {} (by decide)).acceptPreface [arrives settingsFrame]
    Overflows s (largestUpdate 0) 65535 ∧
      Noticed s 0 (s.handleWindowUpdate (largestUpdate 0).header (largestUpdate 0).payload []) := by
  have ho : Overflows (Runs.final handle (created 1 {} (by decide)).acceptPreface
      [arrives settingsFrame]) (largestUpdate 0) 65535 :=
    ⟨rfl, rfl, by decide +kernel, by decide, by decide⟩
  exact ⟨ho, (window_overflow_noticed_iff 1 (by decide) [arrives settingsFrame] ho []).mpr rfl⟩

/-- A stream's window overflows: no frame is sent, and stream and connection go on. -/
theorem stream_overflow_unnoticed :
    let s := Runs.final handle (created 1 {} (by decide)).acceptPreface
      [arrives settingsFrame, arrives (requestFrame 1 true)]
    let t := s.handle (arrives (largestUpdate 1))
    windowOf s 1 = some 65535 ∧ (incrementOf (largestUpdate 1).payload).toNat = 2 ^ 31 - 1 ∧
      t.state = .connected ∧ t.sent = s.sent ∧ windowOf t 1 = some 65535 := by
  decide +kernel

end IocpRuntime.Proofs.WindowOverflow
