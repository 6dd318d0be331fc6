import IocpRuntime.Lib.Runs
import IocpRuntime.Proofs.SessionFrames

namespace IocpRuntime.Proofs.SessionRuns
open Lib Http Http2 Http2.H2Session OutboundStreams SessionFrames
open H2OutboundScheduler

/-- What becomes of a frame: a session that is not connected ignores it, a
connected one handles it or fails. -/
inductive Received (s : H2Session) (frame : Frame) (dispatch : HttpDispatchStatus) :
    H2Session → ProtocolFeedStatus → Prop
  | ignored (unconnected : s.state ≠ .connected) : Received s frame dispatch s .ready
  | handled {t : H2Session} {status : ProtocolFeedStatus} (connected : s.state = .connected)
      (admitted : Admitted s frame.header) (handled : Handled s frame dispatch t status)
      (well : status ≠ .protocolError) : Received s frame dispatch t status
  | failed {t : H2Session} (connected : s.state = .connected)
      (dispatched : t.dispatched = s.dispatched) :
      Received s frame dispatch (t.failConnection .protocolError) .closeRequired

/-- The increment in a WINDOW_UPDATE payload. -/
def incrementOf (payload : Octets) : UInt32 :=
  bigEndian (payload.getD 0 0 &&& 0x7f) (payload.getD 1 0) (payload.getD 2 0) (payload.getD 3 0)

def Healthy (s : H2Session) : Prop := s.state ≠ .closed → Sound s

theorem Healthy.sound (h : Healthy s) (hs : s.state = .connected) : Sound s :=
  h (by rw [hs]; decide)

theorem Handled.dispatched_eq
    (h : Handled s frame dispatch t .protocolError) : t.dispatched = s.dispatched := by
  generalize hs : ProtocolFeedStatus.protocolError = status at h
  cases h with
  | failed dispatched => exact dispatched
  | asked _ _ _ _ _ _ dispatches => cases dispatches <;> cases hs
  | delivered delivered =>
    cases delivered with
    | completed _ _ _ _ dispatches => cases dispatches <;> cases hs
    | _ => cases hs
  | _ => cases hs

theorem receive_received (hs : Healthy s) (frame : Frame) (order : List UInt32)
    (dispatch : HttpDispatchStatus) :
    Received s frame dispatch (s.receive frame order dispatch).1
      (s.receive frame order dispatch).2 := by
  unfold H2Session.receive
  by_cases hst : s.state = .connected
  · rw [if_neg (not_not.mpr hst)]
    have hh : Handles s frame dispatch (s.consumeFrame frame order dispatch) :=
      consumeFrame_handles (hs.sound hst)
    have ha : (s.consumeFrame frame order dispatch).2 ≠ .protocolError →
        Admitted s frame.header := consumeFrame_admitted
    generalize s.consumeFrame frame order dispatch = outcome at hh ha
    obtain ⟨t, status⟩ := outcome
    by_cases hsta : status = .protocolError
    · subst hsta
      exact .failed hst (Handled.dispatched_eq hh)
    · have hr : Received s frame dispatch t status :=
        .handled hst (ha hsta) hh hsta
      split
      · rename_i heq
        cases heq
        exact absurd rfl hsta
      · exact hr
  · rw [if_pos hst]
    exact .ignored hst

inductive Steps (s : H2Session) : Input → H2Session → Prop
  | frame {frame : Frame} {order : List UInt32} {dispatch : HttpDispatchStatus} {t : H2Session}
      {status : ProtocolFeedStatus} (received : Received s frame dispatch t status) :
      Steps s (.frame frame order dispatch) t
  | overflow (open' : s.state ≠ .closed) : Steps s .overflow (s.failConnection .enhanceYourCalm)
  | gone (closed : s.state = .closed) : Steps s .overflow s
  | respond {streamId : UInt32} {response : HttpResponse} : Steps s (.respond streamId response)
      (s.scheduled (s.outbound.perform (.submitResponse streamId response)))
  | goaway {errorCode : ErrorCode} (connected : s.state = .connected) :
      Steps s (.sendGoaway errorCode)
        ({ s with state := .closing }.send [encodeGoaway s.lastStreamId errorCode []])
  | silent {errorCode : ErrorCode} (unconnected : s.state ≠ .connected) :
      Steps s (.sendGoaway errorCode) s
  | close : Steps s .close { s with state := .closed, streams := ∅, outbound := s.outbound.close }

theorem handle_steps (hs : Healthy s) (input : Input) : Steps s input (s.handle input) := by
  cases input with
  | frame frame order dispatch => exact .frame (receive_received hs frame order dispatch)
  | overflow =>
    simp only [H2Session.handle]
    split
    · rename_i hcl
      exact .gone hcl
    · rename_i ho
      exact .overflow ho
  | respond streamId response => exact .respond
  | sendGoaway errorCode =>
    simp only [H2Session.handle]
    split
    · rename_i hnot
      exact .silent hnot
    · rename_i hc
      exact .goaway (not_not.mp hc)
  | close => exact .close

theorem Steps.healthy (hs : Healthy s) (h : Steps s input t) : Healthy t := by
  cases h with
  | frame received =>
    cases received with
    | ignored => exact hs
    | handled connected admitted handled well =>
      exact fun _ => handled.sound (hs.sound connected) admitted.expected well
    | failed => exact fun ho => absurd rfl ho
  | overflow => exact fun ho => absurd rfl ho
  | gone => exact hs
  | respond => exact fun ho => (hs ho).same rfl rfl rfl
  | goaway connected => exact fun _ => (hs.sound connected).same rfl rfl rfl
  | silent => exact hs
  | close => exact fun ho => absurd rfl ho

theorem handle_healthy (hs : Healthy s) (input : Input) : Healthy (s.handle input) :=
  (handle_steps hs input).healthy hs

theorem healthy_of_empty (hs : s.streams = ∅) (hn : s.continuationStreamId = none) : Healthy s := by
  intro _
  apply Sound.settled hn
  intro id stream hl
  rw [hs, AList.lookup_empty] at hl
  cases hl

/-- Where an entry comes from if no data has arrived: it keeps window and body, or
a HEADERS frame has just opened it. -/
inductive Descends (s : H2Session) (header : FrameHeader) (id : UInt32) (stream : H2Stream) : Prop
  | kept {before : H2Stream} (found : s.streams.lookup id = some before)
      (window : stream.recvWindow = before.recvWindow) (body : stream.body = before.body)
  | opened (type : header.type = .headers) (key : id = header.streamId)
      (newer : s.lastStreamId < id) (window : stream.recvWindow = s.config.initialWindowSize)
      (body : stream.body = [])

theorem Descends.same {id : UInt32}
    (h : Descends s header id a) (hwi : b.recvWindow = a.recvWindow) (hb : b.body = a.body) :
    Descends s header id b := by
  cases h with
  | kept found window body => exact .kept found (hwi.trans window) (hb.trans body)
  | opened type key newer window body =>
    exact .opened type key newer (hwi.trans window) (hb.trans body)

structure Dataless (s : H2Session) (frame : Frame) (t : H2Session) : Prop where
  config : ∃ size, t.config = { s.config with maximumHeaderListSize := size }
  state : t.state = s.state ∨ t.state = .closing
  window : t.connectionRecvWindow = s.connectionRecvWindow
  last : s.lastStreamId ≤ t.lastStreamId
  sent : ∃ new, t.sent = s.sent ++ new ∧ ∀ frame ∈ new, frame.header.type ≠ .windowUpdate
  entries : ∀ id stream, t.streams.lookup id = some stream → Descends s frame.header id stream

section Dataless
variable {s t : H2Session}

theorem Dataless.fewer (h : Dataless s frame t) (hc : u.config = t.config)
    (hs : u.state = t.state) (hwi : u.connectionRecvWindow = t.connectionRecvWindow)
    (hla : u.lastStreamId = t.lastStreamId)
    (hse : ∃ new, u.sent = t.sent ++ new ∧ ∀ frame ∈ new, frame.header.type ≠ .windowUpdate)
    (he : ∀ id stream, u.streams.lookup id = some stream →
      t.streams.lookup id = some stream) : Dataless s frame u where
  config := hc ▸ h.config
  state := hs ▸ h.state
  window := hwi.trans h.window
  last := hla ▸ h.last
  sent := by
    obtain ⟨new, hnew, hq⟩ := h.sent
    obtain ⟨more, hm, hq'⟩ := hse
    refine ⟨new ++ more, by rw [hm, hnew, List.append_assoc], ?_⟩
    intro frame hf
    exact (List.mem_append.mp hf).elim (hq frame) (hq' frame)
  entries := fun id stream hl => h.entries id stream (he id stream hl)

theorem Dataless.refl : Dataless s frame s where
  config := ⟨_, rfl⟩
  state := Or.inl rfl
  window := rfl
  last := UInt32.le_refl _
  sent := ⟨[], by simp, by simp⟩
  entries := fun _ _ hl => .kept hl rfl rfl

theorem nothing_sent :
    ∃ new, s.sent = s.sent ++ new ∧ ∀ frame ∈ new, frame.header.type ≠ .windowUpdate :=
  ⟨[], by simp, by simp⟩

theorem Dataless.set (h : Dataless s frame t) (hold : t.streams.lookup stream.streamId = some old)
    (hwi : stream.recvWindow = old.recvWindow) (hb : stream.body = old.body) :
    Dataless s frame (t.setStream stream) := by
  refine ⟨h.config, h.state, h.window, h.last, h.sent, ?_⟩
  intro id other hl
  rcases Maps.of_lookup_insert hl with ⟨rfl, rfl⟩ | ⟨-, ho⟩
  · exact (h.entries _ _ hold).same hwi hb
  · exact h.entries id other ho

theorem Heads.dataless (h : Heads s frame.header t stream) : Dataless s frame t := by
  cases h with
  | opens type odd newer fresh room =>
    refine ⟨⟨_, rfl⟩, Or.inl rfl, rfl, UInt32.le_of_lt newer, nothing_sent, ?_⟩
    intro id stream hl
    rcases Maps.of_lookup_insert hl with ⟨rfl, rfl⟩ | ⟨-, hold⟩
    · exact .opened type rfl newer rfl rfl
    · exact .kept hold rfl rfl
  | continues type found expected => exact .refl

theorem Assembles.dataless (h : Assembles s frame t stream) (hs : Sound s) :
    Dataless s frame t := by
  cases h with
  | @fragment t old fragment heads cut =>
    have hf := heads.found hs
    have hh : t.streams.lookup (old.appendHeaderFragment frame.header fragment).streamId =
        some old := (congrArg t.streams.lookup hf.key).trans hf.here
    exact (Heads.dataless heads).set hh rfl rfl

/-- The request of a complete header block is put on its stream. -/
theorem Assembles.request_stored (h : Assembles s frame t stream) (hs : Sound s) :
    Dataless s frame ({ t with continuationStreamId := none, hpackDecoder := decoder }.setStream
      (requestStored stream request)) := by
  have hf := h.found hs
  have ht : Dataless s frame { t with continuationStreamId := none, hpackDecoder := decoder } :=
    (Assembles.dataless h hs).fewer rfl rfl rfl rfl nothing_sent (fun _ _ hl => hl)
  have hh : t.streams.lookup (requestStored stream request).streamId = some stream :=
    (congrArg t.streams.lookup hf.key).trans hf.here
  exact ht.set hh rfl rfl

theorem Dispatches.dataless (h : Dispatches t stream request dispatch u status)
    (ht : Dataless s frame t) : Dataless s frame u := by
  have he : ∀ id other, (t.streams.erase stream.streamId).lookup id = some other →
      t.streams.lookup id = some other := fun id other hl => (Maps.of_lookup_erase hl).2
  cases h <;> exact ht.fewer rfl rfl rfl rfl nothing_sent he

theorem Served.dataless (h : Served s frame.header t) : Dataless s frame t := by
  refine ⟨h.config, h.state, h.window, UInt32.le_of_eq h.last.symm, ?_, ?_⟩
  · obtain ⟨answers, han, hout⟩ := h.outbound
    have hq : ∀ frame ∈ answers, frame.header.type ≠ .windowUpdate := by
      intro answer ha
      rcases han answer ha with ht | ht <;> rw [ht] <;> decide
    rcases hout with ⟨-, hs⟩ | ⟨op, -, -, hs⟩
    · exact ⟨answers, hs, hq⟩
    · refine ⟨_, by rw [hs, List.append_assoc], ?_⟩
      intro answer ha
      rcases List.mem_append.mp ha with ha | ha
      · exact (perform_frames _ _ _ ha).not_windowUpdate
      · exact hq answer ha
  · intro id stream hl
    rw [h.streams] at hl
    exact .kept hl rfl rfl

theorem Handled.dataless (hs : Sound s)
    (h : Handled s frame dispatch t status) (hst : status ≠ .protocolError)
    (ht : frame.header.type ≠ .data) : Dataless s frame t := by
  cases h with
  | failed => exact absurd rfl hst
  | served served => exact Served.dataless served
  | reset =>
    exact Dataless.refl.fewer rfl rfl rfl rfl nothing_sent
      (fun id other hl => (Maps.of_lookup_erase hl).2)
  | @partly t stream assembles more =>
    exact (Assembles.dataless assembles hs).fewer rfl rfl rfl rfl nothing_sent
      (fun id other hl => hl)
  | @garbled t stream decoder thrown assembles last decode =>
    refine (Assembles.dataless assembles hs).fewer rfl rfl rfl rfl ⟨_, rfl, ?_⟩
      (fun id other hl => (Maps.of_lookup_erase hl).2)
    intro reset hr
    rw [List.mem_singleton.mp hr]
    exact (by decide : FrameType.rstStream ≠ .windowUpdate)
  | @headed t stream decoder decoded a assembles last decode assembled complete unended =>
    exact Assembles.request_stored assembles hs
  | @asked t u stream decoder decoded a status assembles last decode assembled complete ended
      dispatches =>
    exact Dispatches.dataless dispatches (Assembles.request_stored assembles hs)
  | delivered delivered => exact absurd delivered.type ht

end Dataless

/-- A DATA frame that passes every check of `HandleData` but the body limit. -/
def exceedsBodyLimit (s : H2Session) (frame : Frame) : Bool :=
  let header := frame.header
  s.state == .connected && header.length ≤ s.config.maximumFrameSize &&
    s.receivedInitialSettings && s.continuationStreamId.isNone &&
    header.type == .data && header.streamId != 0 &&
    (s.streams.lookup header.streamId).any (fun stream =>
      stream.headersComplete && !stream.endStream && stream.state != .closed &&
      header.length ≤ stream.recvWindow && header.length ≤ s.connectionRecvWindow &&
      (dataRange header frame.payload).any (fun range =>
        range.2 > s.config.maximumRequestBodySize ||
          stream.body.length > s.config.maximumRequestBodySize - range.2))

theorem exceedsBodyLimit_of_overrun (hs : Sound s) (hst : s.state = .connected)
    (ha : Admitted s frame.header) (hd : Delivers s frame stream offset size) :
    exceedsBodyLimit s frame = true ↔ overLimit s stream size := by
  have he := hs.entry _ _ hd.found
  have hn := ha.expected.none (by rw [hd.type]; decide)
  have hse := ha.settled (by rw [hd.type]; decide)
  simp [exceedsBodyLimit, hst, ha.size, hse, hn, hd.type, hd.nonzero,
    hd.found, hd.complete, he.unended hd.complete, he.opened,
    hd.stream_window, hd.connection_window, hd.range, overLimit]

theorem exceedsBodyLimit_type (h : frame.header.type ≠ .data) :
    exceedsBodyLimit s frame = false := by
  simp [exceedsBodyLimit, h]

/-- Such a frame costs the stream, and nothing else. -/
theorem receive_exceeding (h : exceedsBodyLimit s frame = true) : s.receive frame order dispatch =
      (s.closeStream frame.header.streamId, .bufferLimitExceeded) := by
  simp only [exceedsBodyLimit, Bool.and_eq_true, Bool.not_eq_true', beq_iff_eq, bne_iff_ne,
    decide_eq_true_eq, Option.isNone_iff_eq_none, Option.any_eq_true] at h
  obtain ⟨⟨⟨⟨⟨⟨hsta, hsi⟩, hs⟩, hn⟩, ht⟩, hz⟩, stream, hf, hst⟩ := h
  obtain ⟨⟨⟨⟨⟨hco, he⟩, ho⟩, hwi⟩, hc⟩, ⟨offset, size⟩, hr, hov⟩ :=
    hst
  have hd : s.handleData frame.header frame.payload dispatch =
      (s.closeStream frame.header.streamId, .bufferLimitExceeded) := by
    unfold H2Session.handleData
    simp only [hz, if_false, hf, hco, hr]
    rw [if_neg (by simpa using ⟨he, ho⟩), if_neg (by simpa using ⟨hwi, hc⟩),
      if_pos (by simpa using hov)]
  have hcn : s.consumeFrame frame order dispatch =
      (s.closeStream frame.header.streamId, .bufferLimitExceeded) := by
    rw [← hd]
    simp [H2Session.consumeFrame, UInt32.not_lt.mpr hsi, hs, hn, ht, FrameType.data,
      FrameType.settings, FrameType.headers, FrameType.continuation]
  simp [H2Session.receive, hsta, hcn]

theorem Assembles.not_data (h : Assembles s frame t stream) : frame.header.type ≠ .data := by
  rcases h.type with ht | ht <;> rw [ht] <;> decide

theorem Handled.data_delivered (h : Handled s frame dispatch t status)
    (hs : status ≠ .protocolError) (ht : frame.header.type = .data) :
    Delivered s frame dispatch t status := by
  cases h with
  | failed => exact absurd rfl hs
  | served _ other => exact absurd ht other.2.2.1
  | reset type => exact absurd (type.symm.trans ht) (by decide)
  | partly assembles => exact absurd ht (Assembles.not_data assembles)
  | garbled assembles => exact absurd ht (Assembles.not_data assembles)
  | headed assembles => exact absurd ht (Assembles.not_data assembles)
  | asked assembles => exact absurd ht (Assembles.not_data assembles)
  | delivered delivered => exact delivered

def Bounded (s : H2Session) : Prop :=
  ∀ id stream, s.streams.lookup id = some stream →
    stream.body.length ≤ s.config.maximumRequestBodySize

theorem Bounded.fewer (h : Bounded s)
    (hc : t.config.maximumRequestBodySize = s.config.maximumRequestBodySize)
    (he : ∀ id stream, t.streams.lookup id = some stream →
      s.streams.lookup id = some stream) : Bounded t := by
  intro id stream hl
  rw [hc]
  exact h id stream (he id stream hl)

theorem Dataless.bounded (h : Dataless s frame t) (hs : Bounded s) : Bounded t := by
  obtain ⟨size, hsi⟩ := h.config
  intro id stream hl
  rw [hsi]
  cases h.entries id stream hl with
  | kept found window body =>
    rw [body]
    exact hs id _ found
  | opened type key newer window body =>
    rw [body]
    exact Nat.zero_le _

theorem dataReceived_bounded (hs : Bounded s) (hf : ¬ overLimit s stream size) :
    Bounded (dataReceived s stream header (slice payload offset (offset + size))) := by
  obtain ⟨hsm, hr⟩ := not_or.mp hf
  intro id other hl
  rcases Maps.of_lookup_insert hl with ⟨rfl, rfl⟩ | ⟨-, hold⟩
  · have hle : (slice payload offset (offset + size)).length ≤ size := by
      simp [slice]
    simp only [dataStored, dataReceived, List.length_append]
    omega
  · exact hs id other hold

theorem Handled.bounded (hs : Sound s) (hb : Bounded s)
    (h : Handled s frame dispatch t status) (hst : status ≠ .protocolError) : Bounded t := by
  by_cases ht : frame.header.type = .data
  · have he : ∀ {t : H2Session} {key : UInt32} id other,
        (t.streams.erase key).lookup id = some other → t.streams.lookup id = some other :=
      fun _ _ hl => (Maps.of_lookup_erase hl).2
    cases Handled.data_delivered h hst ht with
    | overrun => exact hb.fewer rfl he
    | stored _ fits => exact dataReceived_bounded hb fits
    | completed _ fits _ _ dispatches =>
      cases dispatches <;> exact (dataReceived_bounded hb fits).fewer rfl he
  · exact Dataless.bounded (Handled.dataless hs h hst ht) hb

def received (inputs : List Input) : List Frame :=
  inputs.filterMap fun
    | .frame frame _ _ => some frame
    | _ => none

@[simp] theorem received_nil : received [] = [] := rfl

@[simp] theorem received_append : received (a ++ b) = received a ++ received b := by
  simp [received]

def Accepted (config : H2ConnectionConfig) : Prop :=
  settingsInRange config.initialWindowSize config.maximumFrameSize ∧
    ¬ (config.initialReceiveBufferSize = 0 ∨
      config.initialReceiveBufferSize > config.maximumReceiveBufferSize ∨
      config.maximumRequestBodySize = 0)

instance (config : H2ConnectionConfig) : Decidable (Accepted config) :=
  inferInstanceAs (Decidable (_ ∧ _))

def created (connectionId : Nat) (config : H2ConnectionConfig) (h : Accepted config) :
    H2Session where
  connectionId := connectionId
  config := config
  outbound := {
    initialWindowSize := config.initialWindowSize.toNat
    maximumFrameSize := config.maximumFrameSize.toNat
    maximumEncoderTableSize := config.hpackOptions.maximumDynamicTableSize
    encoder := HpackCodec.create config.hpackOptions
    windowChecked := h.1.1
    frameSizeChecked := h.1.2
    encoderChecked := Nat.le_refl _ }
  hpackDecoder := HpackCodec.create config.hpackOptions
  connectionRecvWindow := config.initialWindowSize

theorem create_eq (connectionId : Nat) {config : H2ConnectionConfig} (h : Accepted config) :
    H2Session.create connectionId config = .ok (created connectionId config h) := by
  simp only [H2Session.create, H2OutboundScheduler.create, h.1, dite_true]
  dsimp only [bind, Except.bind]
  rw [if_neg h.2]
  rfl

theorem of_create {connectionId : Nat} {config : H2ConnectionConfig}
    (h : H2Session.create connectionId config = .ok s) :
    ∃ accepted : Accepted config, s = created connectionId config accepted := by
  by_cases ha : Accepted config
  · rw [create_eq connectionId ha] at h
    exact ⟨ha, (Except.ok.inj h).symm⟩
  · simp only [H2Session.create, H2OutboundScheduler.create] at h
    split at h
    · rename_i hr
      dsimp only [bind, Except.bind] at h
      rw [if_pos (by_contra fun hb => ha ⟨hr, hb⟩)] at h
      cases h
    · cases h

/-- A session at the start of its runs. -/
theorem created_healthy (connectionId : Nat) {config : H2ConnectionConfig} (h : Accepted config) :
    Healthy (created connectionId config h).acceptPreface := healthy_of_empty rfl rfl

theorem Steps.bounded (hh : Healthy s)
    (hb : s.state ≠ .closed → Bounded s) (h : Steps s input t) : t.state ≠ .closed → Bounded t := by
  intro ho
  cases h with
  | frame received =>
    cases received with
    | ignored => exact hb ho
    | handled connected admitted handled well =>
      have hl : s.state ≠ .closed := by
        rw [connected]
        decide
      exact Handled.bounded (hh hl) (hb hl) handled well
    | failed => exact absurd rfl ho
  | overflow => exact absurd rfl ho
  | gone => exact hb ho
  | respond => exact hb ho
  | goaway connected =>
    have hl : s.state ≠ .closed := by
      rw [connected]
      decide
    exact hb hl
  | silent => exact hb ho
  | close => exact absurd rfl ho

/-- Every session that a run reaches is healthy, and its bodies are bounded. -/
theorem reached (connectionId : Nat) {config : H2ConnectionConfig} (h : Accepted config)
    (inputs : List Input) :
    Healthy (Runs.final handle (created connectionId config h).acceptPreface inputs) ∧
      ((Runs.final handle (created connectionId config h).acceptPreface inputs).state ≠ .closed →
        Bounded (Runs.final handle (created connectionId config h).acceptPreface inputs)) := by
  have hs : Healthy (created connectionId config h).acceptPreface ∧
      ((created connectionId config h).acceptPreface.state ≠ .closed →
        Bounded (created connectionId config h).acceptPreface) := by
    refine ⟨created_healthy connectionId h, ?_⟩
    intro _ id stream hl
    cases hl
  refine Runs.final_invariant (motive := fun s => Healthy s ∧ (s.state ≠ .closed → Bounded s))
    hs ?_ inputs
  intro s input ⟨hh, hb⟩
  exact ⟨handle_healthy hh input, (handle_steps hh input).bounded hh hb⟩

def settingsFrame : Frame := ⟨{ type := .settings }, []⟩

def requestFrame (streamId : UInt32) (ended : Bool) : Frame :=
  let flags := if ended then FrameFlags.endHeaders.octet ||| FrameFlags.endStream.octet
    else FrameFlags.endHeaders.octet
  ⟨{ length := 2, type := .headers, flags := flags, streamId := streamId }, [0x83, 0x84]⟩

def dataFrame (streamId : UInt32) (ended : Bool) (payload : Octets) : Frame :=
  let flags := if ended then FrameFlags.endStream.octet else 0
  ⟨{ length := UInt32.ofNat payload.length, type := .data, flags := flags, streamId := streamId },
    payload⟩

def arrives (frame : Frame) : Input := .frame frame [] .accepted

theorem Handled.state_eq (hs : Sound s) (h : Handled s frame dispatch t status)
    (hst : status ≠ .protocolError) : t.state = s.state ∨ t.state = .closing := by
  by_cases ht : frame.header.type = .data
  · cases Handled.data_delivered h hst ht with
    | overrun => exact Or.inl rfl
    | stored => exact Or.inl rfl
    | completed _ _ _ _ dispatches =>
      exact Or.inl dispatches.fields.2.2.2
  · exact (Handled.dataless hs h hst ht).state

/-- A peer reconfigures the limit for its header lists at most. -/
theorem Handled.config (hs : Sound s) (h : Handled s frame dispatch t status)
    (hst : status ≠ .protocolError) :
    ∃ size, t.config = { s.config with maximumHeaderListSize := size } := by
  by_cases ht : frame.header.type = .data
  · cases Handled.data_delivered h hst ht with
    | overrun => exact ⟨_, rfl⟩
    | stored => exact ⟨_, rfl⟩
    | completed _ _ _ _ dispatches => cases dispatches <;> exact ⟨_, rfl⟩
  · exact (Handled.dataless hs h hst ht).config

/-- A HEADERS frame opens a stream with an odd number beyond all earlier ones, as long as
the session has room for it. -/
structure Opens (s : H2Session) (header : FrameHeader) (t : H2Session) : Prop where
  odd : header.streamId % 2 = 1
  newer : s.lastStreamId < header.streamId
  last : t.lastStreamId = header.streamId
  room : s.streams.entries.length < s.config.maximumConcurrentStreams

theorem Assembles.opens (h : Assembles s frame t stream) (ht : frame.header.type = .headers)
    (hl : u.lastStreamId = t.lastStreamId) : Opens s frame.header u := by
  cases h with
  | fragment heads cut =>
    cases heads with
    | opens type odd newer fresh room => exact ⟨odd, newer, hl, room⟩
    | continues type => exact absurd (type.symm.trans ht) (by decide)

theorem Handled.opens (h : Handled s frame dispatch t status)
    (hs : status ≠ .protocolError) (ht : frame.header.type = .headers) :
    Opens s frame.header t := by
  cases h with
  | failed => exact absurd rfl hs
  | served _ other => exact absurd ht other.1
  | reset type => exact absurd (type.symm.trans ht) (by decide)
  | partly assembles => exact Assembles.opens assembles ht rfl
  | garbled assembles => exact Assembles.opens assembles ht rfl
  | headed assembles => exact Assembles.opens assembles ht rfl
  | asked assembles _ _ _ _ _ dispatches =>
    exact Assembles.opens assembles ht dispatches.fields.2.1
  | delivered delivered => exact absurd (delivered.type.symm.trans ht) (by decide)

theorem Handled.last_le (hs : Sound s) (h : Handled s frame dispatch t status)
    (hst : status ≠ .protocolError) : s.lastStreamId ≤ t.lastStreamId := by
  by_cases ht : frame.header.type = .data
  · cases Handled.data_delivered h hst ht with
    | overrun => exact UInt32.le_refl _
    | stored => exact UInt32.le_refl _
    | completed _ _ _ _ dispatches => exact UInt32.le_of_eq dispatches.fields.2.1.symm
  · exact (Handled.dataless hs h hst ht).last

/-- Numbers of streams only grow in a session that is not closed. -/
theorem Steps.last_le (hh : Healthy s) (h : Steps s input t)
    (ho : t.state ≠ .closed) : s.state ≠ .closed ∧ s.lastStreamId ≤ t.lastStreamId := by
  cases h with
  | frame received =>
    cases received with
    | ignored => exact ⟨ho, UInt32.le_refl _⟩
    | handled connected admitted handled well =>
      refine ⟨?_, Handled.last_le (hh.sound connected) handled well⟩
      rw [connected]
      decide
    | failed => exact absurd rfl ho
  | overflow => exact absurd rfl ho
  | gone => exact ⟨ho, UInt32.le_refl _⟩
  | respond => exact ⟨ho, UInt32.le_refl _⟩
  | goaway connected =>
    refine ⟨?_, UInt32.le_refl _⟩
    rw [connected]
    decide
  | silent => exact ⟨ho, UInt32.le_refl _⟩
  | close => exact absurd rfl ho

theorem Handled.status_ne (h : Handled s frame dispatch t status) : status ≠ .closeRequired := by
  cases h with
  | asked _ _ _ _ _ _ dispatches => cases dispatches <;> simp
  | delivered delivered =>
    cases delivered with
    | completed _ _ _ _ dispatches => cases dispatches <;> simp
    | _ => simp
  | _ => simp

/-- A frame closes the session exactly if the server is told to close the connection
for it. -/
theorem Received.closed_iff (hs : Healthy s) (hc : s.state = .connected)
    (h : Received s frame dispatch t status) : status = .closeRequired ↔ t.state = .closed := by
  cases h with
  | ignored unconnected => exact absurd hc unconnected
  | handled connected admitted handled well =>
    have hst : t.state ≠ .closed := by
      rcases Handled.state_eq (hs.sound connected) handled well with hst | hst
      · rw [hst, connected]
        decide
      · rw [hst]
        decide
    exact ⟨fun h => absurd h (Handled.status_ne handled), fun h => absurd h hst⟩
  | failed => exact ⟨fun _ => rfl, fun _ => rfl⟩

end IocpRuntime.Proofs.SessionRuns
