import IocpRuntime.Proofs.FrameRoundTrip
import IocpRuntime.Proofs.SessionRuns

namespace IocpRuntime.Proofs.ReceiveCredit
open Lib Http2 Http2.H2Session OutboundStreams SessionFrames SessionRuns FrameRoundTrip

variable {id initial : UInt32}
  {config : H2ConnectionConfig}

def granted (id : UInt32) (frame : Frame) : Nat :=
  if frame.header.type = .windowUpdate ∧ frame.header.streamId = id then
    (incrementOf frame.payload).toNat
  else 0

def charged (frame : Frame) : Nat :=
  if frame.header.type = .data then frame.header.length.toNat else 0

def chargedOn (id : UInt32) (frame : Frame) : Nat :=
  if frame.header.streamId = id then charged frame else 0

def total (weight : Frame → Nat) (frames : List Frame) : Nat := (frames.map weight).sum

@[simp] theorem total_nil : total weight [] = 0 := rfl

@[simp] theorem total_append : total weight (a ++ b) = total weight a + total weight b := by
  simp [total]

@[simp] theorem total_singleton : total weight [frame] = weight frame := by
  simp [total]

theorem total_zero
    (h : ∀ frame ∈ frames, weight frame = 0) : total weight frames = 0 := by
  induction frames with
  | nil => rfl
  | cons frame frames ih =>
    simp only [total, List.map_cons, List.sum_cons, h frame List.mem_cons_self]
    rw [Nat.zero_add]
    exact ih (fun other ho => h other (List.mem_cons_of_mem _ ho))

def connectionCredit (received sent : List Frame) : Int :=
  65535 + total (granted 0) sent - total charged received

def streamCredit (initial id : UInt32) (received sent : List Frame) : Int :=
  initial.toNat + total (granted id) sent - total (chargedOn id) received

theorem granted_other (h : frame.header.type ≠ .windowUpdate) : granted id frame = 0 := by
  simp [granted, h]

theorem charged_other (h : frame.header.type ≠ .data) : charged frame = 0 := by
  simp [charged, h]

theorem chargedOn_other (h : frame.header.type ≠ .data) : chargedOn id frame = 0 := by
  simp [chargedOn, charged_other h]

theorem increment_round_trip (h : increment.toNat < 2 ^ 31) :
    incrementOf (encodeWindowUpdate increment) = increment := by
  have hm : increment &&& 0x7fffffff = increment := by
    apply UInt32.toNat_inj.mp
    rw [mask_toNat]
    omega
  have hh : ((increment >>> 24) &&& 0xff).toUInt8 &&& (0x7f : UInt8) =
      ((increment >>> 24) &&& 0xff).toUInt8 := by
    have h24 : ((increment >>> 24) &&& 0xff).toUInt8.toNat = increment.toNat / 2 ^ 24 % 256 :=
      octet_toNat increment 24 (by decide)
    apply UInt8.toNat_inj.mp
    rw [UInt8.toNat_and, h24]
    exact (Nat.and_two_pow_sub_one_eq_mod _ 7).trans (Nat.mod_eq_of_lt (by omega))
  simp only [incrementOf, encodeWindowUpdate, hm, wordOctets, List.getD_cons_zero,
    List.getD_cons_succ, hh, bigEndian_written]

theorem topUp_other (h : other ≠ id) : total (granted id) (topUp initial other window) = 0 := by
  unfold topUp
  split
  · simp [granted, h]
  · rfl

theorem topUp_granted (id : UInt32) (h : initial.toNat < 2 ^ 31) :
    (refilled initial window).toNat = window.toNat + total (granted id) (topUp initial id window) := by
  unfold refilled topUp
  split
  · rename_i hlow
    have hle : window ≤ initial := by
      have hnat := UInt32.lt_iff_toNat_lt.mp hlow
      rw [UInt32.toNat_div] at hnat
      apply UInt32.le_iff_toNat_le.mpr
      simp at hnat
      omega
    have hsub := UInt32.toNat_sub_of_le _ _ hle
    have hnat := UInt32.le_iff_toNat_le.mp hle
    simp only [total_singleton, granted, and_self, if_true]
    rw [increment_round_trip (by omega), hsub]
    omega
  · simp

theorem half_refilled : initial.toNat / 2 ≤ (refilled initial window).toNat := by
  unfold refilled
  split
  · omega
  · rename_i hnot
    have hle := UInt32.le_iff_toNat_le.mp (UInt32.not_lt.mp hnot)
    rw [UInt32.toNat_div] at hle
    exact hle

/-- Octets of a frame that reach neither a body nor the connection window. -/
def uncharged (s : H2Session) (frame : Frame) : Nat :=
  if exceedsBodyLimit s frame then charged frame else 0

structure Filled (s : H2Session) : Prop where
  connection : s.config.initialWindowSize.toNat / 2 ≤ s.connectionRecvWindow.toNat
  stream : ∀ id stream, s.streams.lookup id = some stream →
    s.config.initialWindowSize.toNat / 2 ≤ stream.recvWindow.toNat

structure Accounted (s : H2Session) (frame : Frame) (t : H2Session) (new : List Frame) : Prop where
  config : ∃ size, t.config = { s.config with maximumHeaderListSize := size }
  sent : t.sent = s.sent ++ new
  last : s.lastStreamId ≤ t.lastStreamId
  connection : t.connectionRecvWindow.toNat + charged frame =
    s.connectionRecvWindow.toNat + total (granted 0) new + uncharged s frame
  stream : ∀ id stream, t.streams.lookup id = some stream →
    (∃ old, s.streams.lookup id = some old ∧
      stream.recvWindow.toNat + chargedOn id frame =
        old.recvWindow.toNat + total (granted id) new) ∨
    s.lastStreamId < id ∧ stream.recvWindow = s.config.initialWindowSize
  later : ∀ id, s.lastStreamId < id → chargedOn id frame = 0 ∧ total (granted id) new = 0
  filled : Filled s → Filled t

section Accounts
theorem Dataless.accounted (h : Dataless s frame t) (ht : frame.header.type ≠ .data) :
    ∃ new, Accounted s frame t new := by
  obtain ⟨new, hnew, hq⟩ := h.sent
  obtain ⟨size, hs⟩ := h.config
  have hg : ∀ id, total (granted id) new = 0 :=
    fun id => total_zero (fun answer ha => granted_other (hq answer ha))
  refine ⟨new, h.config, hnew, h.last, ?_, ?_, ?_, ?_⟩
  · simp [h.window, charged_other ht, hg, uncharged]
  · intro id stream hl
    cases h.entries id stream hl with
    | kept found window body =>
      exact Or.inl ⟨_, found, by simp [window, chargedOn_other ht, hg]⟩
    | opened type key newer window body => exact Or.inr ⟨newer, window⟩
  · intro id hid
    exact ⟨chargedOn_other ht, hg id⟩
  · intro hf
    refine ⟨?_, ?_⟩
    · rw [hs, h.window]
      exact hf.connection
    · intro id stream hl
      rw [hs]
      cases h.entries id stream hl with
      | kept found window body =>
        rw [window]
        exact hf.stream id _ found
      | opened type key newer window body =>
        rw [window]
        exact Nat.div_le_self _ _

theorem Accounted.fewer (h : Accounted s frame t new)
    (hc : u.config = t.config) (hs : u.sent = t.sent)
    (hla : u.lastStreamId = t.lastStreamId)
    (hwi : u.connectionRecvWindow = t.connectionRecvWindow)
    (he : ∀ id stream, u.streams.lookup id = some stream →
      t.streams.lookup id = some stream) : Accounted s frame u new where
  config := hc ▸ h.config
  sent := hs.trans h.sent
  last := hla ▸ h.last
  connection := hwi ▸ h.connection
  stream := fun id stream hl => h.stream id stream (he id stream hl)
  later := h.later
  filled := by
    intro hf
    refine ⟨?_, ?_⟩
    · rw [hc, hwi]
      exact (h.filled hf).connection
    · intro id stream hl
      rw [hc]
      exact (h.filled hf).stream id stream (he id stream hl)

theorem chargedOn_ne (h : id ≠ frame.header.streamId) : chargedOn id frame = 0 := by
  simp [chargedOn, Ne.symm h]

theorem Dispatches.accounted
    (h : Dispatches t stream request dispatch u status) (ht : Accounted s frame t new) :
    Accounted s frame u new := by
  have he : ∀ id other, (t.streams.erase stream.streamId).lookup id = some other →
      t.streams.lookup id = some other := fun id other hl => (Maps.of_lookup_erase hl).2
  cases h <;> exact ht.fewer rfl rfl rfl rfl he

/-- A DATA frame over the body limit is charged to nobody. -/
theorem overrun_accounted (hs : Sound s)
    (hd : Delivers s frame stream offset size) (he : exceedsBodyLimit s frame = true) :
    Accounted s frame (s.closeStream frame.header.streamId) [] := by
  have hen := hs.entry _ _ hd.found
  refine ⟨⟨_, rfl⟩, (List.append_nil _).symm, UInt32.le_refl _, ?_, ?_, ?_, ?_⟩
  · simp [uncharged, he, H2Session.closeStream]
  · intro id other hl
    obtain ⟨hne, hold⟩ := Maps.of_lookup_erase hl
    exact Or.inl ⟨other, hold, by simp [chargedOn_ne hne]⟩
  · intro id hid
    refine ⟨chargedOn_ne ?_, rfl⟩
    intro heq
    exact absurd hen.seen (UInt32.not_le.mpr (heq ▸ hid))
  · intro hf
    refine ⟨hf.connection, ?_⟩
    intro id other hl
    exact hf.stream id other (Maps.of_lookup_erase hl).2

/-- A DATA frame within the body limit is charged to both windows. -/
theorem data_accounted (hs : Sound s)
    (hd : Delivers s frame stream offset size) (hfi : exceedsBodyLimit s frame = false)
    (hi : s.config.initialWindowSize.toNat < 2 ^ 31) :
    ∃ new, Accounted s frame (dataReceived s stream frame.header data) new := by
  have he := hs.entry _ _ hd.found
  have hwi := UInt32.toNat_sub_of_le _ _ hd.stream_window
  have hc := UInt32.toNat_sub_of_le _ _ hd.connection_window
  have hle := UInt32.le_iff_toNat_le.mp hd.stream_window
  have hle' := UInt32.le_iff_toNat_le.mp hd.connection_window
  have hch : charged frame = frame.header.length.toNat := by simp [charged, hd.type]
  unfold dataReceived
  rw [he.key]
  refine ⟨_, ⟨_, rfl⟩, rfl, UInt32.le_refl _, ?_, ?_, ?_, ?_⟩
  · rw [total_append, topUp_other hd.nonzero, topUp_granted 0 hi]
    simp only [uncharged, hfi, Bool.false_eq_true, if_false]
    omega
  · intro id other hl
    rcases Maps.of_lookup_insert hl with ⟨rfl, rfl⟩ | ⟨hne, hold⟩
    · refine Or.inl ⟨stream, hd.found, ?_⟩
      dsimp only [dataStored]
      rw [total_append, topUp_other (Ne.symm hd.nonzero), topUp_granted frame.header.streamId hi]
      simp only [chargedOn, if_true]
      omega
    · refine Or.inl ⟨other, hold, ?_⟩
      have hz := (hs.entry id other hold).nonzero
      rw [total_append, topUp_other (Ne.symm hz), topUp_other (Ne.symm hne), chargedOn_ne hne]
  · intro id hid
    have hne : id ≠ frame.header.streamId := by
      intro heq
      exact absurd he.seen (UInt32.not_le.mpr (heq ▸ hid))
    have hz : id ≠ 0 := by
      intro heq
      rw [heq] at hid
      exact absurd hid (UInt32.not_lt.mpr UInt32.zero_le)
    rw [total_append, topUp_other (Ne.symm hz), topUp_other (Ne.symm hne)]
    exact ⟨chargedOn_ne hne, rfl⟩
  · intro hf
    refine ⟨half_refilled, ?_⟩
    intro id other hl
    rcases Maps.of_lookup_insert hl with ⟨rfl, rfl⟩ | ⟨-, hold⟩
    · exact half_refilled
    · exact hf.stream id other hold

theorem Handled.accounted (hs : Sound s) (hst : s.state = .connected)
    (ha : Admitted s frame.header) (hi : s.config.initialWindowSize.toNat < 2 ^ 31)
    (h : Handled s frame dispatch t status)
    (hsta : status ≠ .protocolError) : ∃ new, Accounted s frame t new := by
  by_cases ht : frame.header.type = .data
  · cases Handled.data_delivered h hsta ht with
    | overrun delivers beyond =>
      have he := (exceedsBodyLimit_of_overrun hs hst ha delivers).mpr beyond
      exact ⟨[], overrun_accounted hs delivers he⟩
    | stored delivers fits unended =>
      have hf := mt (exceedsBodyLimit_of_overrun hs hst ha delivers).mp fits
      exact data_accounted hs delivers (Bool.eq_false_iff.mpr hf) hi
    | completed delivers fits ended asked dispatches =>
      have hf := mt (exceedsBodyLimit_of_overrun hs hst ha delivers).mp fits
      obtain ⟨new, hnew⟩ := data_accounted hs delivers (Bool.eq_false_iff.mpr hf) hi
      exact ⟨new, Dispatches.accounted dispatches hnew⟩
  · exact Dataless.accounted (Handled.dataless hs h hsta ht) ht

end Accounts

def lost (log : List (Runs.Event H2Session Input)) : Nat :=
  (log.map fun event =>
    match event.input with
    | .frame frame _ _ => uncharged event.before frame
    | _ => 0).sum

@[simp] theorem lost_append : lost (a ++ b) = lost a + lost b := by
  simp [lost]

/-- The stream windows always agree; the connection window is off by the difference at the start and
by what was never charged. -/
structure Kept (config : H2ConnectionConfig) (log : List (Runs.Event H2Session Input))
    (s : H2Session) : Prop where
  configured : ∃ size, s.config = { config with maximumHeaderListSize := size }
  connection : (s.connectionRecvWindow.toNat : Int) =
    connectionCredit (received (log.map Runs.Event.input)) s.sent +
      ((config.initialWindowSize.toNat : Int) - 65535) + lost log
  stream : ∀ id stream, s.streams.lookup id = some stream →
    (stream.recvWindow.toNat : Int) =
      streamCredit config.initialWindowSize id (received (log.map Runs.Event.input)) s.sent
  later : ∀ id, s.lastStreamId < id →
    total (chargedOn id) (received (log.map Runs.Event.input)) = 0 ∧ total (granted id) s.sent = 0
  filled : Filled s

theorem Kept.unread (h : Kept config log s)
    (hf : received [input] = []) (hlo : lost [⟨s, input⟩] = 0) (hse : t.sent = s.sent ++ new)
    (hnew : ∀ frame ∈ new, frame.header.type ≠ .windowUpdate) (hc : t.config = s.config)
    (hwi : t.connectionRecvWindow = s.connectionRecvWindow) (hs : t.streams = s.streams)
    (hla : t.lastStreamId = s.lastStreamId) : Kept config (log ++ [⟨s, input⟩]) t := by
  have hg : ∀ id, total (granted id) new = 0 :=
    fun id => total_zero (fun answer ha => granted_other (hnew answer ha))
  refine ⟨hc ▸ h.configured, ?_, ?_, ?_, ⟨?_, ?_⟩⟩
  · simpa [connectionCredit, hf, hlo, hse, hg, hwi] using h.connection
  · intro id stream hl
    rw [hs] at hl
    simpa [streamCredit, hf, hse, hg] using h.stream id stream hl
  · intro id hid
    rw [hla] at hid
    simpa [hf, hse, hg] using h.later id hid
  · rw [hc, hwi]
    exact h.filled.connection
  · intro id stream hl
    rw [hs] at hl
    rw [hc]
    exact h.filled.stream id stream hl

theorem Kept.read (h : Kept config log s) (ht : Accounted s frame t new) :
    Kept config (log ++ [⟨s, .frame frame order dispatch⟩]) t := by
  obtain ⟨size, hs⟩ := h.configured
  obtain ⟨size', hs'⟩ := ht.config
  have hr : received [.frame frame order dispatch] = [frame] := rfl
  have hlo : lost [⟨s, .frame frame order dispatch⟩] = uncharged s frame := by simp [lost]
  refine ⟨⟨size', by rw [hs', hs]⟩, ?_, ?_, ?_, ht.filled h.filled⟩
  · have hco := h.connection
    have hm := ht.connection
    simp only [connectionCredit, List.map_append, List.map_cons, List.map_nil, received_append,
      hr, total_append, total_singleton, lost_append, hlo, ht.sent] at hco ⊢
    omega
  · intro id stream hl
    have hm : (stream.recvWindow.toNat : Int) + chargedOn id frame =
        streamCredit config.initialWindowSize id (received (log.map Runs.Event.input)) s.sent +
          total (granted id) new := by
      rcases ht.stream id stream hl with ⟨old, hold, hm⟩ | ⟨hid, ho⟩
      · rw [← h.stream id old hold]
        omega
      · obtain ⟨hc, hg⟩ := h.later id hid
        obtain ⟨hc', hg'⟩ := ht.later id hid
        rw [ho, hs]
        simp [streamCredit, hc, hg, hc', hg']
    simp only [streamCredit, List.map_append, List.map_cons, List.map_nil, received_append,
      hr, total_append, total_singleton, ht.sent] at hm ⊢
    omega
  · intro id hid
    have hb := UInt32.lt_of_le_of_lt ht.last hid
    obtain ⟨hc, hg⟩ := h.later id hb
    obtain ⟨hc', hg'⟩ := ht.later id hb
    simp [hr, ht.sent, hc, hg, hc', hg']

/-- One input of a run. -/
theorem Kept.next (hwi : config.initialWindowSize.toNat < 2 ^ 31)
    (hh : Healthy event.before) (h : event.before.state = .connected → Kept config log event.before)
    (ht : (event.after handle).state = .connected) :
    Kept config (log ++ [event]) (event.after handle) := by
  obtain ⟨s, input⟩ := event
  dsimp only [Runs.Event.after] at hh h ht ⊢
  have hs := handle_steps hh input
  generalize s.handle input = t at hs ht ⊢
  cases hs with
  | frame received =>
    cases received with
    | ignored unconnected => exact absurd ht unconnected
    | failed => cases ht
    | handled connected admitted handled well =>
      obtain ⟨size, hsi⟩ := (h connected).configured
      have hi : s.config.initialWindowSize.toNat < 2 ^ 31 := by
        rw [hsi]
        exact hwi
      obtain ⟨new, hnew⟩ := Handled.accounted (hh.sound connected) connected admitted hi
        handled well
      exact (h connected).read hnew
  | overflow => cases ht
  | gone closed =>
    rw [closed] at ht
    cases ht
  | @respond streamId response =>
    have hnew := perform_frames s.outbound (.submitResponse streamId response)
    exact (h ht).unread rfl rfl rfl (fun frame hf => (hnew frame hf).not_windowUpdate) rfl rfl rfl rfl
  | goaway => cases ht
  | silent unconnected => exact absurd ht unconnected
  | close => cases ht

theorem greeting_grants (connectionId : Nat) (h : Accepted config)
    (id : UInt32) : total (granted id) (created connectionId config h).acceptPreface.sent = 0 := by
  apply total_zero
  intro frame hf
  rw [List.mem_singleton.mp hf]
  apply granted_other
  exact (by decide : FrameType.settings ≠ .windowUpdate)

theorem kept_of_run (connectionId : Nat) (h : Accepted config) (inputs : List Input)
    (hc : (Runs.final handle (created connectionId config h).acceptPreface inputs).state =
      .connected) :
    Kept config (Runs.history handle (created connectionId config h).acceptPreface inputs)
      (Runs.final handle (created connectionId config h).acceptPreface inputs) := by
  have hwi : config.initialWindowSize.toNat < 2 ^ 31 := Nat.lt_succ_of_le h.1.1
  refine (Runs.run_induction
    (motive := fun log s => Healthy s ∧ (s.state = .connected → Kept config log s)) ?_ ?_
    (fun _ _ => trivial)).2 hc
  · refine ⟨created_healthy connectionId h, fun _ => ⟨⟨_, rfl⟩, ?_, ?_, ?_, ?_, ?_⟩⟩
    · simp only [connectionCredit, greeting_grants]
      simp [lost, H2Session.acceptPreface, H2Session.send, created]
    · intro id stream hl
      cases hl
    · intro id _
      exact ⟨rfl, greeting_grants connectionId h id⟩
    · exact Nat.div_le_self _ _
    · intro id stream hl
      cases hl
  · rintro log event ⟨hh, hk⟩ (_ : True)
    exact ⟨handle_healthy hh event.input, Kept.next hwi hh hk⟩

def exceedsWindow (s : H2Session) (stream : H2Stream) (header : FrameHeader) : Prop :=
  header.length > stream.recvWindow ∨ header.length > s.connectionRecvWindow

/-- The windows are the peer's credit, which is accepted and never below half. -/
structure Agreed (initial : UInt32) (received : List Frame) (s : H2Session) : Prop where
  connection : (s.connectionRecvWindow.toNat : Int) = connectionCredit received s.sent
  stream : ∀ id stream, s.streams.lookup id = some stream →
    (stream.recvWindow.toNat : Int) = streamCredit initial id received s.sent
  unrejected : ∀ (header : FrameHeader) stream, s.streams.lookup header.streamId = some stream →
    (header.length.toNat : Int) ≤ connectionCredit received s.sent →
    (header.length.toNat : Int) ≤ streamCredit initial header.streamId received s.sent →
    ¬ exceedsWindow s stream header
  connection_half : ((initial.toNat / 2 : Nat) : Int) ≤ connectionCredit received s.sent
  stream_half : ∀ id stream, s.streams.lookup id = some stream →
    ((initial.toNat / 2 : Nat) : Int) ≤ streamCredit initial id received s.sent

def exceeding (event : Runs.Event H2Session Input) : Bool :=
  match event.input with
  | .frame frame _ _ => exceedsBodyLimit event.before frame
  | _ => false

theorem lost_nothing (h : ∀ event ∈ log, exceeding event = false) : lost log = 0 := by
  induction log with
  | nil => rfl
  | cons event log ih =>
    have hr := ih (fun other ho => h other (List.mem_cons_of_mem _ ho))
    have he := h event List.mem_cons_self
    simp only [lost, List.map_cons, List.sum_cons] at hr ⊢
    rw [hr]
    cases hi : event.input with
    | frame frame order dispatch =>
      simp only [exceeding, hi] at he
      simp [uncharged, he]
    | _ => rfl

theorem Kept.agreed (h : Kept config log s) (hwi : config.initialWindowSize = 65535)
    (hlo : lost log = 0) :
    Agreed config.initialWindowSize (received (log.map Runs.Event.input)) s := by
  have hc : (s.connectionRecvWindow.toNat : Int) =
      connectionCredit (received (log.map Runs.Event.input)) s.sent := by
    have hk := h.connection
    rw [hlo, hwi] at hk
    simpa using hk
  obtain ⟨size, hs⟩ := h.configured
  have hha := h.filled.connection
  have hh := h.filled.stream
  rw [hs] at hha hh
  dsimp only at hha hh
  refine ⟨hc, h.stream, ?_, ?_, ?_⟩
  · intro header stream hl hle hle'
    rw [← hc] at hle
    rw [← h.stream _ stream hl] at hle'
    simp only [exceedsWindow, gt_iff_lt, UInt32.lt_iff_toNat_lt]
    omega
  · rw [← hc]
    exact Int.ofNat_le.mpr hha
  · intro id stream hl
    rw [← h.stream id stream hl]
    exact Int.ofNat_le.mpr (hh id stream hl)

theorem dataRange_size
    (h : dataRange header payload = some (offset, size)) : size ≤ header.length.toNat := by
  simp only [dataRange, Option.ite_none_left_eq_some, Option.some.injEq, Prod.mk.injEq] at h
  omega

/-- A frame without octets cannot exceed the limit. -/
theorem charged_of_exceeding (hb : Bounded s)
    (h : exceedsBodyLimit s frame = true) : 0 < charged frame := by
  simp only [exceedsBodyLimit, Bool.and_eq_true, Bool.or_eq_true, beq_iff_eq, decide_eq_true_eq,
    Option.any_eq_true] at h
  obtain ⟨⟨⟨-, ht⟩, -⟩, stream, hf, -, ⟨offset, size⟩, hr, ho⟩ := h
  have hbo := hb _ stream hf
  have hs := dataRange_size hr
  rw [charged, if_pos ht]
  dsimp only at ho
  omega

/-- A frame over the limit costs the peer credit, and the window stays. -/
theorem Agreed.not_exceeding (hb : s.state ≠ .closed → Bounded s)
    (h : s.state = .connected → Agreed initial frames s)
    (hn : (s.handle (.frame frame order dispatch)).state = .connected →
      Agreed initial (frames ++ [frame]) (s.handle (.frame frame order dispatch))) :
    exceedsBodyLimit s frame = false := by
  cases he : exceedsBodyLimit s frame with
  | false => rfl
  | true =>
    have hs : s.state = .connected := by
      simp only [exceedsBodyLimit, Bool.and_eq_true, beq_iff_eq] at he
      exact he.1.1.1.1.1.1
    have ha : s.handle (.frame frame order dispatch) = s.closeStream frame.header.streamId :=
      congrArg Prod.fst (receive_exceeding he)
    rw [ha] at hn
    have hbe := (h hs).connection
    have ht := (hn hs).connection
    have hc := charged_of_exceeding (hb (by rw [hs]; decide)) he
    simp only [connectionCredit, total_append, total_singleton, H2Session.closeStream] at hbe ht
    omega

/-- The windows agree exactly if the connection window starts as the protocol's and no DATA frame
exceeds the body limit. -/
theorem receive_windows_agree_iff {connectionId : Nat} {config : H2ConnectionConfig} {s : H2Session}
    (h : H2Session.create connectionId config = .ok s) (inputs : List Input) :
    (∀ first, first <+: inputs → (Runs.final handle s.acceptPreface first).state = .connected →
      Agreed config.initialWindowSize (received first) (Runs.final handle s.acceptPreface first)) ↔
    config.initialWindowSize = 65535 ∧
      ∀ event ∈ Runs.history handle s.acceptPreface inputs, exceeding event = false := by
  obtain ⟨accepted, rfl⟩ := of_create h
  constructor
  · intro hagreed
    refine ⟨?_, ?_⟩
    · have hstart := (hagreed [] List.nil_prefix rfl).connection
      simp only [Runs.final_nil, connectionCredit, greeting_grants] at hstart
      have hstart' : (config.initialWindowSize.toNat : Int) = 65535 := by
        simpa using (show (config.initialWindowSize.toNat : Int) = _ from hstart)
      apply UInt32.toNat_inj.mp
      exact Int.ofNat_inj.mp hstart'
    · intro event hevent
      obtain ⟨first, rest, hinputs, hbefore⟩ := Runs.history_split hevent
      cases hinput : event.input with
      | frame frame order dispatch =>
        rw [hinput] at hinputs
        simp only [exceeding, hinput, hbefore]
        have hnext : first ++ [.frame frame order dispatch] <+: inputs := ⟨rest, by simp [hinputs]⟩
        have hthen := hagreed _ hnext
        rw [Runs.final_append, received_append] at hthen
        exact Agreed.not_exceeding (reached connectionId accepted first).2
          (hagreed first ⟨_, hinputs.symm⟩) hthen
      | _ => simp [exceeding, hinput]
  · rintro ⟨hwindow, hfits⟩ first ⟨rest, hrest⟩ hconnected
    have hkept := kept_of_run connectionId accepted first hconnected
    have hlost : lost (Runs.history handle (created connectionId config accepted).acceptPreface
        first) = 0 := by
      apply lost_nothing
      intro event hevent
      apply hfits
      rw [← hrest, Runs.history_append]
      exact List.mem_append_left _ hevent
    have hagreed := hkept.agreed hwindow hlost
    rw [Runs.history_inputs] at hagreed
    exact hagreed

def upload : List Input :=
  [settingsFrame, requestFrame 1 false, dataFrame 1 false [1, 2, 3], dataFrame 1 false [4, 5]].map
    arrives

theorem receive_windows_agree_upload :
    let s := (created 1 {} (by decide)).acceptPreface
    H2Session.create 1 {} = .ok (created 1 {} (by decide)) ∧
      (Runs.final handle s upload).state = .connected ∧
      (Runs.final handle s upload).connectionRecvWindow = 65530 ∧
      Agreed 65535 (received upload) (Runs.final handle s upload) := by
  have hcreate := create_eq 1 (show Accepted {} by decide)
  have hfits : ∀ event ∈ Runs.history handle (created 1 {} (by decide)).acceptPreface upload,
      exceeding event = false := by
    decide +kernel
  exact ⟨hcreate, by decide +kernel, by decide +kernel,
    (receive_windows_agree_iff hcreate upload).mpr ⟨rfl, hfits⟩ upload List.prefix_rfl
      (by decide +kernel)⟩

def wide : H2Session := created 1 { initialWindowSize := 200000 } (by decide)

def narrow : H2Session := created 1 { maximumRequestBodySize := 4 } (by decide)

/-- The wide window is below half from the start; DATA over the body limit is charged to the peer.
-/
theorem receive_windows_disagree :
    H2Session.create 1 { initialWindowSize := 200000 } = .ok wide ∧
      wide.acceptPreface.state = .connected ∧ wide.acceptPreface.connectionRecvWindow = 200000 ∧
      connectionCredit [] wide.acceptPreface.sent = 65535 ∧
    H2Session.create 1 { maximumRequestBodySize := 4 } = .ok narrow ∧
      (Runs.final handle narrow.acceptPreface upload).state = .connected ∧
      (Runs.final handle narrow.acceptPreface upload).connectionRecvWindow = 65532 ∧
      connectionCredit (received upload) (Runs.final handle narrow.acceptPreface upload).sent =
        65530 := by
  refine ⟨create_eq 1 _, ?_, ?_, ?_, create_eq 1 _, ?_, ?_, ?_⟩
  all_goals decide +kernel

end IocpRuntime.Proofs.ReceiveCredit
