import Mathlib.Algebra.Order.Floor.Div
import IocpRuntime.Proofs.OutboundStreams
import IocpRuntime.Proofs.SendAdmission

namespace IocpRuntime.Proofs.FrameBursts
open Lib Http Http2 Transport Server SendFifo SendOrder CloseAfterSend
  SendAdmission OutboundFrames

/-- A cut takes a whole piece, or all that is left. -/
theorem ceilDiv_cut (hsi : 0 < size) (hl : 0 < left) :
    left ⌈/⌉ size = (left - min size left) ⌈/⌉ size + 1 := by
  rw [Nat.ceilDiv_eq_add_pred_div, Nat.ceilDiv_eq_add_pred_div]
  rcases Nat.le_total left size with hle | hle
  · rw [Nat.min_eq_right hle, Nat.sub_self, Nat.zero_add, Nat.div_eq_of_lt (by omega : size - 1 < size)]
    have hs : left + size - 1 = left - 1 + size := by omega
    rw [hs, Nat.add_div_right _ hsi, Nat.div_eq_of_lt (by omega)]
  · rw [Nat.min_eq_left hle]
    have hs : left + size - 1 = left - size + size - 1 + size := by omega
    rw [hs, Nat.add_div_right _ hsi]

theorem length_headerFrames (streamId : UInt32) (hf : 0 < maximumFrameSize)
    (endStream : Bool) (block : Octets) (rounds offset : Nat) (first : Bool)
    (hr : block.length - offset < rounds) :
    (headerFrames streamId maximumFrameSize endStream block rounds offset first).length =
      max 1 ((block.length - offset) ⌈/⌉ maximumFrameSize) := by
  induction rounds generalizing offset first with
  | zero => omega
  | succ rounds ih =>
    rw [headerFrames]
    split
    · rename_i hm
      have hl : 0 < block.length - offset := by omega
      have hn : block.length - (offset + min maximumFrameSize (block.length - offset)) =
          block.length - offset - min maximumFrameSize (block.length - offset) := by omega
      have hone : 1 ≤ (block.length - offset - min maximumFrameSize (block.length - offset)) ⌈/⌉
          maximumFrameSize := by
        rw [Nat.one_le_iff_ne_zero]
        intro hz
        have hb := (ceilDiv_le_iff_le_mul hf).mp (Nat.le_of_eq hz)
        omega
      rw [List.length_cons, ih _ _ (by omega), hn, ceilDiv_cut hf hl]
      omega
    · rename_i hla
      have hfi : block.length - offset ≤ maximumFrameSize := by omega
      have hone : (block.length - offset) ⌈/⌉ maximumFrameSize ≤ 1 :=
        (ceilDiv_le_iff_le_mul hf).mpr (by omega)
      rw [List.length_singleton]
      omega

def credit (flush : Flush) : Nat :=
  min (flush.stream.body.length - flush.stream.offset)
    (min flush.stream.window.toNat flush.connectionWindow.toNat)

theorem length_loop (hf : 0 < maximumFrameSize)
    (hr : flush.stream.body.length - flush.stream.offset ≤ rounds) :
    (Flush.loop streamId maximumFrameSize rounds flush).frames.length =
      flush.frames.length + credit flush ⌈/⌉ maximumFrameSize := by
  induction rounds generalizing flush with
  | zero =>
    have hn : credit flush = 0 := by
      unfold credit
      omega
    rw [hn, zero_ceilDiv]
    rfl
  | succ rounds ih =>
    rw [Flush.loop]
    split
    · rename_i ho
      obtain ⟨hl, hwi, hco⟩ := ho
      have hc : 0 < credit flush := by
        unfold credit
        omega
      have hb : flush.bytes maximumFrameSize = min maximumFrameSize (credit flush) := by
        unfold Flush.bytes credit
        omega
      dsimp only
      rw [ih (by dsimp only; omega), ceilDiv_cut hf hc, List.length_append,
        List.length_singleton, hb, Nat.add_assoc, Nat.add_comm 1]
      congr 3
      unfold credit
      dsimp only
      omega
    · rename_i hcl
      have hn : credit flush = 0 := by
        unfold credit
        omega
      rw [hn, zero_ceilDiv, Nat.add_zero]

theorem length_flushStream {s : H2OutboundScheduler} (hf : 0 < s.maximumFrameSize) :
    (s.flushStreamLocked streamId stream frames).2.length =
      frames.length + credit ⟨stream, s.connectionWindow, frames⟩ ⌈/⌉ s.maximumFrameSize :=
  length_loop hf (Nat.le_refl _)

/-- The header block and what the windows let through, in pieces of the frame size. -/
def submissionFrames (s : H2OutboundScheduler) (streamId : UInt32) (response : HttpResponse) :
    Nat :=
  match s.streams.lookup streamId with
  | none => 0
  | some stream =>
    if s.closed ∨ stream.responseSubmitted then 0
    else
      max 1 ((s.encoder.encode (responseHeaders response)).2.length ⌈/⌉ s.maximumFrameSize) +
        min (response.body.length - stream.offset)
          (min stream.window.toNat s.connectionWindow.toNat) ⌈/⌉ s.maximumFrameSize

theorem submissionFrames_open (hl : s.streams.lookup streamId = some stream) (hc : s.closed = false)
    (hf : stream.responseSubmitted = false) :
    submissionFrames s streamId response =
      max 1 ((s.encoder.encode (responseHeaders response)).2.length ⌈/⌉ s.maximumFrameSize) +
        min (response.body.length - stream.offset)
          (min stream.window.toNat s.connectionWindow.toNat) ⌈/⌉ s.maximumFrameSize := by
  simp [submissionFrames, hl, hc, hf]

theorem length_submission :
    (s.submitResponse streamId response).frames.length = submissionFrames s streamId response := by
  have hf : 0 < s.maximumFrameSize := Nat.lt_of_lt_of_le (by decide) s.frameSizeChecked.1
  unfold H2OutboundScheduler.submitResponse submissionFrames
  cases s.streams.lookup streamId with
  | none => rfl
  | some stream =>
    dsimp only
    split
    · rfl
    · simp only [H2OutboundScheduler.encodeHeaderBlockLocked]
      have hb := length_headerFrames streamId hf response.body.isEmpty
        (s.encoder.encode (responseHeaders response)).2 _ 0 true (Nat.lt_succ_self _)
      rw [Nat.sub_zero] at hb
      split
      · rename_i he
        have hn : response.body.length = 0 := by rw [List.isEmpty_iff.mp he, List.length_nil]
        rw [hn, Nat.zero_sub, Nat.zero_min, zero_ceilDiv]
        exact hb
      · refine (length_flushStream hf).trans ?_
        rw [hb]
        rfl

variable {s : Running} {items bytes : Nat}

/-- While the connection is active its queue has room for so many more items and octets. -/
structure Room (options : ConnectionOptions) (items bytes : Nat) (s : Running) : Prop where
  accounted : ∃ log, Accounted log s
  limited : Limited options s.connection
  unmarked : s.connection.state = .active → s.connection.closeAfterSend = false
  items : s.connection.state = .active →
    s.connection.sendQueue.itemCount + items ≤ options.maximumSendQueueItems
  bytes : s.connection.state = .active →
    s.connection.sendQueue.queuedBytes + bytes ≤ options.maximumSendQueueBytes

theorem Room.queue (h : Room options items bytes s) (hac : s.connection.state = .active) :
    WellFormed s.connection.sendQueue := by
  obtain ⟨log, ha⟩ := h.accounted
  exact (ha.flow.active hac).queue

theorem accounted_step (h : ∃ log, Accounted log s) : ∃ log, Accounted log (s.step action) := by
  obtain ⟨log, ha⟩ := h
  have hs : Accounted (log ++ [⟨s, action⟩]) (s.step action) :=
    @Accounted.step log ⟨s, action⟩ ha
  exact ⟨_, hs⟩

theorem Room.quiet (h : Room options items bytes s) (hq : Quiet action) :
    Room options items bytes (s.step action) := by
  have hc := quiet_calm hq s
  refine ⟨accounted_step h.accounted, h.limited.step, ?_, ?_, ?_⟩
  · intro ha
    exact (hq.keepsMark ha).trans (h.unmarked (active_before ha))
  · intro ha
    exact (Nat.add_le_add_right hc.queue.items items).trans (h.items (active_before ha))
  · intro ha
    exact (Nat.add_le_add_right hc.queue.bytes bytes).trans (h.bytes (active_before ha))

theorem Room.quiet_run (h : Room options items bytes s) {actions : List Action}
    (hq : ∀ action ∈ actions, Quiet action) :
    Room options items bytes (actions.foldl Running.step s) := by
  induction actions generalizing s with
  | nil => exact h
  | cons action actions ih =>
    exact ih (h.quiet (hq action List.mem_cons_self))
      (fun other ho => hq other (List.mem_cons_of_mem _ ho))

theorem frame_some (frame : Frame) : [frame.octets].countP (· ≠ []) = 1 := by
  simp [Frame.octets, encodeHeader]

theorem frame_queued (frame : Frame) (native : Option WinsockError)
    (hu : s.connection.closeAfterSend = false)
    (ha : (s.step (.sendBatch [frame.octets] false native)).connection.state = .active) :
    (s.step (.sendBatch [frame.octets] false native)).connection.closeAfterSend = false ∧
      (s.step (.sendBatch [frame.octets] false native)).connection.sendQueue.itemCount =
        s.connection.sendQueue.itemCount + 1 ∧
      (s.step (.sendBatch [frame.octets] false native)).connection.sendQueue.queuedBytes =
        s.connection.sendQueue.queuedBytes + frame.octets.length := by
  have hs : [frame.octets].countP (· ≠ []) ≠ 0 := by
    rw [frame_some]
    exact Nat.one_ne_zero
  have hc : (s.step (.sendBatch [frame.octets] false native)).connection =
      (s.connection.sendBatchInternal [frame.octets] false native).2.connection := rfl
  rw [hc] at ha ⊢
  rcases batch_active hs ha with hm | ⟨ht, hq, ho⟩
  · rw [hu] at hm
    cases hm
  · obtain ⟨hi, hb⟩ := pushed_counts ht
    rw [frame_some] at hi
    rw [List.flatten_singleton] at hb
    rw [hq]
    exact ⟨ho, hi, hb⟩

/-- What comes after a batch only closes the connection. -/
theorem Room.afterSending (h : Room options items bytes s) :
    Room options items bytes (afterSending s status) := by
  unfold Server.afterSending
  split
  · exact h.quiet trivial
  · exact h

theorem Room.send (h : Room options (items + 1) (frame.octets.length + bytes) s)
    (hb : 0 < options.maximumOutboundBatchSegments) :
    (sendFrame s frame native).1 ≠ .queueOverflow ∧
      Room options items bytes (sendFrame s frame native).2 := by
  have hs : [frame.octets].countP (· ≠ []) ≠ 0 := by
    rw [frame_some]
    exact Nat.one_ne_zero
  constructor
  · by_cases ha : s.connection.state = .active
    · have hi := h.items ha
      have hby := h.bytes ha
      have hf : Fits s.connection [frame.octets] := by
        constructor
        · rw [frame_some, h.limited.batch]
          exact hb
        · rw [frame_some, h.limited.items]
          omega
        · rw [h.limited.bytes, List.flatten_singleton]
          omega
      intro ho
      exact (overflow_iff ha (h.unmarked ha) (h.queue ha) hs false native).mp ho hf
    · have hr := batch_refused (.inl ha)
        (fun hn => hs (List.countP_eq_length_filter.trans (by rw [hn]; rfl))) false native
      simp [sendFrame, hr]
  · apply Room.afterSending
    have hq := fun ha =>
      frame_queued frame native (h.unmarked (active_before ha)) ha
    refine ⟨accounted_step h.accounted, h.limited.step, ?_, ?_, ?_⟩
    · exact fun ha => (hq ha).1
    · intro ha
      have hi := h.items (active_before ha)
      rw [(hq ha).2.1]
      omega
    · intro ha
      have hby := h.bytes (active_before ha)
      rw [(hq ha).2.2]
      omega

/-- Whatever happens in between, no frame of a burst that there is room for overflows the queue. -/
theorem Room.send_all (h : Room options ha.length
      ((ha.map Handover.frame).flatMap Frame.octets).length s)
    (hb : 0 < options.maximumOutboundBatchSegments)
    (hq : ∀ handover ∈ ha, ∀ action ∈ handover.meanwhile, Quiet action) :
    .queueOverflow ∉ (sendFrames s ha).1 := by
  induction ha generalizing s with
  | nil => exact List.not_mem_nil
  | cons handover ha ih =>
    rw [List.map_cons, List.flatMap_cons, List.length_append, List.length_cons] at h
    obtain ⟨hs, hr⟩ := h.send hb
    have hre := ih (hr.quiet_run (hq handover List.mem_cons_self))
      (fun other ho => hq other (List.mem_cons_of_mem _ ho))
    rw [sendFrames]
    intro hm
    rcases List.mem_cons.mp hm with hf | hm
    · exact hs hf.symm
    · exact hre hm

def burst (frames : List Frame) : List Handover := frames.map (fun frame => { frame })

theorem items_of_burst (ha : ∃ log, Accounted log s)
    (hl : Limited options s.connection) (hac : s.connection.state = .active)
    (hu : s.connection.closeAfterSend = false)
    (h : .queueOverflow ∉ (sendFrames s (burst frames)).1) :
    s.connection.sendQueue.itemCount + frames.length ≤ options.maximumSendQueueItems := by
  induction frames generalizing s with
  | nil =>
    obtain ⟨log, ha⟩ := ha
    rw [← hl.items]
    exact (ha.flow.active hac).queue.itemsBound
  | cons frame frames ih =>
    obtain ⟨log, hlog⟩ := id ha
    have hf := hlog.flow.active hac
    have hso : [frame.octets].countP (· ≠ []) ≠ 0 := by
      rw [frame_some]
      exact Nat.one_ne_zero
    rw [burst, List.map_cons, sendFrames] at h
    obtain ⟨hs, hr⟩ := not_or.mp (fun hm => h (List.mem_cons.mpr hm))
    have hfi : Fits s.connection [frame.octets] := by
      by_contra hb
      exact hs ((overflow_iff hac hu hf.queue hso false none).mpr hb).symm
    have hacc := accepted_of_fits hac hu hf.queue hf.segments hf.bytes hso hfi false
    have hse : (sendFrame s frame none).2 = s.step (.sendBatch [frame.octets] false none) := by
      simp [sendFrame, afterSending, hacc]
    have haf : (s.step (.sendBatch [frame.octets] false none)).connection.state = .active :=
      active_of_accepted hso hacc
    obtain ⟨ho, hi, -⟩ := frame_queued frame none hu haf
    have hmo := ih (accounted_step ha) hl.step haf ho (hse ▸ hr)
    rw [List.length_cons]
    omega

/-- On a connection with nothing to send, no frame overflows the queue if and only if there are no
more frames than the queue may have items. -/
theorem burst_fits_iff {options : HttpApplicationOptions} (hvalid : validate options = .ok ())
    {id : UInt64} {connection : TcpConnection}
    (hcreate : TcpConnection.create id true true true options.server.connection = .ok connection)
    (actions : List Action) (scheduler : H2OutboundScheduler) (streamId : UInt32)
    (response : HttpResponse)
    (hbytes : ((scheduler.submitResponse streamId response).frames.flatMap Frame.octets).length ≤
      options.server.connection.maximumSendQueueBytes) :
    let s := Runs.final Running.step { connection } actions
    s.connection.state = .active → s.connection.sendQueue.empty = true →
      ((∀ handovers : List Handover,
          handovers.map Handover.frame = (scheduler.submitResponse streamId response).frames →
          (∀ handover ∈ handovers, ∀ action ∈ handover.meanwhile, Quiet action) →
          .queueOverflow ∉ (sendFrames s handovers).1) ↔
        submissionFrames scheduler streamId response ≤
          options.server.connection.maximumSendQueueItems) := by
  intro s hactive hempty
  have hready : Ready options.server.connection s.connection := ready_run hcreate actions hactive hempty
  have haccounted : ∃ log, Accounted log s := ⟨_, run_accounted hcreate actions⟩
  rw [← length_submission]
  constructor
  · intro hnever
    have hmap : (burst (scheduler.submitResponse streamId response).frames).map Handover.frame =
        (scheduler.submitResponse streamId response).frames := by
      simp [burst, Function.comp_def]
    have hquiet : ∀ handover ∈ burst (scheduler.submitResponse streamId response).frames,
        ∀ action ∈ handover.meanwhile, Quiet action := by
      intro handover hhandover action haction
      obtain ⟨frame, -, rfl⟩ := List.mem_map.mp hhandover
      cases haction
    have hitems := items_of_burst haccounted hready.limited hready.active hready.unmarked
      (hnever _ hmap hquiet)
    rwa [hready.items, Nat.zero_add] at hitems
  · intro hfew handovers hmap hquiet
    have hlength : handovers.length = (scheduler.submitResponse streamId response).frames.length := by
      rw [← hmap, List.length_map]
    refine Room.send_all ⟨haccounted, hready.limited, fun _ => hready.unmarked, fun _ => ?_,
      fun _ => ?_⟩ (validate_sendLimits hvalid).batch_pos hquiet
    · rw [hready.items, Nat.zero_add, hlength]
      exact hfew
    · rw [hready.bytes, Nat.zero_add, hmap]
      exact hbytes

theorem burst_fits_iff_hello :
    ∃ scheduler, H2OutboundScheduler.create 65535 16384 {} = .ok scheduler ∧
      ∀ handovers : List Handover,
        handovers.map Handover.frame = ((scheduler.openStream 1).submitResponse 1 hello).frames →
        (∀ handover ∈ handovers, ∀ action ∈ handover.meanwhile, Quiet action) →
        .queueOverflow ∉ (sendFrames { connection := serverConnection } handovers).1 := by
  have hcreate : TcpConnection.create 1 true true true
      ({} : HttpApplicationOptions).server.connection = .ok serverConnection := rfl
  obtain ⟨scheduler, hscheduler⟩ :
      ∃ scheduler, H2OutboundScheduler.create 65535 16384 {} = .ok scheduler := ⟨_, rfl⟩
  have hbytes : (((scheduler.openStream 1).submitResponse 1 hello).frames.flatMap Frame.octets).length ≤
      ({} : HttpApplicationOptions).server.connection.maximumSendQueueBytes := by
    cases hscheduler
    decide +kernel
  have hfew : submissionFrames (scheduler.openStream 1) 1 hello ≤
      ({} : HttpApplicationOptions).server.connection.maximumSendQueueItems := by
    cases hscheduler
    decide +kernel
  exact ⟨scheduler, hscheduler, (burst_fits_iff (by decide : validate {} = .ok ()) hcreate []
    (scheduler.openStream 1) 1 hello hbytes rfl rfl).mpr hfew⟩

theorem payload_submission (s : H2OutboundScheduler) (streamId : UInt32) (response : HttpResponse) :
    ∀ frame ∈ (s.submitResponse streamId response).frames,
      frame.payload.length ≤ s.maximumFrameSize := by
  have h : OutboundStreams.Performs s (.submitResponse streamId response)
    (s.submitResponse streamId response) := OutboundStreams.performs s _
  generalize s.submitResponse streamId response = outcome at h ⊢
  cases h with
  | refuses => simp
  | answers _ _ _ encodes => exact encodes.short
  | sends _ _ encodes sends =>
    refine List.forall_mem_append.mpr ⟨encodes.short, fun frame hf => ?_⟩
    exact encodes.size ▸ (sends.run.lengths frame hf).2

theorem octets_submission (s : H2OutboundScheduler) (streamId : UInt32) (response : HttpResponse) :
    ((s.submitResponse streamId response).frames.flatMap Frame.octets).length ≤
      submissionFrames s streamId response * (s.maximumFrameSize + 9) := by
  rw [← length_submission]
  have hp := payload_submission s streamId response
  generalize (s.submitResponse streamId response).frames = frames at hp
  induction frames with
  | nil => exact Nat.zero_le _
  | cons frame frames ih =>
    have hf := hp frame List.mem_cons_self
    have hr := ih (fun other ho => hp other (List.mem_cons_of_mem _ ho))
    have hh : frame.octets.length = frame.payload.length + 9 := by
      simp [Frame.octets, encodeHeader]
    rw [List.flatMap_cons, List.length_append, List.length_cons, Nat.succ_mul, hh]
    omega

def eagerPeer : List H2OutboundScheduler.Operation :=
  [.applyPeerSettings 1048576 16384 4096 [], .updateConnectionWindow 1048576 [], .openStream 1]

def mebibyte : HttpResponse := { body := List.replicate 1048576 0 }

theorem mebibyte_frames (h : H2OutboundScheduler.create 65535 16384 {} = .ok scheduler) :
    submissionFrames (scheduler.final eagerPeer) 1 mebibyte = 65 ∧
      (scheduler.final eagerPeer).maximumFrameSize = 16384 := by
  have hl : (scheduler.final eagerPeer).streams.lookup 1 = some { window := 1048576 } := by
    cases h
    decide +kernel
  have hc : (scheduler.final eagerPeer).closed = false := by
    cases h
    rfl
  have hs : (scheduler.final eagerPeer).maximumFrameSize = 16384 := by
    cases h
    rfl
  have hwi : (scheduler.final eagerPeer).connectionWindow = 1114111 := by
    cases h
    rfl
  have hb : ((scheduler.final eagerPeer).encoder.encode (responseHeaders mebibyte)).2.length ≤
      16384 * 1 := by
    cases h
    decide +kernel
  have hbo : mebibyte.body.length = 1048576 := List.length_replicate
  refine ⟨?_, hs⟩
  rw [submissionFrames_open hl hc rfl, hs, hwi, hbo,
    Nat.max_eq_left ((ceilDiv_le_iff_le_mul (by decide)).mpr hb)]
  decide

/-- A body of one mebibyte fits the default queue of two; its 65 frames do not fit the 64 items. -/
theorem default_queue_overflows :
    validate {} = .ok () ∧ ∃ scheduler, H2OutboundScheduler.create 65535 16384 {} = .ok scheduler ∧
      let frames := ((scheduler.final eagerPeer).submitResponse 1 mebibyte).frames
      TcpConnection.create 1 true true true ({} : HttpApplicationOptions).server.connection =
          .ok serverConnection ∧
        (frames.flatMap Frame.octets).length ≤
          ({} : HttpApplicationOptions).server.connection.maximumSendQueueBytes ∧
        .queueOverflow ∈ (sendFrames { connection := serverConnection } (burst frames)).1 := by
  have hcreate : TcpConnection.create 1 true true true
      ({} : HttpApplicationOptions).server.connection = .ok serverConnection := rfl
  obtain ⟨scheduler, hscheduler⟩ :
      ∃ scheduler, H2OutboundScheduler.create 65535 16384 {} = .ok scheduler := ⟨_, rfl⟩
  obtain ⟨hcount, hsize⟩ := mebibyte_frames hscheduler
  refine ⟨by decide, scheduler, hscheduler, hcreate, ?_, ?_⟩
  · have hoctets := octets_submission (scheduler.final eagerPeer) 1 mebibyte
    rw [hcount, hsize] at hoctets
    exact hoctets.trans (by decide)
  · by_contra hnever
    have hready := ready_run hcreate [] rfl rfl
    have hitems := items_of_burst ⟨_, run_accounted hcreate []⟩ hready.limited rfl rfl hnever
    rw [length_submission, hcount] at hitems
    exact absurd hitems (by decide)

end IocpRuntime.Proofs.FrameBursts
