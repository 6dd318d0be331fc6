import IocpRuntime.Proofs.RequestAssembly

namespace IocpRuntime.Proofs.StreamLimit
open Lib Http Http2 Http2.H2Session OutboundStreams SessionFrames SessionRuns
open RequestAssembly
open H2OutboundScheduler

def endedByServer (id : UInt32) (sent : List Frame) : Bool :=
  sent.any fun frame => frame.header.streamId == id &&
    (frame.header.has .endStream || frame.header.type == .rstStream)

def resetByPeer (id : UInt32) (frames : List Frame) : Bool :=
  frames.any fun frame => frame.header.streamId == id && frame.header.type == .rstStream

def asksToClose (event : Runs.Event H2Session Input) : Bool :=
  match event.input with
  | .frame frame order dispatch => closesConnection (event.before.receive frame order dispatch).2
  | _ => false

def connectionClosed (log : List (Runs.Event H2Session Input)) (s : H2Session) : Bool :=
  s.state == .closed || log.any asksToClose

/-- The streams of the client that nobody has finished yet, with or without a handler
at work on them. -/
def unfinished (log : List (Runs.Event H2Session Input)) (s : H2Session) : List UInt32 :=
  if connectionClosed log s then []
  else (openedStreams log).filter fun id =>
    !endedByServer id s.sent && !resetByPeer id (handledFrames log)

/-- HEADERS finds every stream of the scheduler in the session too, WINDOW_UPDATE a submitted
response, and no body is over its limit. -/
def withinLimit (event : Runs.Event H2Session Input) : Prop :=
  match event.input with
  | .frame frame _ _ =>
    let s := event.before
    s.state = .connected →
      (frame.header.type = .headers → s.outbound.streams.keys ⊆ s.streams.keys) ∧
      (frame.header.type = .windowUpdate →
        (s.outbound.streams.lookup frame.header.streamId).all StreamOutput.responseSubmitted) ∧
      exceedsBodyLimit s frame = false
  | _ => True

instance (event : Runs.Event H2Session Input) : Decidable (withinLimit event) :=
  match event with
  | ⟨_, .frame ..⟩ => inferInstanceAs (Decidable (_ → _))
  | ⟨_, .overflow⟩ | ⟨_, .respond ..⟩ | ⟨_, .sendGoaway _⟩ | ⟨_, .close⟩ =>
    inferInstanceAs (Decidable True)

section Scheduler
variable {id : UInt32}

/-- A stream leaves the scheduler when it is ended or closed, and on an update of its
window before it has a response. -/
theorem Effect.kept
    (h : Effect id limit op result (some stream) frames after) (hh : Held stream)
    (hc : op ≠ .closeStream id ∧ op ≠ .close)
    (hu : ∀ increment, op = .updateStreamWindow id increment → stream.responseSubmitted = true) :
    after.isSome ∨ ∃ frame ∈ frames, frame.header.has .endStream = true := by
  cases h with
  | passed window _ _ _ flushed =>
    cases flushed with
    | untouched => exact Or.inl rfl
    | partly => exact Or.inl rfl
    | wholly submitted run => exact Or.inr (run.ends (hh.sending submitted) rfl)
  | closed closing =>
    rcases closing with rfl | rfl
    · exact absurd rfl hc.1
    · exact absurd rfl hc.2
  | dropped increment waiting =>
    rw [hu increment rfl] at waiting
    cases waiting
  | @answered response stream block data stop window waiting headers run =>
    by_cases hs : stop = response.body.length
    · right
      by_cases he : response.body = []
      · rw [he] at headers
        obtain ⟨frame, hf, hm⟩ := headers.ends
        exact ⟨frame, List.mem_append_left _ hf, hm⟩
      · have hp : 0 < stop := hs ▸ List.length_pos_iff.mpr he
        obtain ⟨frame, hf, hm⟩ := run.ends hp hs
        exact ⟨frame, List.mem_append_right _ hf, hm⟩
    · rw [if_neg hs]
      exact Or.inl rfl

/-- The scheduler of an open connection, with sound entries. -/
structure Running (scheduler : H2OutboundScheduler) : Prop where
  opened : scheduler.closed = false
  held : ∀ id stream, scheduler.streams.lookup id = some stream → Held stream

theorem Running.perform (h : Running scheduler)
    (hop : op ≠ .close) : Running (scheduler.perform op).scheduler := by
  refine ⟨(closed_kept hop).trans h.opened, ?_⟩
  intro id stream hl
  exact (perform_effect scheduler op id (h.held id)).held (h.held id) stream hl

theorem Running.registers (h : Running scheduler) (id : UInt32) :
    ((scheduler.openStream id).streams.lookup id).isSome := by
  unfold H2OutboundScheduler.openStream
  rw [if_neg (by simp [h.opened])]
  cases hl : scheduler.streams.lookup id with
  | none => simp
  | some stream => simp [hl]

theorem Running.performs (h : Running scheduler) (hc : op ≠ .closeStream id ∧ op ≠ .close)
    (hu : ∀ increment, op = .updateStreamWindow id increment →
      (scheduler.streams.lookup id).all StreamOutput.responseSubmitted)
    (hr : (scheduler.streams.lookup id).isSome) :
    ((scheduler.perform op).scheduler.streams.lookup id).isSome ∨
      endedByServer id (scheduler.perform op).frames = true := by
  obtain ⟨stream, hl⟩ := Option.isSome_iff_exists.mp hr
  have he := perform_effect scheduler op id (h.held id)
  rw [hl] at he
  have hs : ∀ increment, op = .updateStreamWindow id increment →
      stream.responseSubmitted = true := by
    intro increment hop
    simpa [hl] using hu increment hop
  rcases Effect.kept he (h.held id stream hl) hc hs with hk | hen
  · exact Or.inl hk
  · obtain ⟨frame, hf, hm⟩ := hen
    obtain ⟨hmem, hid⟩ := List.mem_filter.mp hf
    right
    simp only [endedByServer, List.any_eq_true]
    exact ⟨frame, hmem, by simp [hm, eq_of_beq hid]⟩

end Scheduler

section Session
variable {s t : H2Session} {frame : Frame} {id : UInt32}

def Awaited (s : H2Session) (header : FrameHeader) (id : UInt32) : Prop :=
  (s.outbound.streams.lookup id).isSome ∨ header.type = .headers ∧ header.streamId = id

/-- After a frame, the streams are registered that it has not finished. -/
structure Registers (s : H2Session) (frame : Frame) (t : H2Session) (status : ProtocolFeedStatus) :
    Prop where
  running : Running t.outbound
  sent : s.sent <+: t.sent
  kept : ∀ id, Awaited s frame.header id → (t.outbound.streams.lookup id).isSome ∨
    endedByServer id t.sent = true ∨ resetByPeer id [frame] = true ∨ closesConnection status = true

theorem endedByServer_append (id : UInt32) :
    endedByServer id (a ++ b) = (endedByServer id a || endedByServer id b) := List.any_append

theorem Awaited.registered (h : Awaited s header id)
    (ht : header.type ≠ .headers) : (s.outbound.streams.lookup id).isSome :=
  h.resolve_right (fun ho => ht ho.1)

/-- `OpenStream` registers the new stream and keeps the others. -/
theorem Heads.registers (h : Heads s frame.header t stream) (hs : Running s.outbound) :
    Running t.outbound ∧ t.sent = s.sent ∧
      ∀ id, Awaited s frame.header id → (t.outbound.streams.lookup id).isSome := by
  cases h with
  | opens type odd newer fresh room =>
    have hp : s.outbound.openStream frame.header.streamId =
        (s.outbound.perform (.openStream frame.header.streamId)).scheduler := rfl
    refine ⟨?_, rfl, ?_⟩
    · dsimp only
      rw [hp]
      exact hs.perform (by simp)
    · intro id ha
      dsimp only
      rcases ha with hr | ⟨-, rfl⟩
      · rw [hp]
        refine (hs.performs ⟨by simp, by simp⟩ (by simp) hr).resolve_right ?_
        simp [endedByServer, H2OutboundScheduler.perform]
      · exact hs.registers _
  | continues type =>
    refine ⟨hs, rfl, fun id ha => ha.registered ?_⟩
    rw [type]
    decide

theorem Assembles.registers (h : Assembles s frame t stream) (hs : Running s.outbound) :
    Running t.outbound ∧ t.sent = s.sent ∧
      ∀ id, Awaited s frame.header id → (t.outbound.streams.lookup id).isSome := by
  cases h with
  | fragment heads cut =>
    have hh := Heads.registers heads hs
    exact hh

/-- A step after which every stream is still registered. -/
theorem Registers.all (hr : Running t.outbound) (hs : s.sent <+: t.sent)
    (hk : ∀ id, Awaited s frame.header id → (t.outbound.streams.lookup id).isSome) :
    Registers s frame t status :=
  ⟨hr, hs, fun id ha => Or.inl (hk id ha)⟩

/-- A step after which every stream but one is registered. -/
theorem Registers.except (hr : Running t.outbound)
    (hout : u.outbound = t.outbound.closeStream frame.header.streamId) (hs : s.sent <+: u.sent)
    (hk : ∀ id, Awaited s frame.header id → (t.outbound.streams.lookup id).isSome)
    (he : endedByServer frame.header.streamId u.sent = true ∨
      resetByPeer frame.header.streamId [frame] = true ∨ closesConnection status = true) :
    Registers s frame u status := by
  have hp : t.outbound.closeStream frame.header.streamId =
      (t.outbound.perform (.closeStream frame.header.streamId)).scheduler := rfl
  refine ⟨?_, hs, ?_⟩
  · rw [hout, hp]
    exact hr.perform (by simp)
  · intro id ha
    by_cases hid : id = frame.header.streamId
    · rw [hid]
      exact Or.inr he
    · left
      rw [hout]
      exact (congrArg Option.isSome (AList.lookup_erase_ne hid)).trans (hk id ha)

theorem Dispatches.registers (h : Dispatches t stream request dispatch u status)
    (hkey : stream.streamId = frame.header.streamId) (hr : Running t.outbound)
    (hs : s.sent <+: t.sent)
    (hk : ∀ id, Awaited s frame.header id → (t.outbound.streams.lookup id).isSome) :
    Registers s frame u status := by
  cases h with
  | accepted => exact .all hr hs hk
  | saturated => exact .except hr (hkey ▸ rfl) hs hk (Or.inr (Or.inr rfl))
  | stopped => exact .except hr (hkey ▸ rfl) hs hk (Or.inr (Or.inr rfl))

/-- A WINDOW_UPDATE finds the response of its stream submitted. -/
def Submitted (s : H2Session) (header : FrameHeader) : Prop :=
  header.type = .windowUpdate →
    (s.outbound.streams.lookup header.streamId).all StreamOutput.responseSubmitted

theorem Served.registers (h : Served s frame.header t) (hs : Running s.outbound)
    (hsu : Submitted s frame.header) (ht : frame.header.type ≠ .headers) :
    Registers s frame t .ready := by
  obtain ⟨answers, -, hout⟩ := h.outbound
  rcases hout with ⟨hsa, hse⟩ | ⟨op, hop, hout, hse⟩
  · refine .all (hsa ▸ hs) (hse ▸ List.prefix_append _ _) (fun id ha => ?_)
    rw [hsa]
    exact ha.registered ht
  · have hc : ∀ id, op ≠ .closeStream id ∧ op ≠ .close := by
      intro id
      constructor <;> rintro rfl <;> cases hop
    refine ⟨hout ▸ hs.perform (hc 0).2, ?_, ?_⟩
    · rw [hse, List.append_assoc]
      exact List.prefix_append _ _
    · intro id ha
      have hu : ∀ increment, op = .updateStreamWindow id increment →
          (s.outbound.streams.lookup id).all StreamOutput.responseSubmitted := by
        rintro increment rfl
        simp only [peerOperation, Bool.and_eq_true, beq_iff_eq] at hop
        rw [hop.2]
        exact hsu hop.1
      rw [hout, hse, endedByServer_append, endedByServer_append]
      rcases hs.performs (hc id) hu (ha.registered ht) with hk | he
      · exact Or.inl hk
      · simp [he]

theorem Delivered.registers (h : Delivered s frame dispatch t status)
    (hs : Running s.outbound) (hso : Sound s) (hst : s.state = .connected)
    (ha : Admitted s frame.header) (hf : exceedsBodyLimit s frame = false) :
    Registers s frame t status := by
  have hk : ∀ id, Awaited s frame.header id → (s.outbound.streams.lookup id).isSome := by
    intro id haw
    apply haw.registered
    rw [h.type]
    decide
  cases h with
  | overrun delivers beyond =>
    rw [(exceedsBodyLimit_of_overrun hso hst ha delivers).mpr beyond] at hf
    cases hf
  | stored => exact .all hs (List.prefix_append _ _) hk
  | completed delivers fits ended asked dispatches =>
    exact Dispatches.registers dispatches (hso.entry _ _ delivers.found).key hs
      (List.prefix_append _ _) hk

/-- What a frame takes out of the scheduler, it has finished. -/
theorem Handled.registers (h : Handled s frame dispatch t status)
    (hst : status ≠ .protocolError) (hs : Running s.outbound) (hso : Sound s)
    (hsta : s.state = .connected) (ha : Admitted s frame.header)
    (hsu : Submitted s frame.header) (hf : exceedsBodyLimit s frame = false) :
    Registers s frame t status := by
  cases h with
  | failed => exact absurd rfl hst
  | served served other => exact Served.registers served hs hsu other.1
  | reset type =>
    refine .except hs rfl List.prefix_rfl (fun id haw => haw.registered ?_) (Or.inr (Or.inl ?_))
    · rw [type]
      decide
    · simp [resetByPeer, type]
  | partly assembles more =>
    obtain ⟨hr, hse, hk⟩ := Assembles.registers assembles hs
    exact .all hr (hse ▸ List.prefix_rfl) hk
  | @garbled t stream decoder thrown assembles last decode =>
    obtain ⟨hr, hse, hk⟩ := Assembles.registers assembles hs
    refine .except hr rfl ?_ hk (Or.inl ?_)
    · rw [← hse]
      exact List.prefix_append _ _
    · simp [endedByServer, H2Session.closeStream, H2Session.sendRstStream, H2Session.send]
  | headed assembles last decode assembled complete unended =>
    obtain ⟨hr, hse, hk⟩ := Assembles.registers assembles hs
    exact .all hr (hse ▸ List.prefix_rfl) hk
  | asked assembles last decode assembled complete ended dispatches =>
    obtain ⟨hr, hse, hk⟩ := Assembles.registers assembles hs
    exact Dispatches.registers dispatches (assembles.found hso).key hr (hse ▸ List.prefix_rfl) hk
  | delivered delivered => exact Delivered.registers delivered hs hso hsta ha hf

end Session

section Runs
structure Carried (event : Runs.Event H2Session Input) : Prop where
  running : Running (event.after handle).outbound
  sent : event.before.sent <+: (event.after handle).sent
  limit : (event.after handle).config.maximumConcurrentStreams =
    event.before.config.maximumConcurrentStreams
  kept : ∀ id, (event.before.outbound.streams.lookup id).isSome ∨ openedStream event = some id →
    ((event.after handle).outbound.streams.lookup id).isSome ∨
      endedByServer id (event.after handle).sent = true ∨
      resetByPeer id (handledFrame event).toList = true ∨ asksToClose event = true

theorem Carried.idle (hr : Running event.before.outbound)
    (hout : (event.after handle).outbound = event.before.outbound)
    (hs : event.before.sent <+: (event.after handle).sent)
    (hc : (event.after handle).config = event.before.config)
    (ho : openedStream event = none) : Carried event := by
  refine ⟨hout ▸ hr, hs, by rw [hc], ?_⟩
  intro id hid
  left
  rw [hout]
  exact hid.resolve_right (by simp [ho])

theorem carried_frame (hh : Healthy s) (hru : Running s.outbound)
    (hwi : withinLimit ⟨s, .frame frame order dispatch⟩)
    (hop : (s.handle (.frame frame order dispatch)).state ≠ .closed) :
    Carried ⟨s, .frame frame order dispatch⟩ := by
  by_cases hst : s.state = .connected
  · have hs := hh.sound hst
    obtain ⟨-, hsu, hfi⟩ := hwi hst
    have hre := receive_received hh frame order dispatch
    have hf : handledFrame ⟨s, .frame frame order dispatch⟩ = some frame := if_pos hst
    have hr : Registers s frame (s.receive frame order dispatch).1
          (s.receive frame order dispatch).2 ∧
        ∃ size, (s.receive frame order dispatch).1.config =
          { s.config with maximumHeaderListSize := size } := by
      change (s.receive frame order dispatch).1.state ≠ .closed at hop
      generalize (s.receive frame order dispatch).1 = t at hre hop ⊢
      generalize (s.receive frame order dispatch).2 = status at hre ⊢
      cases hre with
      | ignored unconnected => exact absurd hst unconnected
      | handled connected admitted handled well =>
        exact ⟨Handled.registers handled well hru hs connected admitted hsu hfi,
          Handled.config hs handled well⟩
      | failed => exact absurd rfl hop
    obtain ⟨hr, size, hc⟩ := hr
    have hl : (s.receive frame order dispatch).1.config.maximumConcurrentStreams =
        s.config.maximumConcurrentStreams := by
      rw [hc]
    refine ⟨hr.running, hr.sent, hl, ?_⟩
    intro id hid
    rw [hf]
    apply hr.kept id
    refine hid.imp_right (fun ho => ?_)
    simp only [openedStream, Option.ite_none_right_eq_some, Option.some.injEq] at ho
    exact ⟨ho.1.1, ho.2⟩
  · have hsa := handle_unconnected hst frame order dispatch
    refine .idle hru (congrArg outbound hsa) ?_ (congrArg config hsa) ?_
    · exact (congrArg sent hsa) ▸ List.prefix_rfl
    · simp [openedStream, hst]

theorem carried (hh : Healthy event.before) (hr : Running event.before.outbound)
    (hwi : withinLimit event) (ho : (event.after handle).state ≠ .closed) :
    Carried event := by
  obtain ⟨s, input⟩ := event
  cases input with
  | frame frame order dispatch => exact carried_frame hh hr hwi ho
  | overflow =>
    simp only [Runs.Event.after, H2Session.handle] at ho
    split at ho
    · rename_i hc
      exact absurd hc ho
    · exact absurd rfl ho
  | respond streamId response =>
    have hop : Operation.submitResponse streamId response ≠ .close := by simp
    refine ⟨hr.perform hop, List.prefix_append _ _, rfl, ?_⟩
    intro id hid
    have hre := hid.resolve_right (by simp [openedStream])
    rcases hr.performs ⟨by simp, hop⟩ (by simp) hre with hk | he
    · exact Or.inl hk
    · refine Or.inr (Or.inl ?_)
      exact (endedByServer_append id).trans (Bool.or_eq_true_iff.mpr (Or.inr he))
  | sendGoaway errorCode =>
    have hs : (s.handle (.sendGoaway errorCode)).outbound = s.outbound ∧
        s.sent <+: (s.handle (.sendGoaway errorCode)).sent ∧
        (s.handle (.sendGoaway errorCode)).config = s.config := by
      simp only [H2Session.handle]
      split
      · exact ⟨rfl, List.prefix_rfl, rfl⟩
      · exact ⟨rfl, List.prefix_append _ _, rfl⟩
    exact .idle hr hs.1 hs.2.1 hs.2.2 rfl
  | close => exact absurd rfl ho

theorem endedByServer_mono {id : UInt32} (h : a <+: b)
    (he : endedByServer id a = true) : endedByServer id b = true := by
  obtain ⟨rest, rfl⟩ := h
  rw [endedByServer_append, he, Bool.true_or]

theorem resetByPeer_append (id : UInt32) :
    resetByPeer id (a ++ b) = (resetByPeer id a || resetByPeer id b) := List.any_append

def pending (log : List (Runs.Event H2Session Input)) (s : H2Session) (id : UInt32) : Bool :=
  !endedByServer id s.sent && !resetByPeer id (handledFrames log)

theorem unfinished_eq (h : connectionClosed log s = false) :
    unfinished log s = (openedStreams log).filter (pending log s) := by
  rw [unfinished, h]
  rfl

theorem unfinished_nil (h : connectionClosed log s = true) : unfinished log s = [] := by
  rw [unfinished, h]
  rfl

/-- What is pending after an input was pending before it. -/
theorem Carried.pending_before {id : UInt32} (h : Carried event)
    (hp : pending (log ++ [event]) (event.after handle) id = true) :
    pending log event.before id = true := by
  simp only [pending, handledFrames_append, resetByPeer_append, Bool.and_eq_true,
    Bool.not_eq_true', Bool.or_eq_false_iff] at hp ⊢
  refine ⟨?_, hp.2.1⟩
  rw [← Bool.not_eq_true]
  intro he
  rw [endedByServer_mono h.sent he] at hp
  cases hp.1

section

variable (h : Carried event) (hb : connectionClosed log event.before = false) (ha :
  connectionClosed (log ++ [event]) (event.after handle) = false)
include h hb ha

/-- An input adds the stream that it opens, and no other. -/
theorem Carried.unfinished_sublist : (unfinished (log ++ [event]) (event.after handle)).Sublist
      (unfinished log event.before ++ (openedStream event).toList) := by
  rw [unfinished_eq hb, unfinished_eq ha, openedStreams_append, List.filter_append]
  exact (List.monotone_filter_right _ (fun id => h.pending_before)).append List.filter_sublist

/-- What is pending after an input is still registered. -/
theorem Carried.registered (hr : ∀ id ∈ unfinished log event.before,
      (event.before.outbound.streams.lookup id).isSome) :
    ∀ id ∈ unfinished (log ++ [event]) (event.after handle),
      ((event.after handle).outbound.streams.lookup id).isSome := by
  intro id hid
  have haw : (event.before.outbound.streams.lookup id).isSome ∨ openedStream event = some id := by
    rcases List.mem_append.mp ((h.unfinished_sublist hb ha).subset hid) with hid | hid
    · exact Or.inl (hr id hid)
    · exact Or.inr (Option.mem_toList.mp hid)
  rw [unfinished_eq ha, List.mem_filter] at hid
  simp only [pending, handledFrames_append, resetByPeer_append, Bool.and_eq_true,
    Bool.not_eq_true', Bool.or_eq_false_iff] at hid
  have hq : asksToClose event = false := by
    simp only [connectionClosed, List.any_append, Bool.or_eq_false_iff] at ha
    simpa using ha.2.2
  rcases h.kept id haw with hk | he | hre | hask
  · exact hk
  · rw [hid.2.1] at he
    cases he
  · rw [hid.2.2.2] at hre
    cases hre
  · rw [hq] at hask
    cases hask

end

structure Limited (limit : Nat) (log : List (Runs.Event H2Session Input)) (s : H2Session) :
    Prop where
  healthy : Healthy s
  opened : Opened log s
  running : s.state ≠ .closed → Running s.outbound ∧ s.config.maximumConcurrentStreams = limit
  registered : ∀ id ∈ unfinished log s, (s.outbound.streams.lookup id).isSome
  bounded : (unfinished log s).length ≤ limit

theorem Limited.length_le (h : Limited limit log s)
    (hkeys : s.outbound.streams.keys ⊆ s.streams.keys) :
    (unfinished log s).length ≤ s.streams.entries.length := by
  cases hc : connectionClosed log s with
  | true => simp [unfinished_nil hc]
  | false =>
    have hn : (unfinished log s).Nodup := by
      rw [unfinished_eq hc]
      exact (h.opened.increasing.imp UInt32.ne_of_lt).filter _
    have hk : unfinished log s ⊆ s.streams.keys := by
      intro id hid
      exact hkeys (AList.mem_keys.mp (AList.lookup_isSome.mp (h.registered id hid)))
    have hl := (List.subperm_of_subset hn hk).length_le
    simpa [AList.keys, List.keys] using hl

/-- The frame that opens a stream finds no stream in the scheduler alone. -/
theorem keys_of_opened {id : UInt32} (hwi : withinLimit event) (h : openedStream event = some id) :
    event.before.outbound.streams.keys ⊆ event.before.streams.keys := by
  obtain ⟨s, input⟩ := event
  cases input with
  | frame frame order dispatch =>
    simp only [openedStream, Option.ite_none_right_eq_some] at h
    exact (hwi h.1.2.1).1 h.1.1
  | _ => cases h

theorem Limited.next (h : Limited limit log event.before) (hwi : withinLimit event) :
    Limited limit (log ++ [event]) (event.after handle) := by
  have hl : (event.after handle).state ≠ .closed → event.before.state ≠ .closed :=
    fun hop => ((handle_steps h.healthy event.input).last_le h.healthy hop).1
  have hc : (event.after handle).state ≠ .closed → Carried event :=
    fun hop => carried h.healthy (h.running (hl hop)).1 hwi hop
  have hr : (event.after handle).state ≠ .closed → Running (event.after handle).outbound ∧
      (event.after handle).config.maximumConcurrentStreams = limit :=
    fun hop => ⟨(hc hop).running, (hc hop).limit.trans (h.running (hl hop)).2⟩
  have hh := handle_healthy h.healthy event.input
  cases ha : connectionClosed (log ++ [event]) (event.after handle) with
  | true =>
    refine ⟨hh, h.opened.next h.healthy, hr, ?_, ?_⟩ <;> rw [unfinished_nil ha] <;>
      simp
  | false =>
    obtain ⟨hop, hq⟩ : (event.after handle).state ≠ .closed ∧ log.any asksToClose = false := by
      simp only [connectionClosed, List.any_append, Bool.or_eq_false_iff, beq_eq_false_iff_ne] at ha
      exact ⟨ha.1, ha.2.1⟩
    have hb : connectionClosed log event.before = false := by
      simp [connectionClosed, hl hop, hq]
    have hs := ((hc hop).unfinished_sublist hb ha).length_le
    refine ⟨hh, h.opened.next h.healthy, hr, (hc hop).registered hb ha h.registered, ?_⟩
    cases ho : openedStream event with
    | none =>
      simp only [ho, Option.toList_none, List.append_nil] at hs
      exact hs.trans h.bounded
    | some id =>
      -- `GetOrCreateStream` has found room in the session
      obtain ⟨-, -, -, -, -, hro⟩ := openedStream_eq_some h.healthy ho
      have he := h.length_le (keys_of_opened hwi ho)
      rw [(h.running (hl hop)).2] at hro
      simp only [ho, Option.toList_some, List.length_append, List.length_singleton] at hs
      omega

end Runs

/-- If all frames stay within the limit, there are no more unfinished streams than advertised. -/
theorem stream_limit_kept {connectionId : Nat} {config : H2ConnectionConfig} {s : H2Session}
    (h : H2Session.create connectionId config = .ok s) {inputs : List Input}
    (hwithin : ∀ event ∈ Runs.history handle s.acceptPreface inputs, withinLimit event)
    {first : List Input} (hfirst : first <+: inputs) :
    (unfinished (Runs.history handle s.acceptPreface first)
      (Runs.final handle s.acceptPreface first)).length ≤ config.maximumConcurrentStreams := by
  obtain ⟨haccepted, rfl⟩ := of_create h
  have hstart : Limited config.maximumConcurrentStreams []
      (created connectionId config haccepted).acceptPreface := by
    refine ⟨created_healthy connectionId haccepted, ⟨?_, ?_, List.Pairwise.nil⟩,
      fun _ => ⟨⟨rfl, ?_⟩, rfl⟩, ?_, Nat.zero_le _⟩
    · intro id hid
      cases hid
    · intro _ id hid
      cases hid
    · intro id stream hl
      cases hl
    · intro id hid
      cases hid
  refine (Runs.run_induction hstart (fun log event hlimited => hlimited.next) ?_).bounded
  intro event hevent
  obtain ⟨rest, rfl⟩ := hfirst
  apply hwithin
  rw [Runs.history_append]
  exact List.mem_append_left _ hevent

def oneByOne : List Input :=
  [arrives settingsFrame, arrives (requestFrame 1 true), .respond 1 { body := [1, 2] },
    arrives (requestFrame 3 true)]

theorem stream_limit_kept_one_by_one :
    let config : H2ConnectionConfig := { maximumConcurrentStreams := 1 }
    let s := (created 1 config (by decide)).acceptPreface
    unfinished (Runs.history handle s oneByOne) (Runs.final handle s oneByOne) = [3] ∧
      (unfinished (Runs.history handle s oneByOne) (Runs.final handle s oneByOne)).length ≤ 1 := by
  refine ⟨by decide +kernel, ?_⟩
  exact stream_limit_kept (create_eq 1 (by decide)) (by decide +kernel) List.prefix_rfl

/-- With a limit of one, the session forgets the first request when it is dispatched. -/
theorem stream_limit_exceeded :
    let config : H2ConnectionConfig := { maximumConcurrentStreams := 1 }
    let s := (created 1 config (by decide)).acceptPreface
    let inputs := [arrives settingsFrame, arrives (requestFrame 1 true), arrives (requestFrame 3 true)]
    H2Session.create 1 config = .ok (created 1 config (by decide)) ∧
      (Runs.final handle s inputs).state = .connected ∧
      unfinished (Runs.history handle s inputs) (Runs.final handle s inputs) = [1, 3] := by
  refine ⟨create_eq 1 _, ?_, ?_⟩ <;> decide +kernel

end IocpRuntime.Proofs.StreamLimit
