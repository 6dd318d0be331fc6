import IocpRuntime.Proofs.ResponseDelivery

namespace IocpRuntime.Proofs.WireOrder
open Lib Lib.Relay Http Http2 OutboundFrames OutboundStreams ResponseDelivery
open H2OutboundScheduler (Operation Event Shared Action emitted)

def isContinuation (frame : Frame) : Bool := frame.header.type == FrameType.continuation

def isHeaderBlock (frame : Frame) : Bool :=
  frame.header.type == FrameType.headers || isContinuation frame

def leavesOpen (frame : Frame) : Bool := isHeaderBlock frame && !frame.header.has .endHeaders

def sameStream (a b : Frame) : Prop := a.header.streamId = b.header.streamId

/-- A legal order of frames on the wire. -/
structure Legal (log : List Event) (wire : List Frame) : Prop where
  /-- header blocks leave in the order in which the encoder produced them -/
  blocks_in_order : wire.filter isHeaderBlock <+: (emitted log).filter isHeaderBlock
  /-- HEADERS and its CONTINUATION frames are contiguous -/
  contiguous : wire.IsChain (Relay.Follows leavesOpen isContinuation sameStream) ∧
    ∀ frame, wire.head? = some frame → isContinuation frame = false
  /-- HEADERS comes before the stream's DATA -/
  headers_first : ∀ streamId, (log.map Event.operation).count (.openStream streamId) ≤ 1 →
    ∀ before frame after, framesOf streamId wire = before ++ frame :: after →
      isData frame = true → ∃ first ∈ before, first.header.type = .headers
  /-- the frames of a stream leave in the order in which they were computed -/
  streams_in_order : ∀ streamId, framesOf streamId wire <+: framesOf streamId (emitted log)
  /-- the stream's DATA comes in body order -/
  body_order : ∀ streamId, (log.map Event.operation).count (.openStream streamId) ≤ 1 →
    dataPayload (framesOf streamId wire) <+: submittedBody streamId log

/-- No call that locked earlier has a frame of the stream, or a header block frame, left. -/
def InTurn (s : Shared) : Action → Prop
  | .call _ _ => True
  | .send thread =>
    match pick thread s.calls with
    | none => True
    | some p =>
      (isHeaderBlock p.message = true → (unsent p.before).filter isHeaderBlock = []) ∧
      framesOf p.message.header.streamId (unsent p.before) = [] ∧
      ∀ call ∈ p.before ++ p.after, ∀ m ∈ call.left.head?, isContinuation m = false

def InTurnRun : Shared → List Action → Prop
  | _, [] => True
  | s, action :: actions =>
    InTurn s action ∧
      match s.step action with
      | none => True
      | some s => InTurnRun s actions

instance (s : Shared) : (action : Action) → Decidable (InTurn s action)
  | .call _ _ => isTrue trivial
  | .send thread =>
    match h : pick thread s.calls with
    | none => isTrue (by simp [InTurn, h])
    | some p =>
      decidable_of_iff
        ((isHeaderBlock p.message = true → (unsent p.before).filter isHeaderBlock = []) ∧
          framesOf p.message.header.streamId (unsent p.before) = [] ∧
          ∀ call ∈ p.before ++ p.after, ∀ m ∈ call.left.head?, isContinuation m = false)
        (by simp only [InTurn, h])

instance decidableInTurnRun : (s : Shared) → (actions : List Action) →
    Decidable (InTurnRun s actions)
  | _, [] => isTrue trivial
  | s, action :: actions =>
    match h : s.step action with
    | none => decidable_of_iff (InTurn s action) (by simp [InTurnRun, h])
    | some t =>
      have := decidableInTurnRun t actions
      decidable_of_iff (InTurn s action ∧ InTurnRun t actions) (by simp [InTurnRun, h])

theorem data_closed (h : isData frame = true) :
    leavesOpen frame = false ∧ isContinuation frame = false := by
  have ht : frame.header.type = FrameType.data := by simpa [isData] using h
  constructor
  · unfold leavesOpen isHeaderBlock isContinuation
    rw [ht]
    rfl
  · unfold isContinuation
    rw [ht]
    rfl

/-- Frames that are all DATA hold no block. -/
theorem whole_of_data (h : ∀ frame ∈ frames, isData frame = true) :
    Whole leavesOpen isContinuation sameStream frames := by
  induction frames with
  | nil => exact ⟨.nil, (fun m hm => by cases hm), (fun m hm => by cases hm)⟩
  | cons frame frames ih =>
    have hr := ih (fun f hf => h f (List.mem_cons_of_mem _ hf))
    have hown := data_closed (h frame List.mem_cons_self)
    refine ⟨List.isChain_cons.mpr ⟨?_, hr.chain⟩, ?_, ?_⟩
    · intro next hn
      refine ⟨hown.1.trans (hr.first next hn).symm, fun ho => ?_⟩
      rw [hown.1] at ho
      cases ho
    · intro m hm
      cases hm
      exact hown.2
    · intro m hm
      exact (data_closed (h m (List.mem_of_getLast? hm))).1

theorem whole_of_block (hb : HeaderRun streamId endStream type block)
    (hty : type = .headers ∨ type = .continuation)
    (hda : ∀ frame ∈ data, isData frame = true) :
    Remains leavesOpen isContinuation sameStream (block ++ data) ∧
      ∀ m, (block ++ data).head? = some m →
        m.header.type = type ∧ m.header.streamId = streamId := by
  have hh : ∀ frame : Frame, frame.header.type = .headers ∨
      frame.header.type = .continuation → isHeaderBlock frame = true := by
    intro frame hf
    unfold isHeaderBlock isContinuation
    rcases hf with hf | hf <;> simp [hf]
  have hwh := whole_of_data hda
  induction hb with
  | @last type frame typed stream complete marked =>
    have hc : leavesOpen frame = false := by simp [leavesOpen, complete]
    refine ⟨⟨List.isChain_cons.mpr ⟨?_, hwh.chain⟩, ?_⟩, ?_⟩
    · intro next hn
      refine ⟨hc.trans (hwh.first next hn).symm, fun ho => ?_⟩
      rw [hc] at ho
      cases ho
    · intro m hm
      cases hd : data with
      | nil =>
        rw [hd] at hm
        cases hm
        exact hc
      | cons head tail =>
        rw [hd, List.cons_append, List.nil_append, List.getLast?_cons_cons] at hm
        exact hwh.last m (by rw [hd]; exact hm)
    · intro m hm
      cases hm
      exact ⟨typed, stream⟩
  | @more type frame frames typed stream incomplete unmarked rest ih =>
    obtain ⟨hre, hhe⟩ := ih (Or.inr rfl)
    have ho : leavesOpen frame = true := by
      simp [leavesOpen, incomplete, hh frame (typed ▸ hty)]
    refine ⟨⟨List.isChain_cons.mpr ⟨?_, hre.chain⟩, ?_⟩, ?_⟩
    · intro next hn
      obtain ⟨ht, hs⟩ := hhe next hn
      refine ⟨?_, fun _ => stream.trans hs.symm⟩
      rw [ho]
      simp [isContinuation, ht]
    · intro m hm
      apply hre.last
      cases hr : frames ++ data with
      | nil =>
        have hnil : frames = [] := (List.append_eq_nil_iff.mp hr).1
        rw [hnil] at rest
        cases rest
      | cons head tail =>
        rw [List.cons_append, hr, List.getLast?_cons_cons] at hm
        exact hm
    · intro m hm
      cases hm
      exact ⟨typed, stream⟩

theorem outcome_whole (s : H2OutboundScheduler) (op : Operation) :
    Whole leavesOpen isContinuation sameStream (s.perform op).frames := by
  rcases outcome_frames with hd | ⟨streamId, endStream, block, data, heq, hb, hd⟩
  · exact whole_of_data hd
  · obtain ⟨hr, hh⟩ := whole_of_block hb (Or.inl rfl) hd
    rw [heq]
    refine ⟨hr.chain, ?_, hr.last⟩
    intro m hm
    rw [isContinuation, (hh m hm).1]
    rfl

/-- What holds between the steps of a run in turn. -/
structure Ordered (first : H2OutboundScheduler) (s : Shared) : Prop where
  history : ∃ ops, s.log = first.history ops ∧ s.scheduler = first.final ops
  blocks : InOrder isHeaderBlock (emitted s.log) s.wire s.calls
  streams : ∀ streamId, InOrder (fun frame => frame.header.streamId == streamId)
    (emitted s.log) s.wire s.calls
  whole : InBlocks leavesOpen isContinuation sameStream s.wire s.calls

theorem ordered_start : Ordered first { scheduler := first } :=
  ⟨⟨[], rfl, rfl⟩, .start, fun _ => .start, .start⟩

theorem ordered_step (h : Ordered first s) (ht : InTurn s action) (hste : s.step action = some t) :
    Ordered first t := by
  obtain ⟨⟨ops, hlog, hs⟩, hb, hst, hwh⟩ := h
  cases action with
  | call thread operation =>
    simp only [Shared.step] at hste
    split at hste
    · cases hste
    · cases hste
      refine ⟨⟨ops ++ [operation], ?_, ?_⟩, ?_, ?_, hwh.enter (outcome_whole _ _)⟩
      · rw [H2OutboundScheduler.history_append, ← hlog, ← hs]
        rfl
      · rw [H2OutboundScheduler.final_append, ← hs]
        rfl
      · rw [H2OutboundScheduler.emitted_append]
        simpa [emitted] using hb.enter
      · intro streamId
        rw [H2OutboundScheduler.emitted_append]
        simpa [emitted] using (hst streamId).enter
  | send thread =>
    simp only [Shared.step] at hste
    obtain ⟨p, hp, rfl⟩ := Option.map_eq_some_iff.mp hste
    simp only [InTurn, hp] at ht
    obtain ⟨hh, hstr, hm⟩ := ht
    refine ⟨⟨ops, hlog, hs⟩, hb.send hp hh, ?_, hwh.send hp hm⟩
    intro streamId
    refine (hst streamId).send hp ?_
    intro hown
    rw [← eq_of_beq hown]
    exact hstr

theorem ordered_run
    (h : Ordered first s) (ht : InTurnRun s actions) (hrun : s.run actions = some t) :
    Ordered first t := by
  induction actions generalizing s with
  | nil =>
    cases hrun
    exact h
  | cons action actions ih =>
    obtain ⟨hf, hr⟩ := ht
    rw [Shared.run] at hrun
    obtain ⟨mid, hmid, hrun⟩ := Option.bind_eq_some_iff.mp hrun
    rw [hmid] at hr
    exact ih (ordered_step h hf hmid) hr hrun

theorem headers_in (h : HeaderRun streamId endStream .headers block) :
    ∃ first ∈ block, first.header.type = .headers := by
  cases h with
  | last typed _ _ _ => exact ⟨_, List.mem_cons_self, typed⟩
  | more typed _ _ _ _ => exact ⟨_, List.mem_cons_self, typed⟩

theorem legal_of_ordered (hs : Created first) (h : Ordered first s) : Legal s.log s.wire := by
  obtain ⟨⟨ops, hlog, -⟩, hblo, hst, hwh⟩ := h
  have hsto : ∀ streamId, (s.log.map Event.operation).count (.openStream streamId) ≤ 1 →
      Story streamId (ops.any (· == .openStream streamId)) (acceptedResponses streamId s.log)
        (framesOf streamId (emitted s.log)) ((first.final ops).streams.lookup streamId) := by
    intro streamId ho
    rw [hlog, H2OutboundScheduler.history_operations] at ho
    rw [hlog]
    exact story_of_run hs ho
  have hsent : ∀ streamId, framesOf streamId s.wire <+: framesOf streamId (emitted s.log) :=
    fun streamId => (hst streamId).sent_first
  refine ⟨hblo.sent_first, ⟨hwh.chain, hwh.first⟩, ?_, hsent, ?_⟩
  · intro streamId ho before frame after hcut hd
    obtain ⟨tail, ht⟩ := hsent streamId
    rw [hcut] at ht
    rcases (hsto streamId ho).frames_eq with ⟨-, hnil⟩ |
      ⟨response, block, data, stop, -, hf, hbl, hrun⟩
    · rw [hnil] at ht
      simp at ht
    · rw [hf, List.append_assoc, List.cons_append] at ht
      rcases cut_frames ht.symm with ⟨rest, hb, -⟩ | ⟨more, hb, -⟩
      · have hmem : frame ∈ block := by simp [hb]
        rw [hbl.no_data (by decide) frame hmem] at hd
        cases hd
      · obtain ⟨head, hmem, hty⟩ := headers_in hbl
        exact ⟨head, by rw [hb]; exact List.mem_append_left _ hmem, hty⟩
  · intro streamId ho
    obtain ⟨tail, ht⟩ := hsent streamId
    have hp := (hsto streamId ho).sent_part
    rw [← ht, dataPayload_append] at hp
    exact (List.prefix_append _ _).trans hp

/-- In every run whose frames are all handed over in turn, the wire order is legal
in every state reached. -/
theorem wire_in_order {first : H2OutboundScheduler} (hs : Created first) (actions : List Action)
    (hturn : InTurnRun { scheduler := first } actions) {t : Shared}
    (hrun : Shared.run { scheduler := first } actions = some t) : Legal t.log t.wire :=
  legal_of_ordered hs (ordered_run ordered_start hturn hrun)

def indexed : HttpResponse := { headers := [⟨octets "x", octets "1"⟩] }

def twoHandlers : List Action :=
  [.call 0 (.openStream 1), .call 0 (.openStream 3),
    .call 1 (.submitResponse 1 indexed), .call 2 (.submitResponse 3 indexed)]

theorem wire_in_order_two_handlers :
    InTurnRun { scheduler := defaults } (twoHandlers ++ [.send 1, .send 2]) ∧
    ∃ t, Shared.run { scheduler := defaults } (twoHandlers ++ [.send 1, .send 2]) = some t ∧
      t.wire.length = 2 ∧ Legal t.log t.wire := by
  have hturn : InTurnRun { scheduler := defaults } (twoHandlers ++ [.send 1, .send 2]) := by
    decide +kernel
  have hlen : (Shared.run { scheduler := defaults } (twoHandlers ++ [.send 1, .send 2])).map
      (fun t => t.wire.length) = some 2 := by
    decide +kernel
  obtain ⟨t, hrun, ht⟩ := Option.map_eq_some_iff.mp hlen
  exact ⟨hturn, t, hrun, ht, wire_in_order defaults_created _ hturn hrun⟩

/-- The block that refers to the table entry overtakes the block that creates it. -/
theorem wire_order_broken : Created defaults ∧
    ∃ t, Shared.run { scheduler := defaults } (twoHandlers ++ [.send 2]) = some t ∧
      ¬ Legal t.log t.wire := by
  have hbad : (Shared.run { scheduler := defaults } (twoHandlers ++ [.send 2])).map
      (fun t => decide (t.wire.filter isHeaderBlock <+: (emitted t.log).filter isHeaderBlock)) =
      some false := by
    decide +kernel
  obtain ⟨t, hrun, ht⟩ := Option.map_eq_some_iff.mp hbad
  exact ⟨defaults_created, t, hrun,
    fun legal => absurd legal.blocks_in_order (of_decide_eq_false ht)⟩

end IocpRuntime.Proofs.WireOrder
