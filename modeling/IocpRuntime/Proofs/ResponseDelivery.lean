import Mathlib.Data.List.Induction
import IocpRuntime.Proofs.OutboundStreams

namespace IocpRuntime.Proofs.ResponseDelivery
open Lib Http Http2 OutboundFrames OutboundStreams
open H2OutboundScheduler (Operation Event emitted)

variable {frames block before after : List Frame}
  {entry : Option StreamOutput} {s : H2OutboundScheduler}

def acceptedResponse (streamId : UInt32) (event : Event) : Option HttpResponse :=
  match event.operation with
  | .submitResponse answered response =>
    if answered = streamId ∧ event.outcome.result = true then some response else none
  | _ => none

def acceptedResponses (streamId : UInt32) (log : List Event) : List HttpResponse :=
  log.filterMap (acceptedResponse streamId)

def submittedBody (streamId : UInt32) (log : List Event) : Octets :=
  ((acceptedResponses streamId log).head?.map HttpResponse.body).getD []

def frameSizeLimit : Nat := 16777215

/-- The states of one stream that is opened at most once, with the responses
accepted and the frames sent on it so far. -/
inductive Story (streamId : UInt32) :
    Bool → List HttpResponse → List Frame → Option StreamOutput → Prop
  | unopened : Story streamId false [] [] none
  | waiting (window : Int) : Story streamId true [] [] (some { window := window })
  | sending {response : HttpResponse} {block data : List Frame} {stop : Nat} (window : Int)
      (headers : HeaderRun streamId response.body.isEmpty .headers block)
      (run : DataRun streamId frameSizeLimit response.body 0 stop data)
      (unfinished : stop < response.body.length) :
      Story streamId true [response] (block ++ data) (some ⟨window, response.body, stop, true⟩)
  | unanswered : Story streamId true [] [] none
  | sent {response : HttpResponse} {block data : List Frame} {stop : Nat}
      (headers : HeaderRun streamId response.body.isEmpty .headers block)
      (run : DataRun streamId frameSizeLimit response.body 0 stop data) :
      Story streamId true [response] (block ++ data) none

theorem acceptedResponse_none (h : ∀ response, event.operation = .submitResponse streamId response →
      event.outcome.result = false) : acceptedResponse streamId event = none := by
  unfold acceptedResponse
  split
  · rename_i answered response hop
    split
    · rename_i hb
      obtain ⟨rfl, hr⟩ := hb
      rw [h response hop] at hr
      cases hr
    · rfl
  · rfl

theorem acceptedResponses_concat : acceptedResponses streamId (log ++ [event]) =
      acceptedResponses streamId log ++ (acceptedResponse streamId event).toList := by
  unfold acceptedResponses
  rw [List.filterMap_append]
  cases h : acceptedResponse streamId event <;> simp [h]

theorem Story.next (h : Story streamId opened accepted frames entry) (event : Event)
    (he : Effect streamId limit event.operation event.outcome.result entry new entry')
    (hl : limit ≤ frameSizeLimit)
    (ho : event.operation = .openStream streamId → opened = false) :
    Story streamId (opened || event.operation == .openStream streamId)
      (accepted ++ (acceptedResponse streamId event).toList) (frames ++ new) entry' := by
  generalize hop : event.operation = op at he ho
  generalize hres : event.outcome.result = result at he
  have hn : (∀ response, op = .submitResponse streamId response → result = false) →
      acceptedResponse streamId event = none := by
    intro hr
    apply acceptedResponse_none
    rw [hop, hres]
    exact hr
  cases he with
  | absent refused =>
    rw [hn refused]
    simp only [Option.toList_none, List.append_nil]
    cases h with
    | unopened =>
      by_cases hope : op = .openStream streamId
      · simp only [hope, beq_self_eq_true, Bool.or_true]
        exact .unanswered
      · rw [beq_eq_false_iff_ne.mpr hope]
        exact .unopened
    | unanswered => exact .unanswered
    | sent headers run => exact .sent headers run
  | opened window =>
    rw [hn (by simp)]
    simp only [Option.toList_none, List.append_nil]
    cases h with
    | unopened =>
      simp only [beq_self_eq_true, Bool.or_true]
      exact .waiting window
    | unanswered => cases ho rfl
    | sent headers run => cases ho rfl
  | @passed _ _ stream _ _ window _ refused _ flushed =>
    rw [hn refused]
    simp only [Option.toList_none, List.append_nil]
    cases h with
    | waiting first =>
      cases flushed with
      | untouched =>
        rw [List.append_nil]
        exact .waiting window
      | partly window' submitted => cases submitted
      | wholly submitted => cases submitted
    | sending first headers run unfinished =>
      cases flushed with
      | untouched =>
        rw [List.append_nil]
        exact .sending window headers run unfinished
      | partly window' submitted more short =>
        rw [List.append_assoc]
        have hle := more.stop_le (Nat.le_of_lt unfinished)
        exact .sending window' headers (run.append (more.mono hl)) (Nat.lt_of_le_of_ne hle short)
      | wholly submitted more =>
        rw [List.append_assoc]
        exact .sent headers (run.append (more.mono hl))
  | closed closing =>
    rw [hn (by rcases closing with rfl | rfl <;> simp)]
    simp only [Option.toList_none, List.append_nil]
    cases h with
    | waiting first => exact .unanswered
    | sending first headers run unfinished => exact .sent headers run
  | dropped increment waiting =>
    rw [hn (by simp)]
    simp only [Option.toList_none, List.append_nil]
    cases h with
    | waiting first => exact .unanswered
    | sending first headers run unfinished => cases waiting
  | @answered response stream block data stop window waiting headers run =>
    have ha : acceptedResponse streamId event = some response := by
      unfold acceptedResponse
      rw [hop]
      simp [hres]
    rw [ha]
    cases h with
    | waiting first =>
      simp only [Option.toList_some, List.nil_append, Bool.true_or]
      have hle := run.stop_le (Nat.zero_le _)
      split
      · exact .sent headers (run.mono hl)
      · rename_i hs
        exact .sending window headers (run.mono hl) (Nat.lt_of_le_of_ne hle hs)
    | sending first headers' run' unfinished => cases waiting

def Created (s : H2OutboundScheduler) : Prop :=
  ∃ window size options, H2OutboundScheduler.create window size options = .ok s

def defaults : H2OutboundScheduler where
  initialWindowSize := 65535
  maximumFrameSize := 16384
  maximumEncoderTableSize := 4096
  encoder := HpackCodec.create {}
  windowChecked := by decide
  frameSizeChecked := by decide
  encoderChecked := by decide

theorem defaults_created : Created defaults := ⟨65535, 16384, {}, rfl⟩

theorem created_streams (h : Created s) : s.streams = ∅ := by
  obtain ⟨window, size, options, hs⟩ := h
  unfold H2OutboundScheduler.create at hs
  split at hs
  · cases hs
    rfl
  · cases hs

theorem final_held (hs : Created s) (ops : List Operation) (streamId : UInt32) :
    ∀ stream, (s.final ops).streams.lookup streamId = some stream → Held stream := by
  induction ops using List.reverseRecOn with
  | nil =>
    intro stream h
    change s.streams.lookup streamId = some stream at h
    rw [created_streams hs, AList.lookup_empty] at h
    cases h
  | append_singleton ops op ih =>
    rw [H2OutboundScheduler.final_append]
    exact (perform_effect (s.final ops) op streamId ih).held ih

theorem perform_limit : s.maximumFrameSize ≤ frameSizeLimit :=
  s.frameSizeChecked.2

/-- The story of a stream over a whole run. -/
theorem story_of_run (hs : Created s) (ho : ops.count (.openStream streamId) ≤ 1) :
    Story streamId (ops.any (· == .openStream streamId))
      (acceptedResponses streamId (s.history ops))
      (framesOf streamId (emitted (s.history ops)))
      ((s.final ops).streams.lookup streamId) := by
  induction ops using List.reverseRecOn with
  | nil =>
    change Story streamId false [] [] (s.streams.lookup streamId)
    rw [created_streams hs, AList.lookup_empty]
    exact .unopened
  | append_singleton ops op ih =>
    have hc : ops.count (.openStream streamId) ≤ 1 := by
      rw [List.count_append] at ho
      omega
    have he := perform_effect (s.final ops) op streamId (final_held hs ops streamId)
    have hf : op = .openStream streamId → ops.any (· == .openStream streamId) = false := by
      intro hop
      rw [hop, List.count_append, List.count_singleton_self] at ho
      have hz : ops.count (.openStream streamId) = 0 := by omega
      have hnot := List.count_eq_zero.mp hz
      apply List.any_eq_false.mpr
      intro x hx hxe
      exact hnot (eq_of_beq hxe ▸ hx)
    have hn := (ih hc).next ⟨s.final ops, op⟩ he perform_limit hf
    rw [H2OutboundScheduler.history_append, H2OutboundScheduler.emitted_append, framesOf_append,
      H2OutboundScheduler.final_append, List.any_append, H2OutboundScheduler.history,
      H2OutboundScheduler.history, acceptedResponses_concat]
    simpa [emitted, Event.outcome, H2OutboundScheduler.final] using hn

/-- Frames of a stream that has been answered: a header block, then the body. -/
theorem Story.frames_eq (h : Story streamId opened accepted frames entry) :
    (accepted = [] ∧ frames = []) ∨ ∃ response block data stop, accepted = [response] ∧
      frames = block ++ data ∧ HeaderRun streamId response.body.isEmpty .headers block ∧
      DataRun streamId frameSizeLimit response.body 0 stop data := by
  cases h with
  | unopened | waiting | unanswered => exact Or.inl ⟨rfl, rfl⟩
  | sending window headers run _ => exact Or.inr ⟨_, _, _, _, rfl, rfl, headers, run⟩
  | sent headers run => exact Or.inr ⟨_, _, _, _, rfl, rfl, headers, run⟩

theorem block_payload
    (h : HeaderRun streamId endStream .headers block) : dataPayload block = [] := by
  have hn : block.filter isData = [] := by
    apply List.filter_eq_nil_iff.mpr
    intro frame hf
    rw [h.no_data (by decide) frame hf]
    exact Bool.false_ne_true
  simp [dataPayload, hn]

theorem answered_payload (h : HeaderRun streamId endStream .headers block)
    (hrun : DataRun streamId frameSizeLimit body 0 stop data) :
    dataPayload (block ++ data) = body.take stop := by
  rw [dataPayload_append, block_payload h, hrun.payload_eq, List.nil_append]
  simp [slice]

theorem Story.sent_part (h : Story streamId opened accepted frames entry) :
    dataPayload frames <+: (accepted.head?.map HttpResponse.body).getD [] := by
  rcases h.frames_eq with ⟨-, hnil⟩ | ⟨response, block, data, stop, rfl, rfl, hb, hrun⟩
  · rw [hnil]
    exact List.nil_prefix
  · rw [answered_payload hb hrun]
    exact List.take_prefix _ _

/-- A frame of an answered stream lies in its header block or among its DATA frames. -/
theorem cut_frames (h : block ++ data = before ++ frame :: after) :
    (∃ rest, block = before ++ frame :: rest ∧ after = rest ++ data) ∨
      ∃ first, before = block ++ first ∧ data = first ++ frame :: after := by
  rcases List.append_eq_append_iff.mp h with ⟨first, hb, hd⟩ | ⟨rest, hb, hd⟩
  · exact Or.inr ⟨first, hb, hd⟩
  · cases rest with
    | nil =>
      refine Or.inr ⟨[], ?_, ?_⟩
      · simpa using hb.symm
      · simpa using hd.symm
    | cons head rest =>
      obtain ⟨rfl, hr⟩ : frame = head ∧ after = rest ++ data := by simpa using hd
      exact Or.inl ⟨rest, hb, hr⟩

/-- `Close` is for good. -/
theorem stays_closed (h : s.closed = true) : (s.perform op).scheduler.closed = true := by
  by_cases hop : op = .close
  · subst hop
    rfl
  · rw [closed_kept hop]
    exact h

theorem openStream_closed (h : s.closed = true) (opened : UInt32) :
    (s.perform (.openStream opened)).scheduler = s := by
  simp [H2OutboundScheduler.perform, H2OutboundScheduler.openStream, h]

/-- A stream that is not registered stays silent until it is opened. -/
theorem silent_of_absent (hn : s.streams.lookup streamId = none)
    (hop : s.closed = true ∨ ∀ op ∈ ops, op ≠ .openStream streamId) :
    framesOf streamId (emitted (s.history ops)) = [] := by
  induction ops generalizing s with
  | nil => rfl
  | cons op ops ih =>
    have hs : framesOf streamId (s.perform op).frames = [] ∧
        (s.perform op).scheduler.streams.lookup streamId = none := by
      by_cases ho : op = .openStream streamId
      · subst ho
        rcases hop with hc | hnot
        · refine ⟨rfl, ?_⟩
          rw [openStream_closed hc]
          exact hn
        · exact absurd rfl (hnot _ List.mem_cons_self)
      · exact absent_stays hn ho
    have hr := ih hs.2 (hop.imp (fun hc => stays_closed hc)
      (fun hnot o ho => hnot o (List.mem_cons_of_mem _ ho)))
    have hem : emitted (s.history (op :: ops)) =
        (s.perform op).frames ++ emitted ((s.perform op).scheduler.history ops) := rfl
    rw [hem, framesOf_append, hs.1, hr, List.append_nil]

/-- The delivery of one stream's response, as far as the log goes. -/
structure Delivered (streamId : UInt32) (log : List Event) (s : H2OutboundScheduler) : Prop where
  /-- at most one response is accepted -/
  one_response : (acceptedResponses streamId log).length ≤ 1
  /-- the DATA payloads are a prefix of the submitted body -/
  sent_part : dataPayload (framesOf streamId (emitted log)) <+: submittedBody streamId log
  /-- while the stream is registered, that prefix is `body[0..offset)` -/
  offset : ∀ stream, s.streams.lookup streamId = some stream →
    stream.body = submittedBody streamId log ∧
      dataPayload (framesOf streamId (emitted log)) = stream.body.take stream.offset
  /-- DATA frames are not empty and fit the frame size in force -/
  frame_size : ∀ event ∈ log, ∀ frame ∈ framesOf streamId event.outcome.frames,
    isData frame = true → frame.payload ≠ [] ∧
      frame.payload.length ≤ event.outcome.scheduler.maximumFrameSize
  /-- END_STREAM stands on exactly the DATA frame that completes the body -/
  end_stream : ∀ before frame after, framesOf streamId (emitted log) = before ++ frame :: after →
    isData frame = true → (frame.header.has .endStream = true ↔
      dataPayload (before ++ [frame]) = submittedBody streamId log)
  /-- nothing follows END_STREAM -/
  last_frame : ∀ before frame after, framesOf streamId (emitted log) = before ++ frame :: after →
    frame.header.has .endStream = true → after = []
  /-- nothing follows `CloseStream` of the opened stream, nor `Close` -/
  closed : ∀ before event after, log = before ++ event :: after →
    (event.operation = .closeStream streamId ∧
        ∀ e ∈ after, e.operation ≠ .openStream streamId) ∨ event.operation = .close →
    framesOf streamId (emitted after) = []

theorem effect_lengths
    {before after : Option StreamOutput}
    (h : Effect streamId limit op result before frames after) :
    ∀ frame ∈ frames, isData frame = true →
      frame.payload ≠ [] ∧ frame.payload.length ≤ limit := by
  intro frame hf hd
  cases h with
  | absent | opened | closed | dropped => cases hf
  | passed window _ _ _ flushed =>
    cases flushed with
    | untouched => cases hf
    | partly _ _ run _ => exact run.lengths frame hf
    | wholly _ run => exact run.lengths frame hf
  | answered window _ headers run =>
    rcases List.mem_append.mp hf with hb | hrun
    · rw [headers.no_data (by decide) frame hb] at hd
      cases hd
    · exact run.lengths frame hrun

theorem history_lengths (hs : Created s) :
    ∀ event ∈ s.history ops, ∀ frame ∈ framesOf streamId event.outcome.frames,
      isData frame = true → frame.payload ≠ [] ∧
        frame.payload.length ≤ event.outcome.scheduler.maximumFrameSize := by
  intro event he
  obtain ⟨before, after, hlog⟩ := List.append_of_mem he
  obtain ⟨first, rest, -, -, hb, -⟩ := H2OutboundScheduler.history_split hlog
  have hh := final_held hs first streamId
  rw [← hb] at hh
  exact effect_lengths (perform_effect event.before event.operation streamId hh)

theorem silent_after_close
    {before after : List Event} (hlog : s.history ops = before ++ event :: after)
    (hc : (event.operation = .closeStream streamId ∧
      ∀ e ∈ after, e.operation ≠ .openStream streamId) ∨ event.operation = .close) :
    framesOf streamId (emitted after) = [] := by
  obtain ⟨first, rest, -, -, -, rfl⟩ := H2OutboundScheduler.history_split hlog
  rcases hc with ⟨hop, hnot⟩ | hop
  · apply silent_of_absent
    · simp only [Event.outcome, hop, H2OutboundScheduler.perform, H2OutboundScheduler.closeStream]
      exact AList.lookup_erase _ _
    · right
      intro op hmem heq
      rw [← H2OutboundScheduler.history_operations event.outcome.scheduler rest] at hmem
      obtain ⟨e, he, hop'⟩ := List.mem_map.mp hmem
      exact hnot e he (hop'.trans heq)
  · apply silent_of_absent
    · simp only [Event.outcome, hop, H2OutboundScheduler.perform, H2OutboundScheduler.close]
      exact AList.lookup_empty _
    · left
      simp only [Event.outcome, hop, H2OutboundScheduler.perform, H2OutboundScheduler.close]

section

variable (h : Story streamId opened accepted frames entry) (hcut : frames = before ++ frame ::
  after)
include h hcut

theorem Story.end_stream (hda : isData frame = true) : frame.header.has .endStream = true ↔
      dataPayload (before ++ [frame]) = ((accepted.head?.map HttpResponse.body).getD []) := by
  rcases h.frames_eq with ⟨-, hnil⟩ | ⟨response, block, data, stop, rfl, rfl, hbl, hrun⟩
  · rw [hnil] at hcut
    simp at hcut
  · rcases cut_frames hcut with ⟨rest, hb, -⟩ | ⟨first, hb, hd⟩
    · have hmem : frame ∈ block := by simp [hb]
      rw [hbl.no_data (by decide) frame hmem] at hda
      cases hda
    · obtain ⟨reached, hpay, -, hle, hm, -⟩ := hrun.split hd
      have hall : dataPayload (before ++ [frame]) = response.body.take reached := by
        rw [hb, List.append_assoc, dataPayload_append, block_payload hbl, hpay]
        simp [slice]
      rw [hm, hall]
      simp only [List.head?_cons, Option.map_some, Option.getD_some]
      constructor
      · intro hr
        rw [hr, List.take_length]
      · intro ht
        have hlen := congrArg List.length ht
        rw [List.length_take] at hlen
        omega

theorem Story.last_frame (hm : frame.header.has .endStream = true) : after = [] := by
  rcases h.frames_eq with ⟨-, hnil⟩ | ⟨response, block, data, stop, -, rfl, hbl, hrun⟩
  · rw [hnil] at hcut
    simp at hcut
  · rcases cut_frames hcut with ⟨rest, hb, ha⟩ | ⟨first, hb, hd⟩
    · obtain ⟨rfl, he⟩ := hbl.split hb hm
      have hbo : response.body = [] := List.isEmpty_iff.mp he
      rw [hbo] at hrun
      rw [ha, hrun.at_end rfl]
      rfl
    · obtain ⟨reached, -, -, -, hend, hr⟩ := hrun.split hd
      exact hr.at_end (hend.mp hm)

end

/-- Every run delivers the response of every stream that it opens at most once. -/
theorem responses_delivered {s : H2OutboundScheduler} (hs : Created s) (ops : List Operation)
    (streamId : UInt32) (honce : ops.count (.openStream streamId) ≤ 1) :
    Delivered streamId (s.history ops) (s.final ops) := by
  have hstory := story_of_run hs honce
  refine ⟨?_, hstory.sent_part, ?_, history_lengths hs, ?_, ?_, ?_⟩
  · rcases hstory.frames_eq with ⟨hacc, -⟩ | ⟨response, _, _, _, hacc, -⟩
    · simp [hacc]
    · simp [hacc]
  · intro stream hlook
    unfold submittedBody
    rw [hlook] at hstory
    generalize acceptedResponses streamId (s.history ops) = accepted at hstory
    generalize framesOf streamId (emitted (s.history ops)) = frames at hstory
    generalize ops.any (· == .openStream streamId) = opened at hstory
    cases hstory with
    | waiting window => exact ⟨rfl, rfl⟩
    | sending window headers run _ => exact ⟨rfl, answered_payload headers run⟩
  · intro before frame after hcut hdata
    exact hstory.end_stream hcut hdata
  · intro before frame after hcut hmark
    exact hstory.last_frame hcut hmark
  · intro before event after hlog hclose
    exact silent_after_close hlog hclose

def hello : List Operation :=
  [.openStream 1, .submitResponse 1 { body := octets "hello" }, .closeStream 1]

theorem responses_delivered_hello : Created defaults ∧ hello.count (.openStream 1) ≤ 1 ∧
      dataPayload (framesOf 1 (emitted (defaults.history hello))) = octets "hello" ∧
      Delivered 1 (defaults.history hello) (defaults.final hello) :=
  ⟨defaults_created, by decide, by decide +kernel,
    responses_delivered defaults_created hello 1 (by decide)⟩

end IocpRuntime.Proofs.ResponseDelivery
