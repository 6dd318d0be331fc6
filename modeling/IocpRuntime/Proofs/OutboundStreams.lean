import IocpRuntime.Proofs.OutboundFrames

namespace IocpRuntime.Proofs.OutboundStreams
open Http Http2 OutboundFrames

variable {s t : H2OutboundScheduler}

def framesOf (streamId : UInt32) (frames : List Frame) : List Frame :=
  frames.filter (fun frame => frame.header.streamId == streamId)

@[simp] theorem framesOf_nil : framesOf streamId [] = [] := rfl

@[simp] theorem framesOf_append :
    framesOf streamId (a ++ b) = framesOf streamId a ++ framesOf streamId b := by
  simp [framesOf]

theorem framesOf_own (h : ∀ frame ∈ frames, frame.header.streamId = streamId) :
    framesOf streamId frames = frames := by
  apply List.filter_eq_self.mpr
  intro frame hf
  simp [h frame hf]

theorem framesOf_other (hne : other ≠ streamId)
    (h : ∀ frame ∈ frames, frame.header.streamId = other) : framesOf streamId frames = [] := by
  apply List.filter_eq_nil_iff.mpr
  intro frame hf
  simp [h frame hf, hne]

/-- Nothing, or the next DATA frames of a submitted body, and the entry is kept or erased. -/
inductive Flushed (streamId : UInt32) (limit : Nat) :
    Option StreamOutput → List Frame → Option StreamOutput → Prop
  | untouched (entry : Option StreamOutput) : Flushed streamId limit entry [] entry
  | partly {stream : StreamOutput} {stop : Nat} {frames : List Frame} (window : Int)
      (submitted : stream.responseSubmitted = true)
      (run : DataRun streamId limit stream.body stream.offset stop frames)
      (unfinished : stop ≠ stream.body.length) :
      Flushed streamId limit (some stream) frames
        (some { stream with offset := stop, window := window })
  | wholly {stream : StreamOutput} {frames : List Frame}
      (submitted : stream.responseSubmitted = true)
      (run : DataRun streamId limit stream.body stream.offset stream.body.length frames) :
      Flushed streamId limit (some stream) frames none

theorem Flushed.trans (h : Flushed streamId limit a frames b)
    (h' : Flushed streamId limit b more c) : Flushed streamId limit a (frames ++ more) c := by
  cases h with
  | untouched => exact h'
  | partly window submitted run unfinished =>
    cases h' with
    | untouched =>
      rw [List.append_nil]
      exact .partly window submitted run unfinished
    | partly window' _ run' unfinished' =>
      exact .partly window' submitted (run.append run') unfinished'
    | wholly _ run' => exact .wholly submitted (run.append run')
  | wholly submitted run =>
    cases h' with
    | untouched =>
      rw [List.append_nil]
      exact .wholly submitted run

theorem frameSize_pos (s : H2OutboundScheduler) : 0 < s.maximumFrameSize := by
  have h := s.frameSizeChecked.1
  omega

def flushed (s : H2OutboundScheduler) (streamId : UInt32) (stream : StreamOutput) (count : Nat) :
    H2OutboundScheduler :=
  { s with
    connectionWindow := s.connectionWindow - count
    streams := if stream.offset + count = stream.body.length then s.streams.erase streamId
      else s.streams.insert streamId { stream with
        offset := stream.offset + count
        window := stream.window - count } }

theorem flushed_own : (flushed s streamId stream count).streams.lookup streamId =
    if stream.offset + count = stream.body.length then none
    else some { stream with
      offset := stream.offset + count
      window := stream.window - count } := by
  unfold flushed
  dsimp only
  split
  · exact AList.lookup_erase _ _
  · exact AList.lookup_insert _

theorem flushed_other (hne : other ≠ streamId) :
    (flushed s streamId stream count).streams.lookup other = s.streams.lookup other := by
  unfold flushed
  dsimp only
  split
  · exact AList.lookup_erase_ne hne
  · exact AList.lookup_insert_ne hne

/-- The DATA frames of one flush: both windows cover them, and what is left of the body
waits for one of the two. -/
structure Sends (s : H2OutboundScheduler) (streamId : UInt32) (stream : StreamOutput) (count : Nat)
    (frames : List Frame) : Prop where
  run : DataRun streamId s.maximumFrameSize stream.body stream.offset (stream.offset + count) frames
  covered : count = 0 ∨ count ≤ stream.window ∧ count ≤ s.connectionWindow
  stalled : ¬ (stream.offset + count < stream.body.length ∧ stream.window - count > 0 ∧
    s.connectionWindow - count > 0)

/-- `FlushStreamLocked` and the erase behind it. -/
theorem flushStream_sends : ∃ count run, s.flushStreamLocked streamId stream frames =
      (flushed s streamId stream count, frames ++ run) ∧ Sends s streamId stream count run := by
  have hst := loop_stops streamId (frameSize_pos s) (stream.body.length - stream.offset)
    { stream := stream, connectionWindow := s.connectionWindow, frames := frames } (Nat.le_refl _)
  obtain ⟨count, run, heq, hrun, hc⟩ := loop_run streamId (frameSize_pos s)
    (stream.body.length - stream.offset)
    { stream := stream, connectionWindow := s.connectionWindow, frames := frames }
  dsimp only at hst
  rw [heq] at hst
  refine ⟨count, run, ?_, hrun, hc, hst⟩
  unfold H2OutboundScheduler.flushStreamLocked
  rw [heq]
  simp [flushed, advanced, Flush.finished]

/-- `FlushAllLocked` along the listing order: streams without a response are skipped. -/
inductive Flushes : List UInt32 → H2OutboundScheduler → List Frame → H2OutboundScheduler → Prop
  | done (s : H2OutboundScheduler) : Flushes [] s [] s
  | skip {s t : H2OutboundScheduler} {streamId : UInt32} {order : List UInt32} {new : List Frame}
      (idle : ∀ stream, s.streams.lookup streamId = some stream → stream.responseSubmitted ≠ true)
      (rest : Flushes order s new t) : Flushes (streamId :: order) s new t
  | flush {s t : H2OutboundScheduler} {streamId : UInt32} {order : List UInt32}
      {run new : List Frame} {stream : StreamOutput} {count : Nat}
      (held : s.streams.lookup streamId = some stream) (submitted : stream.responseSubmitted = true)
      (sends : Sends s streamId stream count run)
      (rest : Flushes order (flushed s streamId stream count) new t) :
      Flushes (streamId :: order) s (run ++ new) t

theorem flushAll_flushes : ∃ new, (s.flushAllLocked frames order).2 = frames ++ new ∧
      Flushes order s new (s.flushAllLocked frames order).1 := by
  induction order generalizing s frames with
  | nil => exact ⟨[], (List.append_nil _).symm, .done s⟩
  | cons head order ih =>
    rw [H2OutboundScheduler.flushAllLocked]
    cases hl : s.streams.lookup head with
    | none =>
      obtain ⟨new, hf, hr⟩ := ih
      exact ⟨new, hf, .skip (by simp [hl]) hr⟩
    | some stream =>
      dsimp only
      split
      · rename_i hsub
        obtain ⟨count, run, heq, hs⟩ := flushStream_sends
        rw [heq]
        obtain ⟨new, hf, hr⟩ := ih
        exact ⟨run ++ new, by rw [hf, List.append_assoc], .flush hl hsub hs hr⟩
      · rename_i hsub
        obtain ⟨new, hf, hr⟩ := ih
        exact ⟨new, hf, .skip (by simp [hl, hsub]) hr⟩

theorem flushAll_run :
    Flushes order s (s.flushAllLocked [] order).2 (s.flushAllLocked [] order).1 := by
  obtain ⟨new, hf, hr⟩ := flushAll_flushes
  rwa [hf]

theorem Flushes.data (h : Flushes order s new t) : ∀ frame ∈ new, isData frame = true := by
  induction h with
  | done => simp
  | skip _ _ ih => exact ih
  | flush _ _ sends _ ih => exact List.forall_mem_append.mpr ⟨sends.run.isData_eq, ih⟩

theorem Flushes.kept (h : Flushes order s new t) :
    t.closed = s.closed ∧ t.maximumFrameSize = s.maximumFrameSize := by
  induction h with
  | done => exact ⟨rfl, rfl⟩
  | skip _ _ ih => exact ih
  | flush _ _ _ _ ih => exact ih

theorem Sends.flushed (h : Sends s streamId stream count frames)
    (hsub : stream.responseSubmitted = true) :
    Flushed streamId s.maximumFrameSize (some stream) frames
      ((flushed s streamId stream count).streams.lookup streamId) := by
  rw [flushed_own]
  split
  · rename_i hst
    exact .wholly hsub (hst ▸ h.run)
  · exact .partly _ hsub h.run ‹_›

theorem Flushes.flushed (streamId : UInt32) (h : Flushes order s new t) :
    Flushed streamId s.maximumFrameSize (s.streams.lookup streamId) (framesOf streamId new)
      (t.streams.lookup streamId) := by
  induction h with
  | done => exact .untouched _
  | skip _ _ ih => exact ih
  | @flush s t head order run new stream count held submitted sends rest ih =>
    rw [framesOf_append]
    refine Flushed.trans ?_ ih
    by_cases hid : streamId = head
    · subst streamId
      rw [framesOf_own sends.run.streamId_eq, held]
      exact sends.flushed submitted
    · rw [framesOf_other (Ne.symm hid) sends.run.streamId_eq, flushed_other hid]
      exact .untouched _

open H2OutboundScheduler

/-- Entries of the map: one without a response has no body, and one with a
response has octets left to send. -/
structure Held (stream : StreamOutput) : Prop where
  waiting : stream.responseSubmitted = false → stream.body = [] ∧ stream.offset = 0
  sending : stream.responseSubmitted = true → stream.offset < stream.body.length

/-- What one operation can do to the entry of one stream, and the frames of it that it sends. -/
inductive Effect (streamId : UInt32) (limit : Nat) :
    Operation → Bool → Option StreamOutput → List Frame → Option StreamOutput → Prop
  | absent {op : Operation} {result : Bool}
      (refused : ∀ response, op = .submitResponse streamId response → result = false) :
      Effect streamId limit op result none [] none
  | opened (window : Int) :
      Effect streamId limit (.openStream streamId) true none [] (some { window := window })
  | passed {op : Operation} {result : Bool} {stream : StreamOutput} {frames : List Frame}
      {entry : Option StreamOutput} (window : Int)
      (open' : op ≠ .closeStream streamId ∧ op ≠ .close)
      (refused : ∀ response, op = .submitResponse streamId response → result = false)
      (sending : ∀ increment, op = .updateStreamWindow streamId increment → result = true →
        stream.responseSubmitted = true)
      (flushed : Flushed streamId limit (some { stream with window := window }) frames entry) :
      Effect streamId limit op result (some stream) frames entry
  | closed {op : Operation} {stream : StreamOutput}
      (closing : op = .closeStream streamId ∨ op = .close) :
      Effect streamId limit op true (some stream) [] none
  | dropped {stream : StreamOutput} (increment : UInt32)
      (waiting : stream.responseSubmitted = false) :
      Effect streamId limit (.updateStreamWindow streamId increment) true (some stream) [] none
  | answered {response : HttpResponse} {stream : StreamOutput} {block data : List Frame}
      {stop : Nat} (window : Int) (waiting : stream.responseSubmitted = false)
      (headers : HeaderRun streamId response.body.isEmpty .headers block)
      (run : DataRun streamId limit response.body 0 stop data) :
      Effect streamId limit (.submitResponse streamId response) true (some stream) (block ++ data)
        (if stop = response.body.length then none
          else some ⟨window, response.body, stop, true⟩)

theorem Effect.same (entry : Option StreamOutput) (hc : op ≠ .closeStream streamId ∧ op ≠ .close)
    (hs : ∀ response, op = .submitResponse streamId response → result = false)
    (hu : ∀ increment, op = .updateStreamWindow streamId increment → result = false) :
    Effect streamId limit op result entry [] entry := by
  cases entry with
  | none => exact .absent hs
  | some stream =>
    refine .passed stream.window hc hs ?_ (.untouched _)
    intro increment hop hr
    rw [hu increment hop] at hr
    cases hr

theorem openStream_effect :
    Effect streamId limit (.openStream opened) true (s.streams.lookup streamId) []
      ((s.openStream opened).streams.lookup streamId) := by
  have hs : ∀ entry, Effect streamId limit (.openStream opened) true entry [] entry :=
    fun entry => .same entry ⟨by simp, by simp⟩ (by simp) (by simp)
  unfold H2OutboundScheduler.openStream
  split
  · exact hs _
  · split
    · exact hs _
    · rename_i hn
      by_cases hid : streamId = opened
      · subst streamId
        rw [hn, AList.lookup_insert]
        exact .opened _
      · rw [AList.lookup_insert_ne hid]
        exact hs _

theorem closeStream_effect :
    Effect streamId limit (.closeStream closing) true (s.streams.lookup streamId) []
      ((s.closeStream closing).streams.lookup streamId) := by
  unfold H2OutboundScheduler.closeStream
  by_cases hid : streamId = closing
  · subst streamId
    rw [AList.lookup_erase]
    cases s.streams.lookup closing with
    | none => exact .absent (by simp)
    | some stream => exact .closed (Or.inl rfl)
  · rw [AList.lookup_erase_ne hid]
    refine .same _ ⟨?_, by simp⟩ (by simp) (by simp)
    intro h
    cases h
    exact hid rfl

theorem close_effect : Effect streamId limit .close true (s.streams.lookup streamId) []
      (s.close.streams.lookup streamId) := by
  rw [H2OutboundScheduler.close, AList.lookup_empty]
  cases s.streams.lookup streamId with
  | none => exact .absent (by simp)
  | some stream => exact .closed (Or.inr rfl)

theorem shiftWindows_lookup (streams : Streams) (delta : Int) (streamId : UInt32) :
    (H2OutboundScheduler.shiftWindows streams delta).lookup streamId = (streams.lookup streamId).map
        (fun stream => { stream with window := stream.window + delta }) :=
  List.dlookup_map₂ streamId

structure Encodes (s t : H2OutboundScheduler) (streamId : UInt32) (endStream : Bool)
    (block : List Frame) : Prop where
  run : HeaderRun streamId endStream .headers block
  short : ∀ frame ∈ block, frame.payload.length ≤ s.maximumFrameSize
  streams : t.streams = s.streams
  size : t.maximumFrameSize = s.maximumFrameSize
  initial : t.initialWindowSize = s.initialWindowSize
  window : t.connectionWindow = s.connectionWindow
  closed : t.closed = s.closed

theorem encodeHeaderBlock_encodes (s : H2OutboundScheduler) (streamId : UInt32)
    (response : HttpResponse) (endStream : Bool) :
    Encodes s (s.encodeHeaderBlockLocked streamId response endStream).1 streamId endStream
      (s.encodeHeaderBlockLocked streamId response endStream).2 :=
  ⟨headerFrames_run streamId (frameSize_pos s) endStream _ _ 0 true (Nat.lt_succ_self _)
    (Nat.zero_le _), payload_headerFrames _ _ _ _ _ _ _, rfl, rfl, rfl, rfl, rfl⟩

inductive Performs (s : H2OutboundScheduler) : Operation → H2OutboundScheduler.Outcome → Prop
  | refuses {op : Operation} (asks : op ≠ .close ∧ ∀ id, op ≠ .closeStream id) :
      Performs s op { scheduler := s, result := false }
  | opens (streamId : UInt32) : Performs s (.openStream streamId) { scheduler := s.openStream streamId }
  | closes (streamId : UInt32) :
      Performs s (.closeStream streamId) { scheduler := s.closeStream streamId }
  | ends : Performs s .close { scheduler := s.close }
  | answers {t : H2OutboundScheduler} {streamId : UInt32} {response : HttpResponse}
      {stream : StreamOutput} {block : List Frame} (held : s.streams.lookup streamId = some stream)
      (waiting : stream.responseSubmitted = false) (empty : response.body = [])
      (encodes : Encodes s t streamId response.body.isEmpty block) :
      Performs s (.submitResponse streamId response)
        { scheduler := { t with streams := t.streams.erase streamId }, frames := block }
  | sends {t : H2OutboundScheduler} {streamId : UInt32} {response : HttpResponse}
      {stream : StreamOutput} {block run : List Frame} {count : Nat}
      (held : s.streams.lookup streamId = some stream) (waiting : stream.responseSubmitted = false)
      (encodes : Encodes s t streamId response.body.isEmpty block)
      (sends : Sends t streamId { stream with responseSubmitted := true, body := response.body }
        count run) :
      Performs s (.submitResponse streamId response) {
        scheduler := flushed t streamId
          { stream with responseSubmitted := true, body := response.body } count
        frames := block ++ run }
  | settles {t mid : H2OutboundScheduler} {window size : UInt32} {table : Nat} {order : List UInt32}
      {frames : List Frame}
      (flushes : Flushes order mid frames t)
      (fits : ∀ id stream, s.streams.lookup id = some stream →
        stream.window + ((window.toNat : Int) - s.initialWindowSize) ≤ kMaximumWindow)
      (streams : mid.streams = H2OutboundScheduler.shiftWindows s.streams
        ((window.toNat : Int) - s.initialWindowSize))
      (initial : mid.initialWindowSize = window.toNat)
      (kept : mid.connectionWindow = s.connectionWindow ∧ mid.closed = s.closed) :
      Performs s (.applyPeerSettings window size table order) { scheduler := t, frames := frames }
  | grants {t : H2OutboundScheduler} {increment : UInt32} {order : List UInt32} {frames : List Frame}
      (fits : s.connectionWindow + increment.toNat ≤ kMaximumWindow)
      (flushes : Flushes order { s with connectionWindow := s.connectionWindow + increment.toNat }
        frames t) :
      Performs s (.updateConnectionWindow increment order) { scheduler := t, frames := frames }
  | raises {streamId increment : UInt32} {stream : StreamOutput} {run : List Frame} {count : Nat}
      (held : s.streams.lookup streamId = some stream)
      (fits : stream.window + increment.toNat ≤ kMaximumWindow)
      (sends : Sends s streamId { stream with window := stream.window + increment.toNat } count run) :
      Performs s (.updateStreamWindow streamId increment) {
        scheduler := flushed s streamId { stream with window := stream.window + increment.toNat } count
        frames := run }

theorem performs (s : H2OutboundScheduler) (op : Operation) : Performs s op (s.perform op) := by
  cases op with
  | openStream streamId => exact .opens streamId
  | closeStream streamId => exact .closes streamId
  | close => exact .ends
  | submitResponse streamId response =>
    change Performs s _ (s.submitResponse streamId response)
    unfold H2OutboundScheduler.submitResponse
    cases hl : s.streams.lookup streamId with
    | none => exact .refuses (by simp)
    | some stream =>
      dsimp only
      split
      · exact .refuses (by simp)
      · rename_i ho
        have hw := Bool.eq_false_iff.mpr (not_or.mp ho).2
        have he := encodeHeaderBlock_encodes s streamId response response.body.isEmpty
        split
        · exact .answers hl hw (List.isEmpty_iff.mp ‹_›) he
        · obtain ⟨count, run, heq, hs⟩ := flushStream_sends
          rw [heq]
          exact .sends hl hw he hs
  | applyPeerSettings window size table order =>
    change Performs s _ (s.applyPeerSettings window size table order)
    unfold H2OutboundScheduler.applyPeerSettings
    split
    · split
      · exact .refuses (by simp)
      · dsimp only
        split
        · exact .refuses (by simp)
        · rename_i hf
          refine .settles flushAll_run ?_ rfl rfl ⟨rfl, rfl⟩
          intro id stream hl
          have hall := List.any_eq_false.mp (Bool.eq_false_iff.mpr hf) ⟨id, stream⟩
            (AList.mem_lookup_iff.mp hl)
          simpa using hall
    · exact .refuses (by simp)
  | updateConnectionWindow increment order =>
    change Performs s _ (s.updateConnectionWindow increment order)
    unfold H2OutboundScheduler.updateConnectionWindow
    split
    · exact .refuses (by simp)
    · rename_i ho
      exact .grants (Int.not_lt.mp fun hlt => ho (Or.inr (Or.inr hlt))) flushAll_run
  | updateStreamWindow streamId increment =>
    change Performs s _ (s.updateStreamWindow streamId increment)
    unfold H2OutboundScheduler.updateStreamWindow
    cases hl : s.streams.lookup streamId with
    | none => exact .refuses (by simp)
    | some stream =>
      dsimp only
      split
      · exact .refuses (by simp)
      · rename_i ho
        obtain ⟨count, run, heq, hs⟩ := flushStream_sends
        rw [heq]
        exact .raises hl (Int.not_lt.mp fun hlt => ho (Or.inr (Or.inr hlt))) hs

/-- Flushing all streams after their windows have moved. -/
theorem Flushes.effect (delta : Int) (h : Flushes order shifted frames t)
    (hop : op ≠ .closeStream streamId ∧ op ≠ .close)
    (hs : ∀ response, op ≠ .submitResponse streamId response)
    (hu : ∀ increment, op ≠ .updateStreamWindow streamId increment)
    (hsh : shifted.streams.lookup streamId = (s.streams.lookup streamId).map
      (fun stream => { stream with window := stream.window + delta })) :
    Effect streamId t.maximumFrameSize op true (s.streams.lookup streamId)
      (framesOf streamId frames) (t.streams.lookup streamId) := by
  have hf := h.flushed streamId
  rw [← h.kept.2, hsh] at hf
  generalize framesOf streamId frames = own at hf ⊢
  generalize t.streams.lookup streamId = left at hf ⊢
  cases hl : s.streams.lookup streamId with
  | none =>
    rw [hl] at hf
    cases hf
    exact .absent (fun response hr => absurd hr (hs response))
  | some stream =>
    rw [hl] at hf
    exact .passed _ hop (fun response hr => absurd hr (hs response))
      (fun increment hr => absurd hr (hu increment)) hf

theorem Effect.beside {answered : UInt32} (entry : Option StreamOutput) (hne : streamId ≠ answered) :
    Effect streamId limit (.submitResponse answered response) true entry [] entry := by
  refine .same entry ⟨by simp, by simp⟩ ?_ (by simp)
  rintro response' ⟨⟩
  exact absurd rfl hne

/-- Every operation acts on every stream by one effect. -/
theorem perform_effect (s : H2OutboundScheduler) (op : Operation) (streamId : UInt32)
    (hh : ∀ stream, s.streams.lookup streamId = some stream → Held stream) :
    Effect streamId (s.perform op).scheduler.maximumFrameSize op (s.perform op).result
      (s.streams.lookup streamId) (framesOf streamId (s.perform op).frames)
      ((s.perform op).scheduler.streams.lookup streamId) := by
  have h := performs s op
  generalize s.perform op = outcome at h ⊢
  cases h with
  | refuses asks => exact .same _ ⟨asks.2 _, asks.1⟩ (fun _ _ => rfl) (fun _ _ => rfl)
  | opens opened => exact openStream_effect
  | closes closing => exact closeStream_effect
  | ends => exact close_effect
  | @answers t answered response stream block held waiting empty encodes =>
    dsimp only
    rw [encodes.streams]
    by_cases hid : streamId = answered
    · subst streamId
      rw [framesOf_own encodes.run.streamId_eq, held, AList.lookup_erase]
      have he : Effect answered t.maximumFrameSize (.submitResponse answered response) true
          (some stream) (block ++ []) _ := .answered 0 waiting encodes.run (.nil 0)
      rwa [List.append_nil, empty, List.length_nil, if_pos rfl] at he
    · rw [framesOf_other (Ne.symm hid) encodes.run.streamId_eq, AList.lookup_erase_ne hid]
      exact .beside _ hid
  | @sends t answered response stream block run count held waiting encodes sends =>
    dsimp only
    rw [framesOf_append]
    by_cases hid : streamId = answered
    · subst streamId
      have hrun := sends.run
      rw [framesOf_own encodes.run.streamId_eq, framesOf_own hrun.streamId_eq, held, flushed_own]
      dsimp only at hrun ⊢
      rw [((hh stream held).waiting waiting).2, Nat.zero_add] at hrun ⊢
      exact .answered _ waiting encodes.run hrun
    · rw [framesOf_other (Ne.symm hid) encodes.run.streamId_eq,
        framesOf_other (Ne.symm hid) sends.run.streamId_eq, flushed_other hid, encodes.streams]
      exact .beside _ hid
  | settles flushes _ streams =>
    exact flushes.effect _ ⟨by simp, by simp⟩ (by simp) (by simp)
      (streams ▸ shiftWindows_lookup s.streams _ streamId)
  | grants _ flushes =>
    exact flushes.effect 0 ⟨by simp, by simp⟩ (by simp) (by simp) (by simp)
  | @raises updated increment stream run count held _ sends =>
    dsimp only
    by_cases hid : streamId = updated
    · subst updated
      rw [framesOf_own sends.run.streamId_eq, held]
      by_cases hsub : stream.responseSubmitted = true
      · exact .passed _ ⟨by simp, by simp⟩ (by simp) (fun _ _ _ => hsub) (sends.flushed hsub)
      · -- nothing submitted: the body is empty, so the flush counts as finished
        have hwa := Bool.eq_false_iff.mpr hsub
        obtain ⟨hb, ho⟩ := (hh stream held).waiting hwa
        have hrun := sends.run
        dsimp only at hrun
        rw [hb, ho] at hrun
        have hs := hrun.stop_le (Nat.le_refl 0)
        rw [hrun.at_end rfl, flushed_own, hb, ho, List.length_nil, if_pos (Nat.le_zero.mp hs)]
        exact .dropped increment hwa
    · rw [framesOf_other (Ne.symm hid) sends.run.streamId_eq, flushed_other hid]
      refine .same _ ⟨by simp, by simp⟩ (by simp) ?_
      rintro increment' ⟨⟩
      exact absurd rfl hid

/-- A stream outside the map stays outside, and silent, until it is opened. -/
theorem absent_stays (hn : s.streams.lookup streamId = none) (hop : op ≠ .openStream streamId) :
    framesOf streamId (s.perform op).frames = [] ∧
      (s.perform op).scheduler.streams.lookup streamId = none := by
  have he := perform_effect s op streamId (by simp [hn])
  rw [hn] at he
  generalize (s.perform op).scheduler.streams.lookup streamId = entry at he ⊢
  generalize framesOf streamId (s.perform op).frames = frames at he ⊢
  generalize (s.perform op).result = result at he
  cases he with
  | absent _ => exact ⟨rfl, rfl⟩
  | opened window => exact absurd rfl hop

theorem Effect.held (h : Effect streamId limit op result before frames after)
    (hh : ∀ stream, before = some stream → Held stream) :
    ∀ stream, after = some stream → Held stream := by
  intro stream' ha
  cases h with
  | absent => cases ha
  | opened window =>
    cases ha
    exact ⟨fun _ => ⟨rfl, rfl⟩, nofun⟩
  | @passed op result stream frames entry window _ _ _ flushed =>
    have hs := hh stream rfl
    subst ha
    cases flushed with
    | untouched => exact ⟨hs.waiting, hs.sending⟩
    | partly window' submitted run unfinished =>
      refine ⟨fun h => ?_, fun _ => ?_⟩
      · rw [submitted] at h
        cases h
      · have hle := run.stop_le (Nat.le_of_lt (hs.sending submitted))
        exact Nat.lt_of_le_of_ne hle unfinished
  | closed => cases ha
  | dropped => cases ha
  | @answered response stream block data stop window _ _ run =>
    split at ha
    · cases ha
    · rename_i hst
      cases ha
      refine ⟨nofun, fun _ => ?_⟩
      exact Nat.lt_of_le_of_ne (run.stop_le (Nat.zero_le _)) hst

/-- Only `Close` closes. -/
theorem closed_kept (hop : op ≠ .close) : (s.perform op).scheduler.closed = s.closed := by
  have h := performs s op
  generalize s.perform op = outcome at h ⊢
  cases h with
  | refuses | closes => rfl
  | opens opened =>
    simp only [H2OutboundScheduler.openStream]
    split
    · rfl
    · split <;> rfl
  | ends => exact absurd rfl hop
  | answers _ _ _ encodes => exact encodes.closed
  | sends _ _ encodes _ => exact encodes.closed
  | settles flushes _ _ _ kept => exact flushes.kept.1.trans kept.2
  | grants _ flushes => exact flushes.kept.1
  | raises => rfl

/-- The frames of a call: DATA only, or one header block and then DATA. -/
theorem outcome_frames : (∀ frame ∈ (s.perform op).frames, isData frame = true) ∨
      ∃ streamId endStream block data, (s.perform op).frames = block ++ data ∧
        HeaderRun streamId endStream .headers block ∧ ∀ frame ∈ data, isData frame = true := by
  have h := performs s op
  generalize s.perform op = outcome at h ⊢
  cases h with
  | refuses | opens | closes | ends => simp
  | answers _ _ _ encodes =>
    exact Or.inr ⟨_, _, _, [], (List.append_nil _).symm, encodes.run, by simp⟩
  | sends _ _ encodes sends => exact Or.inr ⟨_, _, _, _, rfl, encodes.run, sends.run.isData_eq⟩
  | settles flushes => exact Or.inl flushes.data
  | grants _ flushes => exact Or.inl flushes.data
  | raises _ _ sends => exact Or.inl sends.run.isData_eq

def ResponseFrame (frame : Frame) : Prop :=
  frame.header.type = .headers ∨ frame.header.type = .continuation ∨ frame.header.type = .data

theorem ResponseFrame.not_windowUpdate (h : ResponseFrame frame) :
    frame.header.type ≠ .windowUpdate := by
  rcases h with h | h | h <;> rw [h] <;> decide

theorem responseFrame_of_data (h : isData frame = true) : ResponseFrame frame :=
  Or.inr (Or.inr (eq_of_beq h))

theorem responseFrame_of_block (h : HeaderRun streamId endStream type frames)
    (ht : type = .headers ∨ type = .continuation) : ∀ frame ∈ frames, ResponseFrame frame := by
  induction h with
  | last typed =>
    intro frame hf
    rw [List.mem_singleton.mp hf, ResponseFrame, typed]
    exact ht.imp_right Or.inl
  | more typed _ _ _ _ ih =>
    intro frame hf
    rcases List.mem_cons.mp hf with rfl | hf
    · rw [ResponseFrame, typed]
      exact ht.imp_right Or.inl
    · exact ih (Or.inr rfl) frame hf

/-- The scheduler sends nothing but responses. -/
theorem perform_frames (s : H2OutboundScheduler) (op : Operation) :
    ∀ frame ∈ (s.perform op).frames, ResponseFrame frame := by
  rcases outcome_frames with hd | ⟨streamId, endStream, block, data, heq, hb, hd⟩
  · exact fun frame hf => responseFrame_of_data (hd frame hf)
  · rw [heq]
    exact List.forall_mem_append.mpr ⟨responseFrame_of_block hb (Or.inl rfl),
      fun frame hf => responseFrame_of_data (hd frame hf)⟩

end IocpRuntime.Proofs.OutboundStreams
