import IocpRuntime.Proofs.FeedRuns

namespace IocpRuntime.Proofs.StreamEnds
open Lib Http Http2 Http2.H2Session SessionFrames SessionRuns FeedRuns

def Known (s : H2Session) (header : FrameHeader) (t : H2Session) (id : UInt32) : Prop :=
  (s.streams.lookup id).isSome ∨
    header.type = .headers ∧ header.streamId = id ∧ s.lastStreamId < id ∧ t.lastStreamId = id

def Resets (s t : H2Session) (id : UInt32) : Prop :=
  ∃ frame ∈ t.sent.drop s.sent.length,
    frame.header.type = .rstStream ∧ frame.header.streamId = id

inductive Ended (s : H2Session) (frame : Frame) (t : H2Session) (id : UInt32) :
    ProtocolFeedStatus → Prop
  | peer {status : ProtocolFeedStatus} (type : frame.header.type = .rstStream)
      (stream : frame.header.streamId = id) : Ended s frame t id status
  | reset {status : ProtocolFeedStatus} (resets : Resets s t id) : Ended s frame t id status
  | handed {status : ProtocolFeedStatus} (request : HttpRequest)
      (dispatched : t.dispatched = s.dispatched ++ [request]) : Ended s frame t id status
  | refused {status : ProtocolFeedStatus} (closes : closesConnection status = true) :
      Ended s frame t id status
  | overrun {stream : H2Stream} {offset size : Nat} (delivers : Delivers s frame stream offset size)
      (beyond : overLimit s stream size) : Ended s frame t id .bufferLimitExceeded

section Ends
variable {frame : Frame} {id : UInt32}

theorem Known.found (h : Known s frame.header t id) (ho : frame.header.type ≠ .headers) :
    (s.streams.lookup id).isSome := by
  rcases h with h | ⟨ht, -⟩
  · exact h
  · exact absurd ht ho

/-- The streams with a header block under way, and all others, are there. -/
theorem Assembles.keeps (h : Assembles s frame u stream)
    (hs : Sound s) (hk : Known s frame.header t id) : (u.streams.lookup id).isSome := by
  have hf := h.found hs
  by_cases hid : id = frame.header.streamId
  · rw [hid, hf.here]
    rfl
  · rw [hf.others id hid]
    rcases hk with hk | ⟨-, hst, -⟩
    · exact hk
    · exact absurd hst.symm hid

theorem Dispatches.ended (h : Dispatches u stream request dispatch t status)
    (hs : u.dispatched = s.dispatched) : Ended s frame t id status := by
  cases h with
  | accepted => exact .handed _ (by rw [hs])
  | saturated => exact .refused rfl
  | stopped => exact .refused rfl

theorem Delivered.ended (h : Delivered s frame dispatch t status)
    (hk : (s.streams.lookup id).isSome) (hg : t.streams.lookup id = none) :
    Ended s frame t id status := by
  cases h with
  | overrun delivers beyond => exact .overrun delivers beyond
  | stored delivers fits unended =>
    exact absurd hg (Maps.lookup_insert_ne_none hk)
  | completed delivers fits ended asked dispatches => exact Dispatches.ended dispatches rfl

theorem Handled.ended (h : Handled s frame dispatch t status)
    (hs : Sound s) (hst : status ≠ .protocolError) (hk : Known s frame.header t id)
    (hg : t.streams.lookup id = none) : Ended s frame t id status := by
  cases h with
  | failed => exact absurd rfl hst
  | served served other =>
    rw [served.streams] at hg
    exact absurd hg (Option.isSome_iff_ne_none.mp (hk.found other.1))
  | reset type =>
    have hp := hk.found (by rw [type]; decide)
    exact .peer type (Maps.eq_of_lookup_erase hp hg).symm
  | partly assembles more =>
    have hp := Assembles.keeps assembles hs hk
    exact absurd hg (Option.isSome_iff_ne_none.mp hp)
  | @garbled t stream decoder thrown assembles last decode =>
    have hf := assembles.found hs
    have hid := Maps.eq_of_lookup_erase (Assembles.keeps assembles hs hk) hg
    refine .reset ⟨⟨{ type := .rstStream, streamId := frame.header.streamId, length := 4 },
      encodeRstStream .compressionError⟩, ?_, rfl, hid.symm⟩
    simp only [H2Session.closeStream, H2Session.sendRstStream, H2Session.send, hf.sent,
      List.drop_left, List.mem_singleton]
    rfl
  | headed assembles last decode assembled complete unended =>
    have hp := Assembles.keeps assembles hs hk
    exact absurd hg (Maps.lookup_insert_ne_none hp)
  | asked assembles last decode assembled complete ended dispatches =>
    exact Dispatches.ended dispatches (assembles.found hs).dispatched
  | delivered delivered =>
    exact Delivered.ended delivered (hk.found (by rw [delivered.type]; decide)) hg

end Ends

/-- The session closes the stream at a frame: it does not hand a request on, and the
peer has not reset the stream. -/
structure Drops (arrival : Arrival) (id : UInt32) : Prop where
  known : Known arrival.before arrival.frame.header arrival.after id
  gone : arrival.after.streams.lookup id = none
  undispatched : arrival.after.dispatched = arrival.before.dispatched
  unasked : ¬ (arrival.frame.header.type = .rstStream ∧ arrival.frame.header.streamId = id)

/-- The client learns that the stream is gone, by RST_STREAM or with the connection. -/
def Announced (arrival : Arrival) (status : ProtocolFeedStatus) (id : UInt32) : Prop :=
  Resets arrival.before arrival.after id ∨ closesConnection status = true

/-- A frame within the body limit drops no stream silently. -/
theorem Met.announced (h : Met arrival) {id : UInt32} (hd : Drops arrival id)
    (hf : exceedsBodyLimit arrival.before arrival.frame = false) :
    Announced arrival arrival.status id := by
  have hs := h.healthy.sound h.connected
  have hr := h.received
  obtain ⟨hk, hg, hu, hun⟩ := hd
  unfold Announced
  generalize arrival.after = t at hr hk hg hu ⊢
  generalize arrival.status = status at hr ⊢
  cases hr with
  | ignored unconnected => exact absurd h.connected unconnected
  | failed => exact Or.inr rfl
  | handled connected admitted handled well =>
    cases Handled.ended handled hs well hk hg with
    | peer type stream => exact absurd ⟨type, stream⟩ hun
    | reset resets => exact Or.inl resets
    | handed request dispatched => simp [dispatched] at hu
    | refused closes => exact Or.inr closes
    | overrun delivers beyond =>
      have he := (exceedsBodyLimit_of_overrun hs connected admitted delivers).mpr beyond
      rw [he] at hf
      cases hf

theorem exceeding_silent (h : exceedsBodyLimit arrival.before arrival.frame = true) :
    Drops arrival arrival.frame.header.streamId ∧ arrival.status = .bufferLimitExceeded ∧
      ¬ Resets arrival.before arrival.after arrival.frame.header.streamId := by
  have ho : arrival.outcome = (arrival.before.closeStream arrival.frame.header.streamId,
      .bufferLimitExceeded) := receive_exceeding h
  have ha : arrival.after = arrival.before.closeStream arrival.frame.header.streamId :=
    congrArg Prod.fst ho
  simp only [exceedsBodyLimit, Bool.and_eq_true, beq_iff_eq, Option.any_eq_true] at h
  obtain ⟨⟨⟨-, ht⟩, -⟩, stream, hf, -⟩ := h
  refine ⟨⟨Or.inl ?_, ?_, ?_, ?_⟩, congrArg Prod.snd ho, ?_⟩
  · rw [hf]
    rfl
  · rw [ha]
    exact AList.lookup_erase _ _
  · rw [ha]
    rfl
  · rw [ht]
    exact fun hr => absurd hr.1 (by decide)
  · rw [ha]
    simp [Resets, H2Session.closeStream]

def arrivalsOf (before : Endpoint) (result : Endpoint × ProtocolFeedStatus) : List Arrival :=
  result.1.arrivals.drop before.arrivals.length

/-- The client learns of each stream that is closed exactly if no DATA frame exceeds the body limit.
-/
theorem closed_streams_announced_iff {connectionId : Nat} {config : H2ConnectionConfig}
    {e : Endpoint} (h : Endpoint.create connectionId config = .ok e)
    (inputs : List Endpoint.Input) (environment : Environment) (bytes : Octets) :
    let before := Runs.final Endpoint.handle e inputs
    let result := before.feed environment bytes
    (∀ arrival ∈ arrivalsOf before result, ∀ id, Drops arrival id →
        Announced arrival result.2 id) ∧
      (before.session.state ≠ .closed → result.1.session.state = .closed →
        closesConnection result.2 = true) ↔
    ∀ arrival ∈ arrivalsOf before result,
      exceedsBodyLimit arrival.before arrival.frame = false := by
  obtain ⟨accepted, rfl⟩ := of_endpoint_create h
  have hhealthy := endpoint_reached connectionId accepted inputs
  generalize Runs.final Endpoint.handle (endpoint connectionId config accepted) inputs = before
    at hhealthy
  dsimp only
  by_cases hopen : before.session.state = .closed
  · simp [arrivalsOf, Endpoint.feed, hopen]
  obtain ⟨new, hfed⟩ := feed_fed environment before bytes hhealthy hopen
  have hnew : arrivalsOf before (before.feed environment bytes) = new := by
    simp [arrivalsOf, hfed.arrivals]
  rw [hnew]
  constructor
  · rintro ⟨hannounced, -⟩ arrival harrival
    cases hexceeds : exceedsBodyLimit arrival.before arrival.frame with
    | false => rfl
    | true =>
      obtain ⟨hdrops, hstatus, hquiet⟩ := exceeding_silent hexceeds
      have hcall : (before.feed environment bytes).2 = .bufferLimitExceeded := by
        rcases hfed.statuses arrival harrival with hready | hsame
        · rw [hstatus] at hready
          cases hready
        · rw [← hsame, hstatus]
      rcases hannounced arrival harrival _ hdrops with hresets | hcloses
      · exact absurd hresets hquiet
      · rw [hcall] at hcloses
        cases hcloses
  · intro hfits
    refine ⟨?_, ?_⟩
    · intro arrival harrival id hdrops
      have hmet := hfed.met arrival harrival
      rcases Met.announced hmet hdrops (hfits arrival harrival) with hresets | hcloses
      · exact Or.inl hresets
      · rcases hfed.statuses arrival harrival with hready | hsame
        · rw [hready] at hcloses
          cases hcloses
        · exact Or.inr (hsame ▸ hcloses)
    · intro _ hclosed
      rw [hfed.closed hclosed]
      rfl

def clientOctets (frames : List Frame) : Octets := kPreface ++ frames.flatMap Frame.octets

def garbledFrame (streamId : UInt32) : Frame :=
  ⟨{ length := 1, type := .headers, flags := FrameFlags.endHeaders.octet, streamId := streamId },
    [0xff]⟩

def garbledOctets : Octets := clientOctets [settingsFrame, garbledFrame 1]

theorem closed_streams_announced_garbled :
    let before := endpoint 1 {} (by decide)
    let result := before.feed (fun _ => {}) garbledOctets
    Endpoint.create 1 {} = .ok before ∧
      (arrivalsOf before result).length = 2 ∧ result.2 = .ready ∧
      ∀ arrival ∈ arrivalsOf before result, ∀ id, Drops arrival id →
        Announced arrival result.2 id := by
  have hcreate := endpoint_create_eq 1 (show Accepted {} by decide)
  have hfits : ∀ arrival ∈ arrivalsOf (endpoint 1 {} (by decide))
      ((endpoint 1 {} (by decide)).feed (fun _ => {}) garbledOctets),
      exceedsBodyLimit arrival.before arrival.frame = false := by
    decide +kernel
  exact ⟨hcreate, by decide +kernel, by decide +kernel,
    ((closed_streams_announced_iff hcreate [] (fun _ => {}) garbledOctets).mpr hfits).1⟩

theorem narrow_accepted : Accepted { maximumRequestBodySize := 4 } := by decide

def narrow : Endpoint := endpoint 1 { maximumRequestBodySize := 4 } narrow_accepted

def longOctets : Octets :=
  clientOctets [settingsFrame, requestFrame 1 false, dataFrame 1 true [1, 2, 3, 4, 5]]

/-- The stream is closed, without RST_STREAM, and the connection stays up. -/
theorem closed_stream_unannounced :
    Endpoint.create 1 { maximumRequestBodySize := 4 } = .ok narrow ∧
    (narrow.feed (fun _ => {}) longOctets).1.session.state = .connected ∧
    ∃ arrival ∈ arrivalsOf narrow (narrow.feed (fun _ => {}) longOctets),
      Drops arrival 1 ∧ ¬ Announced arrival (narrow.feed (fun _ => {}) longOctets).2 1 := by
  refine ⟨endpoint_create_eq 1 _, by decide +kernel, ?_⟩
  have hany : (arrivalsOf narrow (narrow.feed (fun _ => {}) longOctets)).any (fun arrival =>
      exceedsBodyLimit arrival.before arrival.frame && arrival.frame.header.streamId == 1) = true := by
    decide +kernel
  have hstatus : (narrow.feed (fun _ => {}) longOctets).2 = .bufferLimitExceeded := by
    decide +kernel
  obtain ⟨arrival, harrival, hboth⟩ := List.any_eq_true.mp hany
  simp only [Bool.and_eq_true, beq_iff_eq] at hboth
  obtain ⟨hdrops, -, hquiet⟩ := exceeding_silent hboth.1
  rw [hboth.2] at hdrops hquiet
  refine ⟨arrival, harrival, hdrops, ?_⟩
  rw [hstatus]
  simpa [Announced, closesConnection] using hquiet

end IocpRuntime.Proofs.StreamEnds
