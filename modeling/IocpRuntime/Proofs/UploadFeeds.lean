import IocpRuntime.Proofs.RequestUploads
import IocpRuntime.Proofs.SessionSegments

namespace IocpRuntime.Proofs.UploadFeeds
open Lib Http Http2 Http2.H2Session SessionRuns SessionSegments FrameRoundTrip
open RequestUploads

section Rounds
variable {e : Endpoint} {frames : List Frame}

def quiet : Environment := fun _ => {}

structure Sized (frame : Frame) : Prop where
  length : frame.header.length.toNat = frame.payload.length
  field : frame.payload.length < 2 ^ 24

theorem round_consumed (hs : Sized frame)
    (hb : e.receiveBuffer = frame.octets ++ rest) (hc : e.session.state = .connected)
    (hco : e.session.consumeFrame (recovered frame) [] .accepted = (t, .ready))
    (hn : t.state = .connected) :
    ∃ arrival : Arrival, arrival.status = .ready ∧
      e.round quiet = .goesOn ⟨t, rest, e.arrivals ++ [arrival]⟩ := by
  have ha : SessionFrames.Admitted e.session (recovered frame).header := by
    apply SessionFrames.consumeFrame_admitted
    rw [hco]
    exact nofun
  have hcut := cutOctets_octets hs.length hs.field ha.size rest
  have ho : Arrival.outcome ⟨e.session, recovered frame, [], .accepted⟩ = (t, .ready) := by
    simp [Arrival.outcome, receive, hc, not_true_eq_false, hco]
  refine ⟨⟨e.session, recovered frame, [], .accepted⟩, congrArg Prod.snd ho, ?_⟩
  have haf : Arrival.after ⟨e.session, recovered frame, [], .accepted⟩ = t :=
    congrArg Prod.fst ho
  have hst : Arrival.status ⟨e.session, recovered frame, [], .accepted⟩ = .ready :=
    congrArg Prod.snd ho
  unfold Endpoint.round
  rw [hc]
  dsimp only
  rw [hb, hcut]
  dsimp only [quiet, answered, List.foldl_nil, Endpoint.frameRound]
  rw [hst, haf]
  dsimp only
  rw [hn, if_neg (by decide)]

theorem moderate_ready (h : Moderate arrivals)
    (hr : arrival.status = .ready) : Moderate (arrivals ++ [arrival]) := by
  intro other ho
  rcases List.mem_append.mp ho with ho | ho
  · exact h other ho
  · rw [List.mem_singleton.mp ho, hr]
    exact nofun

/-- The reader takes the frames off its buffer, one a round. -/
theorem drain_reads {received : List Frame} (hreads : Reads s received t)
    (hfr : received = frames.map recovered) (hsi : ∀ f ∈ frames, Sized f) (hm : Moderate arrivals)
    (hs : Stands x ⟨s, frames.flatMap Frame.octets, arrivals⟩) (fuel : Nat)
    (hfu : frames.length ≤ fuel) :
    ∃ arrivals', Moderate arrivals' ∧ Stands ((reader quiet).drain fuel x) ⟨t, [], arrivals'⟩ := by
  induction hreads generalizing frames x arrivals fuel with
  | nil =>
    rw [List.map_eq_nil_iff.mp hfr.symm, List.flatMap_nil] at hs
    have hn : (reader quiet).round x.1 x.2 = none := round_eq_none hs (Nat.zero_le _)
    rw [Incremental.drain_none hn]
    exact ⟨arrivals, hm, hs⟩
  | @cons s next t _ _ connected consumed rest ih =>
    obtain ⟨frame, others, rfl, rfl, rfl⟩ := List.map_eq_cons_iff.mp hfr.symm
    rw [List.flatMap_cons] at hs
    obtain ⟨fuel, rfl⟩ : ∃ n, fuel = n + 1 := Nat.exists_eq_succ_of_ne_zero (by
      rw [List.length_cons] at hfu
      omega)
    obtain ⟨arrival, hre, hr⟩ := round_consumed (hsi frame List.mem_cons_self)
      (e := ⟨s, frame.octets ++ others.flatMap Frame.octets, arrivals⟩) rfl connected consumed
      rest.connected
    have hsh : (reached (Endpoint.round quiet ⟨s, frame.octets ++ others.flatMap Frame.octets,
        arrivals⟩)).receiveBuffer.length < (frame.octets ++ others.flatMap Frame.octets).length := by
      rw [hr]
      exact goesOn_shorter hr
    obtain ⟨y, hso, hst⟩ := hs.next hsh
    rw [hr] at hst
    rw [Incremental.Reader.drain, hso]
    exact ih rfl (fun f hf => hsi f (List.mem_cons_of_mem _ hf)) (moderate_ready hm hre) hst
      fuel (Nat.le_of_succ_le_succ hfu)

/-- The octets of the frames, in any pieces that fit in the buffer. -/
theorem feeds_reads (hh : Healthy s) (hreads : Reads s (frames.map recovered) t)
    (hsi : ∀ f ∈ frames, Sized f)
    (hp : pieces.flatten = frames.flatMap Frame.octets)
    (hb : buffered quiet { session := s } pieces = true) :
    (Endpoint.feeds quiet { session := s } pieces).session = t := by
  let start : Stage × Octets := (⟨s, [], hh⟩, [])
  have hs : Stands start { session := s } := ⟨rfl, rfl, rfl⟩
  have ho : s.state ≠ .closed := by
    rw [hreads.connected]
    decide
  have hwh : pieces.foldl (reader quiet).feed start = (reader quiet).feed start pieces.flatten := by
    have hp := Incremental.feed_pieces (reader_stable quiet) start [] pieces
    have hn : (reader quiet).feed start [] = start := by
      rw [Incremental.Reader.feed, Incremental.join_nil]
      rfl
    rwa [hn, List.nil_append] at hp
  have hj : Stands ((reader quiet).join start pieces.flatten)
      ⟨s, frames.flatMap Frame.octets, []⟩ := by
    rw [← hp]
    exact hs.join ho
  obtain ⟨arrivals, hm, hd⟩ := drain_reads hreads rfl hsi (by simp [Moderate]) hj
    ((reader quiet).join start pieces.flatten).2.length (by
      rw [hj.buffer]
      exact frames_length_le frames)
  have hf : Stands ((reader quiet).feed start pieces.flatten) ⟨t, [], arrivals⟩ := hd
  rw [← hwh] at hf
  have hst := feeds_stands_of_reader (fun _ => rfl) hs hb (by rw [hf.arrivals]; exact hm)
  rw [← hst.session, hf.session]

end Rounds

section Logs
variable {e e' : Endpoint}

structure Alike (e e' : Endpoint) : Prop where
  session : e'.session = e.session
  buffer : e'.receiveBuffer = e.receiveBuffer

inductive AlikeRounds : Endpoint.Round → Endpoint.Round → Prop
  | goesOn {e e' : Endpoint} (alike : Alike e e') : AlikeRounds (.goesOn e) (.goesOn e')
  | returns {e e' : Endpoint} (status : ProtocolFeedStatus) (alike : Alike e e') :
      AlikeRounds (.returns e status) (.returns e' status)

theorem frameRound_alike :
    AlikeRounds (e.frameRound arrival rest) (e'.frameRound arrival rest) := by
  unfold Endpoint.frameRound
  cases arrival.status with
  | ready =>
    dsimp only
    split
    · exact .returns _ ⟨rfl, rfl⟩
    · exact .goesOn ⟨rfl, rfl⟩
  | _ => exact .returns _ ⟨rfl, rfl⟩

theorem round_alike (h : Alike e e') : AlikeRounds (e.round quiet) (e'.round quiet) := by
  unfold Endpoint.round
  rw [h.session]
  cases e.session.state with
  | expectPreface =>
    dsimp only [Endpoint.prefaceRound]
    rw [h.buffer, h.session]
    split
    · exact .returns _ ⟨by simp only [Endpoint.failConnection, Endpoint.closing, h.session], rfl⟩
    · split
      · exact .returns _ h
      · exact .goesOn ⟨rfl, rfl⟩
  | connected =>
    dsimp only
    rw [h.buffer]
    cases cutOctets e.session.config.maximumFrameSize e.receiveBuffer with
    | needMore => exact .returns _ h
    | protocolError =>
      exact .returns _ ⟨by simp only [Endpoint.failConnection, Endpoint.closing, h.session], rfl⟩
    | frame frame rest => exact frameRound_alike
  | closing => exact .returns _ h
  | closed => exact .returns _ h

theorem loop_alike (h : Alike e e') :
    Alike (Endpoint.loop quiet rounds e).1 (Endpoint.loop quiet rounds e').1 := by
  induction rounds generalizing e e' with
  | zero => exact h
  | succ rounds ih =>
    unfold Endpoint.loop
    rw [h.buffer]
    split
    · exact h
    · have hr := round_alike h
      generalize e.round quiet = round at hr
      generalize e'.round quiet = round' at hr
      cases hr with
      | goesOn alike => exact ih alike
      | returns status alike => exact alike

theorem feed_alike (h : Alike e e') : Alike (e.feed quiet bytes).1 (e'.feed quiet bytes).1 := by
  unfold Endpoint.feed Endpoint.overflows
  rw [h.session, h.buffer]
  split
  · exact h
  · split
    · exact ⟨by simp only [Endpoint.failConnection, h.session], rfl⟩
    · exact loop_alike ⟨rfl, rfl⟩

theorem feeds_alike (h : Alike e e') : Alike (e.feeds quiet pieces) (e'.feeds quiet pieces) ∧
      buffered quiet e' pieces = buffered quiet e pieces := by
  induction pieces generalizing e e' with
  | nil => exact ⟨h, rfl⟩
  | cons piece pieces ih =>
    obtain ⟨hf, hb⟩ := ih (feed_alike h)
    refine ⟨hf, ?_⟩
    simp only [buffered, hb, Endpoint.overflows, h.session, h.buffer]

end Logs

section Requests
variable {id : UInt32}

theorem framesOf_recovered
    (hm : ∀ last piece, recovered (make last piece) = make' last piece) :
    (framesOf make pieces).map recovered = framesOf make' pieces := by
  induction pieces with
  | nil => rfl
  | cons piece pieces ih => rw [framesOf, List.map_cons, ih, hm, framesOf]

theorem requestFrames_recovered (id : UInt32) :
    (requestFrames id first fragments parts).map recovered =
      requestFrames (foldedId id) first fragments parts := by
  have hc : (continuations id fragments).map recovered =
      continuations (foldedId id) fragments := framesOf_recovered (fun _ _ => rfl)
  have hd : (dataFrames id parts).map recovered = dataFrames (foldedId id) parts :=
    framesOf_recovered (fun _ _ => rfl)
  rw [requestFrames, List.map_cons, List.map_append, hc, hd]
  rfl

/-- The length in the header is that of the payload, if a `UInt32` holds it. -/
def Measured (frame : Frame) : Prop := frame.header.length = UInt32.ofNat frame.payload.length

theorem framesOf_payload
    (hma : ∀ last piece, Measured (make last piece) ∧ (make last piece).payload = piece)
    (h : frame ∈ framesOf make pieces) :
    Measured frame ∧ frame.payload ∈ pieces := by
  induction pieces with
  | nil => cases h
  | cons piece pieces ih =>
    rcases List.mem_cons.mp h with rfl | h
    · obtain ⟨hm, hp⟩ := hma pieces.isEmpty piece
      rw [hp]
      exact ⟨hm, List.mem_cons_self⟩
    · exact (ih h).imp_right (List.mem_cons_of_mem _)

theorem requestFrames_payload (h : frame ∈ requestFrames id first fragments parts) :
    Measured frame ∧ frame.payload ∈ first :: (fragments ++ parts) := by
  have hc : ∀ last piece, Measured (continuationFrame id last piece) ∧
      (continuationFrame id last piece).payload = piece := fun _ _ => ⟨rfl, rfl⟩
  have hd : ∀ last piece, Measured (dataFrame id last piece) ∧
      (dataFrame id last piece).payload = piece := fun _ _ => ⟨rfl, rfl⟩
  rcases List.mem_cons.mp h with rfl | h
  · exact ⟨rfl, List.mem_cons_self⟩
  rcases List.mem_append.mp h with h | h
  · obtain ⟨hm, hp⟩ := framesOf_payload hc h
    exact ⟨hm, List.mem_cons_of_mem _ (List.mem_append_left _ hp)⟩
  · obtain ⟨hm, hp⟩ := framesOf_payload hd h
    exact ⟨hm, List.mem_cons_of_mem _ (List.mem_append_right _ hp)⟩

theorem requestFrames_sized (hf : ∀ piece ∈ first :: (fragments ++ parts), piece.length < 2 ^ 24) :
    ∀ frame ∈ requestFrames id first fragments parts, Sized frame := by
  intro frame hfr
  obtain ⟨hm, hp⟩ := requestFrames_payload hfr
  refine ⟨?_, hf _ hp⟩
  rw [show frame.header.length = UInt32.ofNat frame.payload.length from hm, UInt32.toNat_ofNat']
  exact Nat.mod_eq_of_lt (Nat.lt_trans (hf _ hp) (by decide))

/-- The octets of a request that the session has room for. The frames reach the session with
the stream id that it decodes. -/
theorem upload_fed (hh : Healthy e.session) (he : e.receiveBuffer = [])
    (h : Upload e.session (foldedId id) first fragments parts fields)
    (ha : assembleRequest e.session.connectionId (foldedId id) fields = some a)
    (hc : a.complete = true)
    (hf : ∀ piece ∈ first :: (fragments ++ parts), piece.length < 2 ^ 24)
    (hp : pieces.flatten = (requestFrames id first fragments parts).flatMap Frame.octets)
    (hb : buffered quiet e pieces = true) :
    (e.feeds quiet pieces).session.dispatched =
      e.session.dispatched ++ [{ a.request with body := parts.flatten }] := by
  obtain ⟨t, hreads, hd⟩ := h.dispatched ha hc
  rw [← requestFrames_recovered] at hreads
  obtain ⟨hal, hs⟩ := feeds_alike (⟨rfl, he⟩ : Alike { session := e.session } e)
  rw [hal.session, feeds_reads hh hreads (requestFrames_sized hf) hp (hs.symm.trans hb)]
  exact hd.dispatched

end Requests

end IocpRuntime.Proofs.UploadFeeds
