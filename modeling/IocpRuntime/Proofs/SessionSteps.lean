import IocpRuntime.Proofs.SessionFrames

namespace IocpRuntime.Proofs.SessionSteps
open Lib Http2 SessionFrames

/-- Streams keep their requests, and what is dispatched is a stored request with a body. -/
structure Quiet (s s' : H2Session) : Prop where
  decoder : s'.hpackDecoder = s.hpackDecoder
  last : s'.lastStreamId = s.lastStreamId
  streams : ∀ id stream', s'.streams.lookup id = some stream' →
    ∃ stream, s.streams.lookup id = some stream ∧ stream'.streamId = stream.streamId ∧
      stream'.request = stream.request
  dispatched : ∀ request ∈ s'.dispatched, request ∈ s.dispatched ∨
    ∃ id stream base body, s.streams.lookup id = some stream ∧ stream.request = some base ∧
      request = { base with body := body }

namespace Quiet

theorem trans (h : Quiet s s') (h' : Quiet s' s'') : Quiet s s'' where
  decoder := h'.decoder.trans h.decoder
  last := h'.last.trans h.last
  streams := by
    intro id stream'' hl
    obtain ⟨stream', hl', hid', hreq'⟩ := h'.streams id stream'' hl
    obtain ⟨stream, hl, hid, hreq⟩ := h.streams id stream' hl'
    exact ⟨stream, hl, hid'.trans hid, hreq'.trans hreq⟩
  dispatched := by
    intro request hr
    rcases h'.dispatched request hr with hr | ⟨id, stream', base, body, hl', hb, rfl⟩
    · exact h.dispatched request hr
    · obtain ⟨stream, hl, -, hreq⟩ := h.streams id stream' hl'
      exact Or.inr ⟨id, stream, base, body, hl, hreq ▸ hb, rfl⟩

theorem fewer (decoder : s'.hpackDecoder = s.hpackDecoder)
    (last : s'.lastStreamId = s.lastStreamId) (dispatched : s'.dispatched = s.dispatched)
    (streams : ∀ id stream, s'.streams.lookup id = some stream →
      s.streams.lookup id = some stream) : Quiet s s' :=
  ⟨decoder, last, fun id stream hl => ⟨stream, streams id stream hl, rfl, rfl⟩,
    fun _ hr => Or.inl (dispatched ▸ hr)⟩

theorem closeStream (id : UInt32) : Quiet s (s.closeStream id) :=
  fewer rfl rfl rfl (fun _ _ hl => (Maps.of_lookup_erase hl).2)

theorem dispatches {id : UInt32}
    (h : Dispatches s stream request dispatch s' status)
    (hl : s.streams.lookup id = some stream) (hr : stream.request = some request) :
    Quiet s s' := by
  cases h with
  | accepted =>
    refine ⟨rfl, rfl, (closeStream stream.streamId).streams, fun asked ha => ?_⟩
    rcases List.mem_append.mp ha with ha | ha
    · exact Or.inl ha
    · exact Or.inr ⟨id, stream, request, stream.body, hl, hr, List.mem_singleton.mp ha⟩
  | saturated => exact closeStream _
  | stopped => exact closeStream _

theorem delivers (hs : Sound s) (h : Delivers s frame stream offset size) : Quiet s (dataReceived s stream frame.header data) := by
  have hkey := (hs.entry _ _ h.found).key
  refine ⟨rfl, rfl, fun id stream' hl => ?_, fun _ hr => Or.inl hr⟩
  rcases Maps.of_lookup_insert hl with ⟨rfl, rfl⟩ | ⟨-, hl⟩
  · exact ⟨stream, hkey ▸ h.found, rfl, rfl⟩
  · exact ⟨stream', hl, rfl, rfl⟩

theorem handled (hs : Sound s) (h : Handled s frame dispatch s' status)
    (hst : status ≠ .protocolError)
    (ht : ¬ (frame.header.type = .headers ∨ frame.header.type = .continuation)) :
    Quiet s s' := by
  have hn : ∀ {t : H2Session} {stream : H2Stream}, ¬ Assembles s frame t stream :=
    fun ha => ht ha.type
  cases h with
  | failed => exact absurd rfl hst
  | served served =>
    refine fewer served.decoder served.last served.dispatched (fun id stream hl => ?_)
    rw [← served.streams]
    exact hl
  | reset => exact closeStream _
  | partly assembles => exact absurd assembles hn
  | garbled assembles => exact absurd assembles hn
  | headed assembles => exact absurd assembles hn
  | asked assembles => exact absurd assembles hn
  | delivered delivered =>
    cases delivered with
    | overrun => exact closeStream _
    | stored found => exact delivers hs found
    | completed found _ _ asked dispatched =>
      exact (delivers hs found).trans (dispatches dispatched (AList.lookup_insert _) asked)

end Quiet

end IocpRuntime.Proofs.SessionSteps
