import IocpRuntime.Proofs.HpackBlock
import IocpRuntime.Proofs.RequestFields
import IocpRuntime.Proofs.SessionRuns
import IocpRuntime.Proofs.SessionSteps

namespace IocpRuntime.Proofs.HpackSession
open Lib Http Http2 Http2.Rfc7541
open Requests (Carries)
open HpackTable HpackBlock RequestFields SessionFrames SessionRuns SessionSteps

variable {id : UInt32}

/-- The other end. The session advertises no table size, so the context starts at 4096. -/
structure Peer where
  ctx : Context := ⟨[], 4096⟩
  sending : Option (UInt32 × Octets) := none
  lists : List (UInt32 × List HttpHeader) := []

structure Event where
  input : H2Session.Input
  block : List Representation := []

def withinLimit : Representation → Bool
  | .sizeUpdate size => size ≤ 4096
  | _ => true

/-- The octets of the block a HEADERS or CONTINUATION frame goes on with. -/
def Peer.pending (peer : Peer) (header : FrameHeader) : Option Octets :=
  match peer.sending with
  | none => if header.type = .headers then some [] else none
  | some (id, sofar) =>
    if header.type = .continuation ∧ header.streamId = id then some sofar else none

section Connection
-- the peer's Huffman coder
variable (coder : Octets → Octets)

/-- The peer after an input it could have sent; it frames a block by HEADERS and
CONTINUATION with nothing in between. -/
def Peer.sends (peer : Peer) (e : Event) : Option Peer :=
  match e.input with
  | .frame frame _ _ =>
    let header := frame.header
    if header.type = .headers ∨ header.type = .continuation then do
      let sofar ← peer.pending header
      let fragment ← headerFragment header frame.payload
      if !header.has .endHeaders then
        return { peer with sending := some (header.streamId, sofar ++ fragment) }
      else if sofar ++ fragment = blockWire coder e.block ∧ e.block.all withinLimit then
        let (list, ctx) ← peer.ctx.block e.block
        return ⟨ctx, none, peer.lists ++ [(header.streamId, list)]⟩
      else none
    else if peer.sending = none then some peer else none
  | _ => some peer

def step (link : H2Session × Peer) (e : Event) : Option (H2Session × Peer) := do
  let peer ← link.2.sends coder e
  return (link.1.handle e.input, peer)

def run (link : H2Session × Peer) (events : List Event) : Option (H2Session × Peer) :=
  events.foldlM (step coder) link

/-- The session's decoder can read the block, or gives up where nothing that
follows would have changed a table. -/
def Clean (s : H2Session) (e : Event) : Prop :=
  InStep s.hpackDecoder.options (context s.hpackDecoder) 0 e.block ∧
    ∀ rep ∈ e.block, Codable coder rep

def CleanRun : H2Session × Peer → List Event → Prop
  | _, [] => True
  | link, e :: events =>
    Clean coder link.1 e ∧ ∀ link' ∈ step coder link e, CleanRun link' events

end Connection

/-- The request is made of the first list the peer encoded on its stream. -/
def Faithful (lists : List (UInt32 × List HttpHeader)) (request : HttpRequest) : Prop :=
  ∃ (id : UInt32) (list : List HttpHeader), request.requestId = id.toNat ∧
    lists.lookup id = some list ∧ Carries list request

structure Stored (lists : List (UInt32 × List HttpHeader)) (id : UInt32) (stream : H2Stream) :
    Prop where
  key : stream.streamId = id
  request : ∀ request, stream.request = some request → request.requestId = id.toNat ∧
    ∃ list, lists.lookup id = some list ∧ Carries list request

/-- The two ends agree on the table, and on what the session has stored. -/
structure Settled (s : H2Session) (peer : Peer) : Prop where
  sized : Sized s.hpackDecoder
  agree : Agree peer.ctx (context s.hpackDecoder)
  stored : ∀ id stream, s.streams.lookup id = some stream → Stored peer.lists id stream
  used : ∀ entry ∈ peer.lists, entry.1 ≤ s.lastStreamId

/-- The stream whose header block is under way, and the block so far. -/
structure Awaiting (s : H2Session) (lists : List (UInt32 × List HttpHeader)) (id : UInt32)
    (sofar : Octets) (stream : H2Stream) : Prop where
  found : s.streams.lookup id = some stream
  block : stream.headerBlock = sofar
  opened : stream.state ≠ .closed
  incomplete : stream.headersComplete = false
  seen : id ≤ s.lastStreamId
  fresh : lists.lookup id = none

structure Live (s : H2Session) (peer : Peer) : Prop extends Settled s peer where
  within : ∀ id sofar, peer.sending = some (id, sofar) →
    ∃ stream, Awaiting s peer.lists id sofar stream

/-- What holds between the session and the peer throughout a run: a closed
session has only its past to answer for. -/
structure InTouch (s : H2Session) (peer : Peer) : Prop where
  past : ∀ request ∈ s.dispatched, Faithful peer.lists request
  live : s.state = .connected → Live s peer

section Invariants
variable {peer : Peer}

theorem lookup_snoc (h : lists.lookup id = some list)
    (entry : UInt32 × List HttpHeader) : (lists ++ [entry]).lookup id = some list := by
  rw [List.lookup_append, h]
  rfl

theorem Faithful.snoc (h : Faithful lists request)
    (entry : UInt32 × List HttpHeader) : Faithful (lists ++ [entry]) request := by
  obtain ⟨id, list, hid, hl, hc⟩ := h
  exact ⟨id, list, hid, lookup_snoc hl entry, hc⟩

theorem Stored.snoc (h : Stored lists id stream)
    (entry : UInt32 × List HttpHeader) : Stored (lists ++ [entry]) id stream := by
  refine ⟨h.key, ?_⟩
  intro request hr
  obtain ⟨hid, list, hl, hc⟩ := h.request request hr
  exact ⟨hid, list, lookup_snoc hl entry, hc⟩

theorem Stored.faithful (h : Stored lists id stream) (hr : stream.request = some base) :
    Faithful lists { base with body := body } := by
  obtain ⟨hid, list, hl, hc⟩ := h.request base hr
  exact ⟨id, list, hid, hl, { hc with }⟩

theorem Settled.quiet (h : Settled s peer) (hq : Quiet s s')
    (hp : ∀ request ∈ s.dispatched, Faithful peer.lists request) :
    Settled s' peer ∧ ∀ request ∈ s'.dispatched, Faithful peer.lists request := by
  refine ⟨⟨?_, ?_, ?_, ?_⟩, ?_⟩
  · rw [hq.decoder]
    exact h.sized
  · rw [hq.decoder]
    exact h.agree
  · intro id stream' hl'
    obtain ⟨stream, hl, hkey, hreq⟩ := hq.streams id stream' hl'
    have hs := h.stored id stream hl
    exact ⟨hkey.trans hs.key, hreq ▸ hs.request⟩
  · rw [hq.last]
    exact h.used
  · intro request hr
    rcases hq.dispatched request hr with hr | ⟨id, stream, base, body, hl, hb, rfl⟩
    · exact hp request hr
    · exact (h.stored id stream hl).faithful hb

theorem Settled.set (h : Settled s peer)
    (hs : Stored peer.lists stream.streamId stream) : Settled (s.setStream stream) peer := by
  refine ⟨h.sized, h.agree, ?_, h.used⟩
  intro id stream' hl
  by_cases hk : id = stream.streamId
  · subst hk
    rw [H2Session.setStream, AList.lookup_insert] at hl
    cases hl
    exact hs
  · rw [H2Session.setStream, AList.lookup_insert_ne hk] at hl
    exact h.stored id stream' hl

theorem Live.assembles (h : Live s peer) (hs : Sound s)
    (hp : peer.pending frame.header = some sofar)
    (hf : headerFragment frame.header frame.payload = some fragment)
    (ha : Assembles s frame s' stream) :
    Settled s' peer ∧ Awaiting s' peer.lists frame.header.streamId (sofar ++ fragment) stream := by
  have hfo := ha.found hs
  have hset : Settled s' peer := by
    refine ⟨hfo.decoder ▸ h.sized, hfo.decoder ▸ h.agree, ?_,
      fun entry he => UInt32.le_trans (h.used entry he) ha.last_le⟩
    intro id other hl
    by_cases hid : id = frame.header.streamId
    · subst hid
      cases hfo.here.symm.trans hl
      refine ⟨hfo.key, fun request hr => ?_⟩
      have hn := ha.unrequested hs
      rw [hr] at hn
      cases hn
    · exact h.stored id other (hfo.others id hid ▸ hl)
  have hb : stream.headerBlock = sofar ++ fragment ∧
      peer.lists.lookup frame.header.streamId = none := by
    cases ha with
    | fragment heads cut =>
      cases hf.symm.trans cut
      unfold Peer.pending at hp
      cases heads with
      | opens type odd newer fresh room =>
        split at hp
        · rw [if_pos type] at hp
          cases hp
          refine ⟨rfl, List.lookup_eq_none_iff.mpr fun entry he => ?_⟩
          rw [bne_iff_ne]
          intro heq
          exact UInt32.not_le.mpr newer (heq ▸ h.used entry he)
        · rw [type, if_neg (fun hc => absurd hc.1 (by decide))] at hp
          cases hp
      | continues type found expected =>
        split at hp
        · rw [type, if_neg (by decide)] at hp
          cases hp
        · rename_i id sofar' hse
          split at hp
          · rename_i hc
            obtain ⟨-, rfl⟩ := hc
            cases hp
            obtain ⟨waiting, hw⟩ := h.within _ _ hse
            cases found.symm.trans hw.found
            exact ⟨congrArg (· ++ fragment) hw.block, hw.fresh⟩
          · cases hp
  exact ⟨hset, hfo.here, hb.1, hfo.opened, hfo.incomplete, hfo.last, hb.2⟩

theorem decode_in_step (hs : Sized codec)
    (hst : InStep codec.options (context codec) 0 reps) (hc : ∀ rep ∈ reps, Codable coder rep)
    (ha : Agree ctx (context codec)) (hb : ctx.block reps = some (list, ctx')) :
    ∃ codec' result, codec.decode (blockWire coder reps) = (codec', result) ∧
      Agree ctx' (context codec') ∧ Sized codec' ∧
      ∀ decoded, result = .ok decoded → decoded = list := by
  obtain ⟨codec', result, hl, ha', hs', -, hli⟩ :=
    loop_in_step hst (s := { codec := codec, data := blockWire coder reps }) rfl rfl rfl rfl hs hc
      (Nat.le_refl _) ha hb
  exact ⟨codec', result, hl, ha', hs', hli⟩

/-- In the middle of a block, or at its end, where the octets so far are the coded block. -/
def Sent (coder : Octets → Octets) (peer : Peer) (header : FrameHeader)
    (block : List Representation) (sofar : Octets) (peer' : Peer) : Prop :=
  (header.has .endHeaders = false ∧
      peer' = { peer with sending := some (header.streamId, sofar) }) ∨
    ∃ list ctx, header.has .endHeaders = true ∧ sofar = blockWire coder block ∧
      peer.ctx.block block = some (list, ctx) ∧
      peer' = ⟨ctx, none, peer.lists ++ [(header.streamId, list)]⟩

theorem sends_header (ht : frame.header.type = .headers ∨ frame.header.type = .continuation)
    (h : peer.sends coder ⟨.frame frame order dispatch, block⟩ = some peer') :
    ∃ sofar fragment, peer.pending frame.header = some sofar ∧
      headerFragment frame.header frame.payload = some fragment ∧
      Sent coder peer frame.header block (sofar ++ fragment) peer' := by
  simp only [Peer.sends, if_pos ht] at h
  obtain ⟨sofar, hp, h⟩ := Option.bind_eq_some_iff.mp h
  obtain ⟨fragment, hf, h⟩ := Option.bind_eq_some_iff.mp h
  refine ⟨sofar, fragment, hp, hf, ?_⟩
  cases hend : frame.header.has .endHeaders with
  | false =>
    rw [hend] at h
    exact Or.inl ⟨hend, (Option.some.inj h).symm⟩
  | true =>
    simp only [hend, Bool.not_true, Bool.false_eq_true, if_false] at h
    split at h
    · rename_i hw
      obtain ⟨⟨list, ctx⟩, hb, h⟩ := Option.bind_eq_some_iff.mp h
      exact Or.inr ⟨list, ctx, hend, hw.1, hb, (Option.some.inj h).symm⟩
    · cases h

/-- At the end of a clean block the session reads the list of the peer. -/
theorem Live.decodes (h : Live s peer) (hs : Sound s)
    (hsn : peer.sends coder ⟨.frame frame order dispatch, block⟩ = some peer')
    (hc : Clean coder s ⟨.frame frame order dispatch, block⟩)
    (ha : Assembles s frame t stream) (hl : frame.header.has .endHeaders = true)
    (hd : s.hpackDecoder.decode stream.headerBlock = (decoder, result)) :
    Settled { t with continuationStreamId := none, hpackDecoder := decoder } peer' ∧
      peer'.sending = none ∧ ∀ decoded, result = .ok decoded →
        peer'.lists.lookup frame.header.streamId = some decoded := by
  obtain ⟨sofar, fragment, hp, hf, hpe⟩ := sends_header ha.type hsn
  obtain ⟨hset, hw⟩ := h.assembles hs hp hf ha
  rcases hpe with ⟨hend, -⟩ | ⟨list, ctx, -, hwi, hctx, rfl⟩
  · rw [hl] at hend
    cases hend
  obtain ⟨codec, read, hdec, hag, hsi, hli⟩ := decode_in_step h.sized hc.1 hc.2 h.agree hctx
  rw [hw.block, hwi, hdec] at hd
  cases hd
  refine ⟨⟨hsi, hag, fun id stream hl => (hset.stored id stream hl).snoc _, ?_⟩, rfl, ?_⟩
  · intro entry he
    rcases List.mem_append.mp he with he | he
    · exact hset.used entry he
    · rw [List.mem_singleton.mp he]
      exact hw.seen
  · intro decoded hr
    rw [hli decoded hr, List.lookup_append, hw.fresh]
    simp

theorem Settled.stores (h : Settled t peer) (hkey : stream.streamId = id)
    (hl : peer.lists.lookup id = some list)
    (ha : assembleRequest connectionId id list = some a) (hc : a.complete = true) :
    Settled (t.setStream (requestStored stream a.request)) peer := by
  obtain ⟨-, hid, hca⟩ := assembled_carries ha hc
  refine h.set ⟨rfl, ?_⟩
  intro request hr
  cases hr
  subst hkey
  exact ⟨hid, list, hl, hca⟩

/-- The peer is between two blocks. -/
theorem Settled.live (h : Settled s peer) (hn : peer.sending = none) : Live s peer :=
  ⟨h, fun id octets hs => by cases hn.symm.trans hs⟩

theorem Live.headers (h : Live s peer) (hs : Sound s)
    (hsn : peer.sends coder ⟨.frame frame order dispatch, block⟩ = some peer')
    (hc : Clean coder s ⟨.frame frame order dispatch, block⟩)
    (ht : frame.header.type = .headers ∨ frame.header.type = .continuation)
    (hh : Handled s frame dispatch s' status) (hst : status ≠ .protocolError)
    (hp : ∀ request ∈ s.dispatched, Faithful peer'.lists request) :
    Live s' peer' ∧ ∀ request ∈ s'.dispatched, Faithful peer'.lists request := by
  cases hh with
  | failed => exact absurd rfl hst
  | served _ other => exact absurd ht (not_or.mpr ⟨other.1, other.2.1⟩)
  | reset type => exact absurd ht (by rw [type]; decide)
  | delivered delivered => exact absurd ht (by rw [delivered.type]; decide)
  | partly assembles more =>
    obtain ⟨sofar, fragment, hpe, hf, ⟨-, rfl⟩ | ⟨_, _, hend, -⟩⟩ := sends_header ht hsn
    · obtain ⟨hset, hw⟩ := h.assembles hs hpe hf assembles
      refine ⟨⟨⟨hset.sized, hset.agree, hset.stored, hset.used⟩, ?_⟩, ?_⟩
      · intro id octets hse
        cases hse
        exact ⟨_, hw.found, hw.block, hw.opened, hw.incomplete, hw.seen, hw.fresh⟩
      · rw [← (assembles.found hs).dispatched] at hp
        exact hp
    · rw [more] at hend
      cases hend
  | garbled assembles last decode =>
    obtain ⟨hset, hse, -⟩ := h.decodes hs hsn hc assembles last decode
    rw [← (assembles.found hs).dispatched] at hp
    refine And.imp_left (fun hq => hq.live hse) (hset.quiet ?_ hp)
    exact .fewer rfl rfl rfl (fun _ _ hl => (Maps.of_lookup_erase hl).2)
  | headed assembles last decode assembled complete =>
    obtain ⟨hset, hse, hli⟩ := h.decodes hs hsn hc assembles last decode
    have hf := assembles.found hs
    rw [← hf.dispatched] at hp
    exact ⟨(hset.stores hf.key (hli _ rfl) assembled complete).live hse, hp⟩
  | asked assembles last decode assembled complete ended dispatches =>
    obtain ⟨hset, hse, hli⟩ := h.decodes hs hsn hc assembles last decode
    have hf := assembles.found hs
    rw [← hf.dispatched] at hp
    have hst := hset.stores hf.key (hli _ rfl) assembled complete
    refine And.imp_left (fun hq => hq.live hse) (hst.quiet ?_ hp)
    exact .dispatches dispatches (AList.lookup_insert _) rfl

/-- The peer's record of its lists only grows. -/
theorem sends_grow (hs : peer.sends coder e = some peer')
    (h : Faithful peer.lists request) : Faithful peer'.lists request := by
  obtain ⟨input, block⟩ := e
  cases input with
  | frame frame order dispatch =>
    by_cases ht : frame.header.type = .headers ∨ frame.header.type = .continuation
    · obtain ⟨_, _, _, _, ⟨-, rfl⟩ | ⟨list, ctx, -, -, -, rfl⟩⟩ := sends_header ht hs
      · exact h
      · exact h.snoc _
    · simp only [Peer.sends, if_neg ht] at hs
      split at hs
      · cases hs
        exact h
      · cases hs
  | overflow | respond | sendGoaway | close =>
    cases hs
    exact h

theorem InTouch.handled (h : InTouch s peer) (hs : Sound s) (hco : s.state = .connected)
    (hsn : peer.sends coder ⟨.frame frame order dispatch, block⟩ = some peer')
    (hcl : Clean coder s ⟨.frame frame order dispatch, block⟩)
    (hh : Handled s frame dispatch s' status) (hst : status ≠ .protocolError) :
    InTouch s' peer' := by
  have hp : ∀ request ∈ s.dispatched, Faithful peer'.lists request :=
    fun request hr => sends_grow hsn (h.past request hr)
  by_cases ht : frame.header.type = .headers ∨ frame.header.type = .continuation
  · obtain ⟨hl, hnow⟩ := (h.live hco).headers hs hsn hcl ht hh hst hp
    exact ⟨hnow, fun _ => hl⟩
  · simp only [Peer.sends, if_neg ht] at hsn
    split at hsn
    · rename_i hn
      cases hsn
      obtain ⟨hset, hnow⟩ := (h.live hco).toSettled.quiet (.handled hs hh hst ht) hp
      exact ⟨hnow, fun _ => hset.live hn⟩
    · cases hsn

theorem InTouch.step (h : InTouch s peer) (hh : Healthy s)
    (hst : step coder (s, peer) e = some link) (hcl : Clean coder s e) :
    InTouch link.1 link.2 ∧ Healthy link.1 := by
  obtain ⟨peer', hs, hli⟩ := Option.bind_eq_some_iff.mp hst
  cases hli
  refine ⟨?_, handle_healthy hh e.input⟩
  have hp := fun request hr => sends_grow hs (h.past request hr)
  obtain ⟨input, block⟩ := e
  have hsteps := handle_steps hh input
  dsimp only
  generalize s.handle input = t at hsteps ⊢
  cases hsteps with
  | frame received =>
    cases received with
    | ignored unconnected => exact ⟨hp, fun hc => absurd hc unconnected⟩
    | handled connected _ handled well =>
      exact h.handled (hh.sound connected) connected hs hcl handled well
    | failed _ dispatched =>
      refine ⟨?_, nofun⟩
      rw [H2Session.failConnection_dispatched, dispatched]
      exact hp
  | overflow =>
    cases hs
    refine ⟨?_, nofun⟩
    rw [H2Session.failConnection_dispatched]
    exact hp
  | respond =>
    cases hs
    refine ⟨hp, fun hc => ?_⟩
    have hl := h.live hc
    refine ⟨⟨hl.sized, hl.agree, hl.stored, hl.used⟩, ?_⟩
    intro id sofar hse
    obtain ⟨stream, hw⟩ := hl.within id sofar hse
    exact ⟨stream, hw.found, hw.block, hw.opened, hw.incomplete, hw.seen, hw.fresh⟩
  | goaway => exact ⟨hp, nofun⟩
  | close => exact ⟨hp, nofun⟩
  | gone => exact (Option.some.inj hs) ▸ h
  | silent => exact (Option.some.inj hs) ▸ h

theorem InTouch.run (h : InTouch link.1 link.2) (hh : Healthy link.1)
    (hrun : run coder link events = some link')
    (hc : CleanRun coder link events) : InTouch link'.1 link'.2 := by
  induction events generalizing link with
  | nil =>
    cases hrun
    exact h
  | cons e events ih =>
    obtain ⟨mid, hs, hr⟩ := Option.bind_eq_some_iff.mp hrun
    obtain ⟨hi, hm⟩ := h.step hh hs hc.1
    exact ih hi hm hr (hc.2 mid hs)

theorem created_in_touch
    (h : Accepted config) : InTouch (created connectionId config h).acceptPreface {} := by
  refine ⟨(fun request hr => by cases hr), fun _ => ⟨⟨create_sized, ?_, ?_, ?_⟩, ?_⟩⟩
  · exact (Nat.le_total _ _).imp (fun hl => ⟨hl, List.prefix_rfl⟩) (fun hl => ⟨hl, List.prefix_rfl⟩)
  · intro id stream hl
    cases hl
  · intro entry he
    cases he
  · intro id sofar hs
    cases hs

end Invariants

section Runs

instance (coder : Octets → Octets) (s : H2Session) (e : Event) : Decidable (Clean coder s e) :=
  inferInstanceAs (Decidable (_ ∧ ∀ rep ∈ e.block, Codable coder rep))

instance cleanRunDecidable (coder : Octets → Octets) :
    (link : H2Session × Peer) → (events : List Event) → Decidable (CleanRun coder link events)
  | _, [] => isTrue trivial
  | link, e :: events =>
    have := fun link' => cleanRunDecidable coder link' events
    inferInstanceAs (Decidable (Clean coder link.1 e ∧
      ∀ link' ∈ step coder link e, CleanRun coder link' events))

/-- If the decoder can follow the header blocks, each request carries the list of its stream. -/
theorem requests_carry_lists {coder : Octets → Octets} {s : H2Session} {connectionId : Nat}
    {config : H2ConnectionConfig}
    {link : H2Session × Peer} {events : List Event}
    (hcreate : H2Session.create connectionId config = .ok s)
    (hrun : run coder (s.acceptPreface, {}) events = some link)
    (hclean : CleanRun coder (s.acceptPreface, {}) events) :
    ∀ request ∈ link.1.dispatched, Faithful link.2.lists request := by
  obtain ⟨h, rfl⟩ := of_create hcreate
  exact ((created_in_touch h).run (created_healthy connectionId h) hrun hclean).past

def tightConfig : H2ConnectionConfig := { maximumHeaderListSize := 120 }

def settingsEvent : Event := { input := .frame ⟨{ type := .settings }, []⟩ [] .accepted }

def requestEvent (streamId : UInt32) (block : List Representation) : Event :=
  let payload := blockWire huffmanEncode block
  let header : FrameHeader := {
    length := UInt32.ofNat payload.length
    type := .headers
    flags := FrameFlags.endStream.octet ||| FrameFlags.endHeaders.octet
    streamId := streamId }
  ⟨.frame ⟨header, payload⟩ [] .accepted, block⟩

def plain (text : String) : Literal := ⟨octets text, false⟩

def getRoot (fields : List Representation) : List Representation :=
  .indexed 2 :: .indexed 4 :: fields

def pairOf (name : String) : Representation :=
  .literalIndexing (.literal (plain name)) (plain "1")

def shifted : List Event :=
  [settingsEvent, requestEvent 1 (getRoot [pairOf "x", pairOf "z", pairOf "y"]),
    requestEvent 3 (getRoot [.indexed 62])]

def cutShort : List Event :=
  [settingsEvent, requestEvent 1 (getRoot [pairOf "x", pairOf "z"]),
    requestEvent 3 (getRoot [.indexed 63])]

def observe (events : List Event) :
    Option (Bool × List (Nat × List HttpHeader) × Option (List HttpHeader)) :=
  (H2Session.create 1 tightConfig).toOption.bind fun s =>
    (run huffmanEncode (s.acceptPreface, {}) events).map fun link =>
      (decide (CleanRun huffmanEncode (s.acceptPreface, {}) events),
        link.1.dispatched.map (fun request => (request.requestId, request.headers)),
        link.2.lists.lookup 3)

theorem observed (h : observe events = some (clean, headers, list)) :
    ∃ s link, H2Session.create 1 tightConfig = .ok s ∧
      run huffmanEncode (s.acceptPreface, {}) events = some link ∧
      decide (CleanRun huffmanEncode (s.acceptPreface, {}) events) = clean ∧
      link.1.dispatched.map (fun request => (request.requestId, request.headers)) = headers ∧
      link.2.lists.lookup 3 = list := by
  obtain ⟨s, hs, h⟩ := Option.bind_eq_some_iff.mp h
  obtain ⟨link, hl, h⟩ := Option.map_eq_some_iff.mp h
  cases h
  refine ⟨s, link, ?_, hl, rfl, rfl, rfl⟩
  cases hc : H2Session.create 1 tightConfig with
  | error err =>
    rw [hc] at hs
    cases hs
  | ok s' =>
    rw [hc] at hs
    cases hs
    rfl

theorem requests_carry_lists_cut_short : ∃ s link, H2Session.create 1 tightConfig = .ok s ∧
      run huffmanEncode (s.acceptPreface, {}) cutShort = some link ∧
      CleanRun huffmanEncode (s.acceptPreface, {}) cutShort ∧ link.1.dispatched.length = 1 ∧
      ∀ request ∈ link.1.dispatched, Faithful link.2.lists request := by
  have h : observe cutShort = some (true, [(3, [⟨octets "x", octets "1"⟩])],
      some [⟨octets ":method", octets "GET"⟩, ⟨octets ":path", octets "/"⟩,
        ⟨octets "x", octets "1"⟩]) := by decide +kernel
  obtain ⟨s, link, hcreate, hrun, hclean, hheaders, -⟩ := observed h
  have hrunClean := of_decide_eq_true hclean
  refine ⟨s, link, hcreate, hrun, hrunClean, ?_, requests_carry_lists hcreate hrun hrunClean⟩
  simpa using congrArg List.length hheaders

/-- Stream 1 is reset in the middle of its block, and the next request is misread. -/
theorem request_misread : ∃ s link, H2Session.create 1 tightConfig = .ok s ∧
      run huffmanEncode (s.acceptPreface, {}) shifted = some link ∧
      ∃ request ∈ link.1.dispatched, ¬ Faithful link.2.lists request := by
  have h : observe shifted = some (false, [(3, [⟨octets "z", octets "1"⟩])],
      some [⟨octets ":method", octets "GET"⟩, ⟨octets ":path", octets "/"⟩,
        ⟨octets "y", octets "1"⟩]) := by decide +kernel
  obtain ⟨s, link, hcreate, hrun, -, hheaders, hlist⟩ := observed h
  obtain ⟨request, rest, hdispatched, hrequest, -⟩ := List.map_eq_cons_iff.mp hheaders
  refine ⟨s, link, hcreate, hrun, request, hdispatched ▸ List.mem_cons_self, ?_⟩
  rintro ⟨id, list, hid, hl, hcarries⟩
  obtain ⟨hthree, hz⟩ := Prod.mk.inj hrequest
  have hid' : id = 3 := UInt32.toNat_inj.mp (hid.symm.trans hthree)
  subst hid'
  cases hl.symm.trans hlist
  exact absurd (hz.symm.trans hcarries.headers) (by decide)

end Runs

end IocpRuntime.Proofs.HpackSession
