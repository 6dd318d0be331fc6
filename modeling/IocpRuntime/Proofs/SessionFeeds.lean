import IocpRuntime.Http.Session
import IocpRuntime.Lib.Runs
import IocpRuntime.Proofs.MessageCalls
import IocpRuntime.Proofs.RingContents

namespace IocpRuntime.Proofs.SessionFeeds
open Lib Buffer Http Execution HttpSession ParserSteps ParserSegments MessageCalls RingContents

section Rounds
/-- The rounds of a call of `Feed` up to its return. -/
inductive Feeding (submit : Nat → SubmitStatus) : Nat → HttpSession → Nat → Fed → Prop
  | returns {s t : HttpSession} {now : Nat} {result : ProtocolFeedResult} {effects : List Effect}
      (last : s.round now (submit s.requestsDispatched) = .returns t result effects) :
      Feeding submit 1 s now ⟨t, .returned result, effects⟩
  | goesOn {n : Nat} {s t : HttpSession} {now later : Nat} {effects : List Effect} {fed : Fed}
      (first : s.round now (submit s.requestsDispatched) = .goesOn t later effects)
      (rest : Feeding submit n t later fed) :
      Feeding submit (n + 1) s now { fed with effects := effects ++ fed.effects }

theorem loop_feeding (h : Feeding submit n s now fed) (hn : n ≤ rounds) :
    loop submit rounds s now = fed := by
  induction h generalizing rounds with
  | returns last =>
    obtain ⟨rounds, rfl⟩ := Nat.exists_eq_add_of_le' hn
    rw [loop, last]
  | goesOn first _ ih =>
    obtain ⟨rounds, rfl⟩ := Nat.exists_eq_add_of_le' (Nat.le_trans (Nat.le_add_left 1 _) hn)
    rw [loop, first]
    dsimp only
    rw [ih (Nat.le_of_succ_le_succ hn)]

def input (s : HttpSession) : BufferSequence := s.receiveBuffer.readableSequence

theorem input_bytes (s : HttpSession) : (input s).bytes = s.receiveBuffer.contents :=
  s.receiveBuffer.bytes_readableSequence

/-- The rounds up to the one that is not for a header result: in between, an interim response
may be sent. -/
inductive Interim (s : HttpSession) (now : Nat) (submit : SubmitStatus) (q : HttpRequestParser)
    (result : HttpParseResult) : Prop
  | direct (same : s.round now submit = onParsed { s with parser := q } result now submit)
  | announced {p : HttpRequestParser} {effects : List Effect}
      (first : s.round now submit = .goesOn { s with parser := p } now effects)
      (sends : ∀ effect ∈ effects, ∃ response, effect = .send response)
      (second : HttpSession.round { s with parser := p } now submit =
        onParsed { s with parser := q } result now submit)

theorem interim_of_call
    (h : call (input s) s.parser = (q, .returned result)) (now : Nat) (submit : SubmitStatus) :
    Interim s now submit q result := by
  unfold call at h
  split at h
  · rename_i p parsed hp
    have hr : s.round now submit = onParsed { s with parser := p } parsed now submit := by
      unfold HttpSession.round
      rw [show s.receiveBuffer.readableSequence = input s from rfl, hp]
    split at h
    · rename_i hs
      have hf : s.round now submit = .goesOn { s with parser := p } now
          (if parsed.expectContinue then [.send (makeTextResponse 100 [] (octets "text/plain"))]
            else []) := by
        rw [hr, onParsed, hs]
      refine .announced hf ?_ ?_
      · intro effect he
        split at he
        · exact ⟨_, List.mem_singleton.mp he⟩
        · cases he
      · unfold HttpSession.round
        rw [show ({ s with parser := p } : HttpSession).receiveBuffer.readableSequence = input s from rfl]
        dsimp only
        rw [h]
    · cases h
      exact .direct hr
  · rename_i hnot
    exact absurd h (hnot q result)

end Rounds

def willing : Nat → SubmitStatus := fun _ => .accepted

section Serving

def dispatches (effects : List Effect) : List HttpRequest :=
  effects.filterMap fun effect =>
    match effect with
    | .dispatch request _ => some request
    | _ => none

def numbered (connectionId count : Nat) (request : HttpRequest) : HttpRequest :=
  { request with requestId := count + 1, connectionId := connectionId }

def closing (maximum count : Nat) (request : HttpRequest) : Bool :=
  !request.keepAlive || decide (count + 1 ≥ maximum)

/-- All of them, or those up to the first that closes the connection. -/
def served (connectionId maximum : Nat) : Nat → List HttpRequest → List HttpRequest
  | _, [] => []
  | count, request :: requests =>
    numbered connectionId count request ::
      if closing maximum count request then [] else served connectionId maximum (count + 1) requests

structure Message (options : HttpParserOptions) where
  wire : BufferSequence
  request : HttpRequest
  whole : Whole options wire request

variable {messages : List (Message options)}

def stream (messages : List (Message options)) : Octets := messages.flatMap (·.wire.bytes)

theorem Message.filled (m : Message options) : 0 < m.wire.bytes.length := by
  refine Nat.pos_of_ne_zero (fun hz => ?_)
  have he : m.wire.bytes = [] := List.length_eq_zero_iff.mp hz
  have hs : scanned (start options) m.wire.bytes = .paused 0 := by
    rw [he]
    rfl
  have hst := step_paused start_live (Or.inl rfl) hs
  have hca := call_eq start_live .refl (.returned hst nofun)
  have hwh := m.whole
  rw [Whole, drive, hca] at hwh
  cases hwh

/-- A session in the middle of a stream, with a part of the first message or more in its
buffer. -/
structure Serving (messages : List (Message options)) (s : HttpSession) : Prop where
  running : s.stopped = false
  inTime : s.parserTimedOut = false
  ids : s.nextRequestId = s.requestsDispatched + 1
  allowed : s.requestsDispatched < s.maximumRequestsPerConnection.toNat
  buffered : s.receiveBuffer.contents <+: stream messages
  parser : match messages with
    | [] => s.parser = start options
    | m :: _ => Pending options m.wire s.parser ∧
        s.parser.scanOffset ≤ s.receiveBuffer.contents.length

def Settled (messages : List (Message options)) (s : HttpSession) : Prop :=
  Serving messages s ∧ ∀ m ∈ messages.head?, s.receiveBuffer.contents.length < m.wire.bytes.length

theorem call_empty (h : u.bytes = []) : call u (start options) = (start options, .returned {}) := by
  have hs : scanned (start options) u.bytes = .paused 0 := by
    rw [h]
    rfl
  have hst := step_paused start_live (Or.inl rfl) hs
  exact call_eq start_live .refl (.returned hst nofun)

/-- What a call of the parser finds in the buffer: too little, or a message. -/
theorem Serving.called (h : Serving messages s) :
    (∃ q result, call (input s) s.parser = (q, .returned result) ∧ result.status = .incomplete ∧
        Settled messages { s with parser := q }) ∨
      ∃ m rest result, messages = m :: rest ∧ m.wire.bytes <+: s.receiveBuffer.contents ∧
        call (input s) s.parser = (start options, .returned result) ∧ result.status = .complete ∧
        result.request = m.request ∧ result.consumedBytes = m.wire.bytes.length := by
  cases messages with
  | nil =>
    have he : s.receiveBuffer.contents = [] := List.prefix_nil.mp h.buffered
    have hpa : s.parser = start options := h.parser
    left
    refine ⟨start options, {}, ?_, rfl, ⟨?_, nofun⟩⟩
    · rw [hpa]
      exact call_empty ((input_bytes s).trans he)
    · exact ⟨h.running, h.inTime, h.ids, h.allowed, h.buffered, rfl⟩
  | cons m rest =>
    obtain ⟨hp, hi⟩ := h.parser
    have hb := input_bytes s
    have hm : m.wire.bytes <+: stream (m :: rest) := List.prefix_append _ _
    rcases Nat.lt_or_ge s.receiveBuffer.contents.length m.wire.bytes.length with hsh | hl
    · have hpr : s.receiveBuffer.contents <+: m.wire.bytes :=
        List.prefix_of_prefix_length_le h.buffered hm (Nat.le_of_lt hsh)
      obtain ⟨q, result, hca, hs, hq, ho⟩ := hp.call_incomplete m.whole
        (u := input s) (hb ▸ hpr) (hb ▸ hsh) (hb ▸ hi)
      rw [hb] at ho
      refine .inl ⟨q, result, hca, hs, ⟨?_, ?_⟩⟩
      · exact ⟨h.running, h.inTime, h.ids, h.allowed, h.buffered, hq, ho⟩
      · rintro m' hm'
        cases hm'
        exact hsh
    · have ht : m.wire.bytes <+: s.receiveBuffer.contents :=
        List.prefix_of_prefix_length_le hm h.buffered hl
      obtain ⟨result, hca, hs, hr, hc⟩ := hp.call_complete m.whole (u := input s) (hb ▸ ht)
      exact .inr ⟨m, rest, result, rfl, ht, hca, hs, hr, hc⟩

section Turns
variable (submit : Nat → SubmitStatus)

theorem dispatches_append : dispatches (a ++ b) = dispatches a ++ dispatches b := List.filterMap_append

theorem dispatches_sends (h : ∀ effect ∈ effects, ∃ response, effect = .send response) :
    dispatches effects = [] := by
  refine List.filterMap_eq_nil_iff.mpr ?_
  intro effect he
  obtain ⟨response, rfl⟩ := h effect he
  rfl

theorem Interim.returns (h : Interim s now (submit s.requestsDispatched) q result)
    (hl : onParsed { s with parser := q } result now (submit s.requestsDispatched) =
      .returns t feedResult effects) :
    ∃ n interim, n ≤ 2 ∧ dispatches interim = [] ∧
      Feeding submit n s now ⟨t, .returned feedResult, interim ++ effects⟩ := by
  cases h with
  | direct same => exact ⟨1, [], by decide, rfl, .returns (same.trans hl)⟩
  | announced first sends second =>
    exact ⟨2, _, Nat.le_refl _, dispatches_sends sends, .goesOn first (.returns (second.trans hl))⟩

theorem Interim.goesOn (h : Interim s now (submit s.requestsDispatched) q result)
    (hn : onParsed { s with parser := q } result now (submit s.requestsDispatched) =
      .goesOn t later effects) (hr : Feeding submit n t later fed) :
    ∃ k interim, k ≤ n + 2 ∧ dispatches interim = [] ∧
      Feeding submit k s now { fed with effects := interim ++ (effects ++ fed.effects) } := by
  cases h with
  | direct same => exact ⟨n + 1, [], by omega, rfl, .goesOn (same.trans hn) hr⟩
  | announced first sends second =>
    exact ⟨n + 2, _, Nat.le_refl _, dispatches_sends sends,
      .goesOn first (.goesOn (second.trans hn) hr)⟩

end Turns

structure Same (s t : HttpSession) : Prop where
  connection : t.connectionId = s.connectionId
  maximum : t.maximumRequestsPerConnection = s.maximumRequestsPerConnection
  capacity : t.receiveBuffer.maximumCapacity = s.receiveBuffer.maximumCapacity

theorem Same.trans (h : Same s t) (h' : Same t u) : Same s u :=
  ⟨h'.connection.trans h.connection, h'.maximum.trans h.maximum, h'.capacity.trans h.capacity⟩

def owed (s : HttpSession) (messages : List (Message options)) : List HttpRequest :=
  if s.stopped then []
  else served s.connectionId s.maximumRequestsPerConnection.toNat s.requestsDispatched
    (messages.map (·.request))

/-- A complete message is dispatched and leaves the buffer. -/
theorem Serving.dispatched {m : Message options} (h : Serving (m :: rest) s)
    (ht : m.wire.bytes <+: s.receiveBuffer.contents) (hst : result.status = .complete)
    (hr : result.request = m.request) (hco : result.consumedBytes = m.wire.bytes.length) :
    ∃ t effect, dispatches [effect] = [numbered s.connectionId s.requestsDispatched m.request] ∧
      Same s t ∧ t.requestsDispatched = s.requestsDispatched + 1 ∧
      s.receiveBuffer.contents = m.wire.bytes ++ t.receiveBuffer.contents ∧
      if closing s.maximumRequestsPerConnection.toNat s.requestsDispatched m.request then
        t.stopped = true ∧ ∃ feedResult, feedResult.status = .ready ∧
          onParsed { s with parser := start options } result now .accepted =
            .returns t feedResult [effect]
      else Serving rest t ∧
        onParsed { s with parser := start options } result now .accepted =
          .goesOn t (now + 1) [effect] := by
  have hl : m.wire.bytes.length ≤ s.receiveBuffer.readableBytes :=
    Nat.le_trans ht.length_le s.receiveBuffer.length_contents.le
  obtain ⟨ring, hcon, hcn, hca⟩ := consume_contents hl
  have hs : s.receiveBuffer.contents = m.wire.bytes ++ ring.contents := by
    obtain ⟨more, hm⟩ := ht
    rw [hcn, ← hm, List.drop_left]
  have htu : onParsed { s with parser := start options } result now .accepted =
      dispatch { s with parser := start options, receiveBuffer := ring } m.request now .accepted := by
    simp only [onParsed, hst, hco, hcon, hr]
  have hids := h.ids
  cases hc : closing s.maximumRequestsPerConnection.toNat s.requestsDispatched m.request with
  | true =>
    refine ⟨{ s with
      parser := start options
      receiveBuffer := ring
      requestsDispatched := s.requestsDispatched + 1
      nextRequestId := s.nextRequestId + 1
      stopped := true }, .dispatch (numbered s.connectionId s.requestsDispatched m.request) true, rfl,
      ⟨rfl, rfl, hca⟩, rfl, hs, ?_⟩
    rw [if_pos rfl, htu]
    unfold closing at hc
    simp only [dispatch, toDispatchStatus, ne_eq, not_true_eq_false, if_false, hc, if_true, hids]
    exact ⟨trivial, _, rfl, rfl⟩
  | false =>
    refine ⟨{ s with
      parser := start options
      receiveBuffer := ring
      requestsDispatched := s.requestsDispatched + 1
      nextRequestId := s.nextRequestId + 1 },
      .dispatch (numbered s.connectionId s.requestsDispatched m.request) false, rfl,
      ⟨rfl, rfl, hca⟩, rfl, hs, ?_⟩
    rw [if_neg Bool.false_ne_true, htu]
    have ho := hc
    unfold closing at ho
    simp only [Bool.or_eq_false_iff, decide_eq_false_iff_not] at ho
    have hbu : ring.contents <+: stream rest := by
      have hb := h.buffered
      rw [hs] at hb
      exact (List.prefix_append_right_inj _).mp hb
    refine ⟨⟨h.running, h.inTime, ?_, ?_, hbu, ?_⟩, ?_⟩
    · exact congrArg (· + 1) hids
    · exact Nat.lt_of_not_le ho.2
    · cases rest with
      | nil => rfl
      | cons next rest => exact ⟨pending_start options next.wire, Nat.zero_le _⟩
    · unfold closing at hc
      simp only [dispatch, toDispatchStatus, ne_eq, not_true_eq_false, if_false, hc,
        Bool.false_eq_true, hids]
      rfl

structure Feeds (messages : List (Message options)) (s : HttpSession) (fed : Fed)
    (rest : List (Message options)) : Prop where
  ready : ∃ result, fed.outcome = .returned result ∧ result.status = .ready
  same : Same s fed.session
  requests : dispatches fed.effects ++ owed fed.session rest = owed s messages
  settled : fed.session.stopped = false → Settled rest fed.session ∧
    ∃ taken, stream messages = taken ++ stream rest ∧
      s.receiveBuffer.contents = taken ++ fed.session.receiveBuffer.contents

theorem owed_running (h : s.stopped = false) :
    owed s messages = served s.connectionId s.maximumRequestsPerConnection.toNat
      s.requestsDispatched (messages.map (·.request)) := by
  rw [owed, if_neg (by rw [h]; exact Bool.false_ne_true)]

theorem owed_stopped (h : s.stopped = true) (messages : List (Message options)) :
    owed s messages = [] := by
  rw [owed, if_pos h]

/-- A message is the first to be dispatched of those that are owed. -/
theorem owed_cons (hs : s.stopped = false)
    (hsa : Same s t) (hc : t.requestsDispatched = s.requestsDispatched + 1)
    (hst : t.stopped =
      closing s.maximumRequestsPerConnection.toNat s.requestsDispatched m.request) :
    owed s (m :: rest) = numbered s.connectionId s.requestsDispatched m.request :: owed t rest := by
  rw [owed_running hs, List.map_cons, served, owed, hst, hsa.connection, hsa.maximum, hc]

theorem feeding_incomplete
    (hc : call (input s) s.parser = (q, .returned result)) (hst : result.status = .incomplete)
    (hs : Settled messages { s with parser := q }) :
    ∃ n fed, Feeding willing n s now fed ∧ n ≤ 2 * s.receiveBuffer.contents.length + 2 ∧
      Feeds messages s fed messages ∧ fed.session = { s with parser := q } := by
  have hl : onParsed { s with parser := q } result now .accepted =
      .returns { s with parser := q } ⟨.ready, now, s.receiveBuffer.readableBytes⟩ [] := by
    simp only [onParsed, hst]
  obtain ⟨n, interim, hn, hse, hf⟩ := (interim_of_call hc now .accepted).returns willing hl
  refine ⟨n, _, hf, by omega, ⟨⟨_, rfl, rfl⟩, ⟨rfl, rfl, rfl⟩, ?_, fun _ => ?_⟩, rfl⟩
  · dsimp only
    rw [List.append_nil, hse]
    rfl
  · exact ⟨hs, [], rfl, rfl⟩

/-- The rounds of a call go through all complete messages, or to one that closes the
connection. -/
theorem Serving.feeding (h : Serving messages s) : ∃ n fed rest, Feeding willing n s now fed ∧
      n ≤ 2 * s.receiveBuffer.contents.length + 2 ∧ Feeds messages s fed rest := by
  induction messages generalizing s now with
  | nil =>
    rcases h.called with ⟨q, result, hca, hst, hs⟩ | ⟨m, rest, result, hnil, -⟩
    · obtain ⟨n, fed, hfed, hn, hfe, -⟩ := feeding_incomplete hca hst hs
      exact ⟨n, fed, [], hfed, hn, hfe⟩
    · cases hnil
  | cons m rest ih =>
    rcases h.called with ⟨q, result, hca, hst, hs⟩ |
      ⟨_, _, result, hcns, ht, hca, hst, hreq, hco⟩
    · obtain ⟨n, fed, hfed, hn, hfe, -⟩ := feeding_incomplete hca hst hs
      exact ⟨n, fed, m :: rest, hfed, hn, hfe⟩
    · cases hcns
      obtain ⟨t, effect, he, hsa, hcn, hsp, htu⟩ :=
        h.dispatched ht hst hreq hco
      have hi := interim_of_call hca now .accepted
      have hl := congrArg List.length hsp
      rw [List.length_append] at hl
      have hfi := m.filled
      cases hc : closing s.maximumRequestsPerConnection.toNat s.requestsDispatched m.request with
      | true =>
        rw [hc, if_pos rfl] at htu
        obtain ⟨hsto, feedResult, hre, hla⟩ := htu
        obtain ⟨n, interim, hn, hse, hf⟩ :=
          hi.returns willing hla
        refine ⟨n, _, rest, hf, by omega, ⟨_, rfl, hre⟩, hsa, ?_, fun hr => ?_⟩
        · rw [owed_cons h.running hsa hcn (hsto.trans hc.symm), owed_stopped hsto]
          dsimp only
          rw [dispatches_append, hse, he]
          rfl
        · cases hsto.symm.trans hr
      | false =>
        rw [hc, if_neg Bool.false_ne_true] at htu
        obtain ⟨hsr, hne⟩ := htu
        obtain ⟨n, fed, left, hf, hn, hre, hfd, hrq, hs⟩ :=
          ih hsr
        obtain ⟨k, interim, hk, hse, hall⟩ :=
          hi.goesOn willing hne hf
        refine ⟨k, _, left, hall, by omega, hre, hsa.trans hfd, ?_, fun hr => ?_⟩
        · rw [owed_cons h.running hsa hcn (hsr.running.trans hc.symm), ← hrq]
          dsimp only
          rw [dispatches_append, dispatches_append, hse, he]
          rfl
        · obtain ⟨hle, taken, hstr, hcon⟩ := hs hr
          refine ⟨hle, m.wire.bytes ++ taken, ?_, ?_⟩
          · rw [List.append_assoc, ← hstr]
            rfl
          · rw [List.append_assoc, ← hcon]
            exact hsp

end Serving

section Streams
variable {messages : List (Message options)} {s : HttpSession}

/-- There is room for more octets: within the limit of the buffer, and in memory. -/
structure Fits (s : HttpSession) (bytes : Octets) : Prop where
  limit : s.receiveBuffer.contents.length + bytes.length ≤ s.receiveBuffer.maximumCapacity.toNat
  memory : s.receiveBuffer.contents.length + bytes.length ≤ 2 ^ 62

theorem Serving.appended (h : Serving messages s)
    (hc : ring.contents = s.receiveBuffer.contents ++ bytes)
    (hs : s.receiveBuffer.contents ++ bytes <+: stream messages) :
    Serving messages { s with receiveBuffer := ring } := by
  refine ⟨h.running, h.inTime, h.ids, h.allowed, ?_, ?_⟩
  · rw [hc]
    exact hs
  · have hp := h.parser
    cases messages with
    | nil => exact hp
    | cons m rest =>
      refine ⟨hp.1, ?_⟩
      dsimp only
      rw [hc, List.length_append]
      exact Nat.le_trans hp.2 (Nat.le_add_right _ _)

/-- The octets get into the buffer, and the rounds follow. -/
theorem Settled.entered (h : Settled messages s) (hfi : Fits s bytes)
    (hst : s.receiveBuffer.contents ++ bytes <+: stream messages) :
    ∃ ring : RingReceiveBuffer, ring.contents = s.receiveBuffer.contents ++ bytes ∧
      ring.maximumCapacity = s.receiveBuffer.maximumCapacity ∧
      Serving messages { s with receiveBuffer := ring } ∧
      ∀ n fed, Feeding willing n { s with receiveBuffer := ring } 0 fed →
        n ≤ 2 * ring.contents.length + 2 → feed willing s bytes = fed := by
  obtain ⟨hs, -⟩ := h
  obtain ⟨hl, hm⟩ := hfi
  rw [s.receiveBuffer.length_contents] at hl hm
  obtain ⟨ring, ha, hc, hca⟩ := append_ready hl hm
  have he : s.enter bytes (willing s.requestsDispatched) =
      .goesOn { s with receiveBuffer := ring } 0 [] := by
    simp [enter, hs.inTime, hs.running, ha]
  refine ⟨ring, hc, hca, hs.appended hc hst, fun n fed hf hn => ?_⟩
  rw [HttpSession.feed, he]
  dsimp only
  rw [loop_feeding hf (by rw [← ring.length_contents]; exact hn)]
  rfl

theorem Settled.feeds (h : Settled messages s) (hfi : Fits s bytes)
    (hst : s.receiveBuffer.contents ++ bytes <+: stream messages) :
    ∃ rest : List (Message options),
      (∃ result, (feed willing s bytes).outcome = .returned result ∧ result.status = .ready) ∧
      Same s (feed willing s bytes).session ∧
      dispatches (feed willing s bytes).effects ++ owed (feed willing s bytes).session rest =
        owed s messages ∧
      ((feed willing s bytes).session.stopped = false → Settled rest (feed willing s bytes).session ∧
        ∃ taken, stream messages = taken ++ stream rest ∧ s.receiveBuffer.contents ++ bytes =
          taken ++ (feed willing s bytes).session.receiveBuffer.contents) := by
  obtain ⟨ring, hc, hca, hs, hfe⟩ := h.entered hfi hst
  obtain ⟨n, fed, rest, hf, hn, hre, hsa, hr, hse⟩ := hs.feeding
  rw [hfe n fed hf hn]
  refine ⟨rest, hre, ?_, hr, fun hru => ?_⟩
  · exact ⟨hsa.connection, hsa.maximum, hsa.capacity.trans hca⟩
  · obtain ⟨hl, taken, ht, hb⟩ := hse hru
    exact ⟨hl, taken, ht, hc.symm.trans hb⟩

theorem Settled.fed_short (h : Settled (m :: rest) s) (hfi : Fits s bytes)
    (hst : s.receiveBuffer.contents ++ bytes <+: m.wire.bytes)
    (hsh : s.receiveBuffer.contents.length + bytes.length < m.wire.bytes.length) :
    Settled (m :: rest) (feed willing s bytes).session ∧ Same s (feed willing s bytes).session ∧
      (feed willing s bytes).session.receiveBuffer.contents = s.receiveBuffer.contents ++ bytes := by
  obtain ⟨ring, hc, hca, hse, hfe⟩ :=
    h.entered hfi (hst.trans (List.prefix_append _ _))
  rcases hse.called with ⟨q, result, hcl, hsta, hs⟩ |
    ⟨m', rest', result, hco, ht, -⟩
  · obtain ⟨n, fed, hf, hn, -, hss⟩ := feeding_incomplete hcl hsta hs
    rw [hfe n fed hf hn, hss]
    exact ⟨hs, ⟨rfl, rfl, hca⟩, hc⟩
  · cases hco
    have hl := ht.length_le
    dsimp only at hl
    rw [hc, List.length_append] at hl
    omega

theorem enter_stopped (h : s.stopped = true) :
    s.enter bytes status = .returns s ⟨.stopped, 0, s.receiveBuffer.readableBytes⟩ [] := by
  have hs : { s with stopped := true } = s := by rw [← h]
  unfold enter
  rw [hs, if_pos h, ite_self]

theorem feed_stopped (h : s.stopped = true) : feed submit s bytes =
      ⟨s, .returned ⟨.stopped, 0, s.receiveBuffer.readableBytes⟩, []⟩ := by
  rw [HttpSession.feed, enter_stopped h]

abbrev FeedEvent := Runs.Event HttpSession Octets

def fedSession (s : HttpSession) (bytes : Octets) : HttpSession := (feed willing s bytes).session

def dispatchedBy (event : FeedEvent) : List HttpRequest :=
  dispatches (feed willing event.before event.input).effects

theorem stopped_history (h : s.stopped = true) :
    ∀ event ∈ Runs.history fedSession s pieces, event.before = s := by
  induction pieces with
  | nil => exact fun _ he => absurd he List.not_mem_nil
  | cons bytes pieces ih =>
    have hs : fedSession s bytes = s := congrArg Fed.session (feed_stopped h)
    intro event he
    rw [Runs.history, hs] at he
    rcases List.mem_cons.mp he with rfl | he
    · rfl
    · exact ih event he

theorem stopped_dispatches (h : s.stopped = true) (pieces : List Octets) :
    (Runs.history fedSession s pieces).flatMap dispatchedBy = [] := by
  refine List.flatMap_eq_nil_iff.mpr (fun event he => ?_)
  rw [dispatchedBy, stopped_history h event he, feed_stopped h]
  rfl

/-- A call that takes what it is given, or finds the session stopped. -/
def Returns (event : FeedEvent) : Prop :=
  ∃ result, (feed willing event.before event.input).outcome = .returned result ∧
    (result.status = .ready ∨ result.status = .stopped)

theorem stopped_returns (h : event.before.stopped = true) : Returns event := by
  rw [Returns, feed_stopped h]
  exact ⟨_, rfl, Or.inr rfl⟩

/-- However a stream is split, the session dispatches its requests in order, up to the first
that closes the connection. -/
theorem stream_dispatched (h : Settled messages s)
    (hs : s.receiveBuffer.contents ++ pieces.flatten = stream messages)
    (hfi : ∀ event ∈ Runs.history fedSession s pieces, event.before.stopped = false →
      Fits event.before event.input) :
    (Runs.history fedSession s pieces).flatMap dispatchedBy = owed s messages ∧
      ∀ event ∈ Runs.history fedSession s pieces, Returns event := by
  induction pieces generalizing s messages with
  | nil =>
    refine ⟨?_, fun _ he => absurd he List.not_mem_nil⟩
    rw [List.flatten_nil, List.append_nil] at hs
    cases messages with
    | nil =>
      rw [owed_running h.1.running]
      rfl
    | cons m rest =>
      -- all octets have arrived, so the first message is off the buffer
      have hsh := h.2 m rfl
      rw [hs, stream, List.flatMap_cons, List.length_append] at hsh
      omega
  | cons bytes pieces ih =>
    rw [List.flatten_cons, ← List.append_assoc] at hs
    have hnow : Fits s bytes := hfi ⟨s, bytes⟩ List.mem_cons_self h.1.running
    obtain ⟨rest, ⟨result, hr, hrd⟩, -, hre, hse⟩ := h.feeds hnow ⟨_, hs⟩
    have hf : Returns ⟨s, bytes⟩ := ⟨result, hr, Or.inl hrd⟩
    rw [Runs.history, List.flatMap_cons, ← hre, List.forall_mem_cons]
    cases hst : (fedSession s bytes).stopped with
    | true =>
      have hn := (stopped_dispatches hst pieces).trans (owed_stopped hst rest).symm
      refine ⟨congrArg (dispatchedBy ⟨s, bytes⟩ ++ ·) hn, hf, fun event he => ?_⟩
      refine stopped_returns ?_
      rw [stopped_history hst event he]
      exact hst
    | false =>
      obtain ⟨hl, taken, ht, hb⟩ := hse hst
      rw [hb, List.append_assoc, ht] at hs
      obtain ⟨hrs, hrt⟩ := ih hl (List.append_cancel_left hs)
        (fun event he => hfi event (List.mem_cons_of_mem _ he))
      exact ⟨congrArg (dispatchedBy ⟨s, bytes⟩ ++ ·) hrs, hf, hrt⟩

/-- A stream that fits as a whole fits in any split. -/
theorem stream_fits (h : Settled messages s)
    (hs : s.receiveBuffer.contents ++ pieces.flatten = stream messages)
    (hro : Fits s pieces.flatten) :
    ∀ event ∈ Runs.history fedSession s pieces, event.before.stopped = false →
      Fits event.before event.input := by
  induction pieces generalizing s messages with
  | nil => exact fun _ he => absurd he List.not_mem_nil
  | cons bytes pieces ih =>
    rw [List.flatten_cons] at hs hro
    rw [← List.append_assoc] at hs
    obtain ⟨hli, hm⟩ := hro
    rw [List.length_append] at hli hm
    have hnow : Fits s bytes := ⟨by omega, by omega⟩
    intro event he hr
    rcases List.mem_cons.mp he with rfl | he
    · exact hnow
    obtain ⟨rest, -, hsa, -, hse⟩ := h.feeds hnow ⟨_, hs⟩
    cases hst : (fedSession s bytes).stopped with
    | true =>
      rw [stopped_history hst event he] at hr
      cases hst.symm.trans hr
    | false =>
      obtain ⟨hle, taken, ht, hb⟩ := hse hst
      have hl := congrArg List.length hb
      rw [List.length_append, List.length_append] at hl
      rw [hb, List.append_assoc, ht] at hs
      have hc := congrArg UInt64.toNat hsa.capacity
      refine ih hle (List.append_cancel_left hs) ⟨?_, ?_⟩ event he hr
      · omega
      · omega

theorem create_settled {connectionId : Nat}
    (h : HttpSession.create connectionId sessionOptions = .ok s)
    (messages : List (Message sessionOptions.parser)) :
    Settled messages s ∧ s.receiveBuffer.contents = [] ∧ s.connectionId = connectionId ∧
      s.maximumRequestsPerConnection = sessionOptions.maximumRequestsPerConnection ∧
      s.requestsDispatched = 0 ∧
      s.receiveBuffer.maximumCapacity = sessionOptions.maximumBufferBytes := by
  obtain ⟨ring, parser, hr, hp, hm, rfl⟩ := create_eq h
  obtain ⟨he, hc⟩ := create_contents hr
  obtain ⟨rfl, -⟩ := create_ok hp
  refine ⟨⟨⟨rfl, rfl, rfl, ?_, ?_, ?_⟩, ?_⟩, he, rfl, rfl, rfl, hc⟩
  · refine Nat.pos_of_ne_zero (fun hz => hm ?_)
    exact UInt64.toNat_inj.mp hz
  · dsimp only
    rw [he]
    exact List.nil_prefix
  · cases messages with
    | nil => rfl
    | cons m rest => exact ⟨pending_start _ m.wire, Nat.zero_le _⟩
  · intro m _
    dsimp only
    rw [he]
    exact m.filled

end Streams

end IocpRuntime.Proofs.SessionFeeds
