import IocpRuntime.Proofs.SessionRuns

namespace IocpRuntime.Proofs.FeedRuns
open Lib Http Http2 Http2.H2Session SessionRuns

variable {e e' : Endpoint}
  {config : H2ConnectionConfig}

structure Answered (s t : H2Session) : Prop where
  config : t.config = s.config
  decoder : t.hpackDecoder = s.hpackDecoder
  state : t.state = s.state
  last : t.lastStreamId = s.lastStreamId
  window : t.connectionRecvWindow = s.connectionRecvWindow
  settled : t.receivedInitialSettings = s.receivedInitialSettings
  continuation : t.continuationStreamId = s.continuationStreamId
  streams : t.streams = s.streams
  dispatched : t.dispatched = s.dispatched

theorem answered_answered (s : H2Session) (answers : List (UInt32 × HttpResponse)) :
    Answered s (s.answered answers) := by
  induction answers generalizing s with
  | nil => exact ⟨rfl, rfl, rfl, rfl, rfl, rfl, rfl, rfl, rfl⟩
  | cons answer answers ih =>
    have h := ih (s.handle (.respond answer.1 answer.2))
    exact ⟨h.config, h.decoder, h.state, h.last, h.window, h.settled, h.continuation, h.streams,
      h.dispatched⟩

theorem Answered.healthy (h : Answered s t) (hs : Healthy s) : Healthy t := by
  intro ho
  rw [h.state] at ho
  exact (hs ho).same h.streams h.last h.continuation

/-- A frame that met a connected session. -/
structure Met (arrival : Arrival) : Prop where
  healthy : Healthy arrival.before
  connected : arrival.before.state = .connected

theorem Met.received (h : Met arrival) :
    Received arrival.before arrival.frame arrival.dispatch arrival.after arrival.status :=
  receive_received h.healthy arrival.frame arrival.order arrival.dispatch

theorem Met.after_healthy (h : Met arrival) : Healthy arrival.after :=
  handle_healthy h.healthy (.frame arrival.frame arrival.order arrival.dispatch)

theorem cutOctets_eq_frame (h : cutOctets maximumFrameSize readable = .frame frame rest) :
    kHeaderSize + (headerOf readable).length.toNat ≤ readable.length ∧
      (headerOf readable).length ≤ maximumFrameSize ∧
      frame = ⟨headerOf readable,
        slice readable kHeaderSize (kHeaderSize + (headerOf readable).length.toNat)⟩ ∧
      rest = readable.drop (kHeaderSize + (headerOf readable).length.toNat) := by
  unfold cutOctets at h
  split at h
  · cases h
  dsimp only at h
  split at h
  · cases h
  rename_i hs
  split at h
  · cases h
  rename_i hwh
  cases h
  exact ⟨Nat.not_lt.mp hwh, UInt32.not_lt.mp hs, rfl, rfl⟩

inductive Rounds (environment : Environment) (e : Endpoint) : Endpoint.Round → Prop
  | mismatch (unconnected : e.session.state = .expectPreface) :
      Rounds environment e (.returns (e.closing.failConnection .protocolError) .closeRequired)
  | waits : Rounds environment e (.returns e .ready)
  | greeted (unconnected : e.session.state = .expectPreface) (rest : Octets)
      (shorter : rest.length < e.receiveBuffer.length) :
      Rounds environment e
        (.goesOn { e with session := e.session.acceptPreface, receiveBuffer := rest })
  | oversized (connected : e.session.state = .connected) :
      Rounds environment e (.returns (e.closing.failConnection .protocolError) .closeRequired)
  | framed (connected : e.session.state = .connected) (arrival : Arrival) (rest : Octets)
      (met : arrival.before = e.session.answered (environment e.arrivals).answers)
      (dispatch : arrival.dispatch = (environment e.arrivals).dispatch)
      (cut : cutOctets e.session.config.maximumFrameSize e.receiveBuffer =
        .frame arrival.frame rest) :
      Rounds environment e (e.frameRound arrival rest)

theorem round_rounds (environment : Environment) (e : Endpoint) :
    Rounds environment e (e.round environment) := by
  unfold Endpoint.round
  cases hs : e.session.state with
  | expectPreface =>
    dsimp only [Endpoint.prefaceRound]
    split
    · exact .mismatch hs
    · split
      · exact .waits
      · rename_i hl
        refine .greeted hs _ ?_
        have hp : 0 < kPreface.length := by decide
        rw [List.length_drop]
        omega
  | connected =>
    dsimp only
    cases hcut : cutOctets e.session.config.maximumFrameSize e.receiveBuffer with
    | needMore => exact .waits
    | protocolError => exact .oversized hs
    | frame frame rest => exact .framed hs _ rest rfl rfl hcut
  | closing => exact .waits
  | closed => exact .waits

structure Fed (e e' : Endpoint) (status : ProtocolFeedStatus) (new : List Arrival) : Prop where
  healthy : Healthy e'.session
  arrivals : e'.arrivals = e.arrivals ++ new
  met : ∀ arrival ∈ new, Met arrival
  statuses : ∀ arrival ∈ new, arrival.status = .ready ∨ arrival.status = status
  closed : e'.session.state = .closed → status = .closeRequired

theorem Fed.none (hh : Healthy e'.session) (ha : e'.arrivals = e.arrivals)
    (hc : e'.session.state = .closed → status = .closeRequired) : Fed e e' status [] :=
  ⟨hh, by simp [ha], by simp, by simp, hc⟩

theorem failed_fed : Fed e (e.closing.failConnection errorCode) .closeRequired [] :=
  .none (fun ho => absurd rfl ho) rfl (fun _ => rfl)

theorem acceptPreface_healthy (hs : Healthy s) (ho : s.state ≠ .closed) : Healthy s.acceptPreface :=
  fun _ => (hs ho).same rfl rfl rfl

theorem Fed.cons (ha : e'.arrivals = e.arrivals ++ [arrival]) (hmet : Met arrival)
    (hr : arrival.status = .ready) (h : Fed e' e'' status new) :
    Fed e e'' status (arrival :: new) := by
  refine ⟨h.healthy, by simp [h.arrivals, ha], ?_, ?_, h.closed⟩
  · intro other ho
    rcases List.mem_cons.mp ho with rfl | ho
    · exact hmet
    · exact h.met other ho
  · intro other ho
    rcases List.mem_cons.mp ho with rfl | ho
    · exact Or.inl hr
    · exact h.statuses other ho

theorem Fed.last (ha : e'.arrivals = e.arrivals ++ [arrival]) (hs : e'.session = arrival.after)
    (hmet : Met arrival) (hst : arrival.status = status) : Fed e e' status [arrival] := by
  refine ⟨hs ▸ hmet.after_healthy, ha, by simpa using hmet, by simp [hst], ?_⟩
  intro hc
  rw [hs] at hc
  rw [← hst]
  exact (hmet.received.closed_iff hmet.healthy hmet.connected).mpr hc

theorem loop_fed (environment : Environment) (rounds : Nat) (e : Endpoint)
    (hh : Healthy e.session) (ho : e.session.state ≠ .closed) :
    ∃ new, Fed e (Endpoint.loop environment rounds e).1 (Endpoint.loop environment rounds e).2 new := by
  induction rounds generalizing e with
  | zero => exact ⟨[], .none hh rfl (fun hc => absurd hc ho)⟩
  | succ rounds ih =>
    have hsti : Fed e e .ready [] := .none hh rfl (fun hc => absurd hc ho)
    unfold Endpoint.loop
    split
    · exact ⟨[], hsti⟩
    have hr := round_rounds environment e
    generalize e.round environment = round at hr
    cases hr with
    | mismatch => exact ⟨[], failed_fed⟩
    | waits => exact ⟨[], hsti⟩
    | greeted unconnected rest shorter =>
      obtain ⟨new, hnew⟩ := ih { e with session := e.session.acceptPreface, receiveBuffer := rest }
        (acceptPreface_healthy hh ho) (by simp [H2Session.acceptPreface, H2Session.send])
      exact ⟨new, hnew.healthy, hnew.arrivals, hnew.met, hnew.statuses, hnew.closed⟩
    | oversized => exact ⟨[], failed_fed⟩
    | framed connected arrival rest met dispatch cut =>
      have ha := answered_answered e.session (environment e.arrivals).answers
      have hmet : Met arrival :=
        ⟨met ▸ ha.healthy hh, met ▸ ha.state.trans connected⟩
      unfold Endpoint.frameRound
      cases hs : arrival.status with
      | ready =>
        dsimp only
        by_cases hst : arrival.after.state = .closing ∨ arrival.after.state = .closed
        · rw [if_pos hst]
          exact ⟨[arrival], .last rfl rfl hmet hs⟩
        · rw [if_neg hst]
          obtain ⟨new, hnew⟩ := ih { e with
            session := arrival.after, receiveBuffer := rest, arrivals := e.arrivals ++ [arrival] }
            hmet.after_healthy (fun hc => hst (Or.inr hc))
          exact ⟨arrival :: new, .cons rfl hmet hs hnew⟩
      | _ => exact ⟨[arrival], .last rfl rfl hmet hs⟩

theorem feed_fed (environment : Environment) (e : Endpoint) (bytes : Octets)
    (hh : Healthy e.session) (ho : e.session.state ≠ .closed) :
    ∃ new, Fed e (e.feed environment bytes).1 (e.feed environment bytes).2 new := by
  unfold Endpoint.feed
  rw [if_neg ho]
  split
  · exact ⟨[], .none (fun ho => absurd rfl ho) rfl (fun _ => rfl)⟩
  · obtain ⟨new, hnew⟩ := loop_fed environment (e.receiveBuffer.length + bytes.length)
      { e with receiveBuffer := e.receiveBuffer ++ bytes } hh ho
    exact ⟨new, hnew.healthy, hnew.arrivals, hnew.met, hnew.statuses, hnew.closed⟩

theorem handle_healthy_endpoint (h : Healthy e.session) (input : Endpoint.Input) :
    Healthy (e.handle input).session := by
  cases input with
  | feed bytes environment =>
    by_cases ho : e.session.state = .closed
    · simp only [Endpoint.handle, Endpoint.feed, ho, if_true]
      exact h
    · exact (feed_fed environment e bytes h ho).choose_spec.healthy
  | respond streamId response => exact handle_healthy h (.respond streamId response)
  | sendGoaway errorCode => exact handle_healthy h (.sendGoaway errorCode)
  | close => exact handle_healthy h .close

def endpoint (connectionId : Nat) (config : H2ConnectionConfig) (h : Accepted config) :
    Endpoint where
  session := created connectionId config h

theorem endpoint_create_eq (connectionId : Nat) (h : Accepted config) :
    Endpoint.create connectionId config = .ok (endpoint connectionId config h) := by
  simp only [Endpoint.create, create_eq connectionId h]
  rfl

theorem of_endpoint_create {connectionId : Nat} (h : Endpoint.create connectionId config = .ok e) :
    ∃ accepted : Accepted config, e = endpoint connectionId config accepted := by
  unfold Endpoint.create at h
  cases hc : H2Session.create connectionId config with
  | error thrown =>
    rw [hc] at h
    cases h
  | ok s =>
    obtain ⟨accepted, rfl⟩ := of_create hc
    rw [hc] at h
    cases h
    exact ⟨accepted, rfl⟩

theorem endpoint_reached (connectionId : Nat) (h : Accepted config) (inputs : List Endpoint.Input) :
    Healthy (Runs.final Endpoint.handle (endpoint connectionId config h) inputs).session :=
  Runs.final_invariant (motive := fun e : Endpoint => Healthy e.session) (healthy_of_empty rfl rfl)
    (fun _ input he => handle_healthy_endpoint he input) inputs

end IocpRuntime.Proofs.FeedRuns
