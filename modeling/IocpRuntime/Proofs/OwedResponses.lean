import IocpRuntime.Proofs.FeedSteps
import IocpRuntime.Server.ReceiveHandler

namespace IocpRuntime.Proofs.OwedResponses
open Lib Http Server FeedSteps

section Steps
variable {kind : ServerKind}

/-- A result on which the handler closes comes only where nothing is owed. -/
structure Safe (kind : ServerKind) (x : Exchange) : Prop where
  timer : x.session.parserTimedOut = false
  feeding : ∀ now, x.place = .feeding now → x.session.stopped = false
  closing : ∀ status, x.place = .returned status → kind.closesOn status = true → x.tasks = []

theorem ready_open : kind.closesOn .ready = false := by
  cases kind <;> rfl

/-- An error response leaves the connection of an `HttpServer` open. -/
theorem error_open (hk : kind ≠ .webAppServer)
    (hs : status = .bufferLimitExceeded ∨ status = .protocolError) :
    kind.closesOn status = false := by
  cases kind with
  | httpServer enabled => rcases hs with rfl | rfl <;> rfl
  | webAppServer => exact absurd rfl hk

theorem Safe.took (h : Safe kind x)
    (hpa : Part x.session asks fails submit part) (hst : x.session.stopped = true → x.tasks = [])
    (hre : submit ≠ .accepted → x.tasks = []) (hf : fails → kind ≠ .webAppServer) :
    Safe kind (x.take part) := by
  have hr : ∀ {y : Exchange} {status : ProtocolFeedStatus}, y.place = .returned .ready →
      y.place = .returned status → kind.closesOn status = true → y.tasks = [] := by
    intro y status hp hs hc
    rw [hp] at hs
    cases hs
    rw [ready_open] at hc
    cases hc
  cases hpa with
  | quiet running reads =>
    exact ⟨reads.timer.trans h.timer, fun _ _ => reads.running.trans running,
      fun _ hp => by cases hp⟩
  | interim running reads _ =>
    exact ⟨reads.timer.trans h.timer, fun _ _ => reads.running.trans running,
      fun _ hp => by cases hp⟩
  | request running reads _ _ =>
    exact ⟨reads.timer.trans h.timer, fun _ _ => reads.running.trans running,
      fun _ hp => by cases hp⟩
  | waits reads =>
    exact ⟨reads.timer.trans h.timer, (fun _ hp => by cases hp), fun _ => hr rfl⟩
  | stopped already =>
    exact ⟨h.timer, (fun _ hp => by cases hp), fun _ _ _ => hst already⟩
  | late _ timedOut => cases h.timer.symm.trans timedOut
  | refused stops refusal =>
    exact ⟨stops.timer.trans h.timer, (fun _ hp => by cases hp), fun _ _ _ => hre refusal⟩
  | last _ stops _ _ =>
    exact ⟨stops.timer.trans h.timer, (fun _ hp => by cases hp), fun _ => hr rfl⟩
  | error _ stops reason _ status =>
    refine ⟨stops.timer.trans h.timer, (fun _ hp => by cases hp), fun _ hp hc => ?_⟩
    cases hp
    rw [error_open (hf reason) status] at hc
    cases hc
  | throws reads =>
    exact ⟨reads.timer.trans h.timer, (fun _ hp => by cases hp), fun _ hp => by cases hp⟩

theorem Safe.fed (h : Safe kind x) (hs : x.session.stopped = true → x.tasks = [])
    (hr : submit ≠ .accepted → x.tasks = [])
    (hro : overflows x.session bytes = true → kind ≠ .webAppServer) :
    Safe kind (x.feed bytes submit) := by
  unfold Exchange.feed
  split
  · exact h
  all_goals exact h.took enter_part hs hr hro

theorem Safe.rounded (h : Safe kind x) (hre : submit ≠ .accepted → x.tasks = [])
    (hv : malformed x.session = true → kind ≠ .webAppServer) :
    Safe kind (x.round submit) := by
  unfold Exchange.round
  split
  · rename_i now hp
    have hr := h.feeding now hp
    refine h.took (round_part hr now submit) (fun hs => ?_) hre hv
    cases hr.symm.trans hs
  all_goals exact h

theorem Safe.ran (h : Safe kind x) : Safe kind (x.runTask router) := by
  unfold Exchange.runTask
  split
  · exact h
  · rename_i task tasks ht
    refine ⟨h.timer, h.feeding, fun status hp hc => ?_⟩
    cases ht.symm.trans (h.closing status hp hc)

end Steps

section Runs
variable {c : Connection}

/-- The segment that the next call of `Feed` gets. -/
def nextSegment : Handler → Octets
  | .calling (segment :: _) => segment
  | .calling [] | .idle => []

/-- A stopped session or a refusing executor is met only where nothing is owed, a `WebAppServer`
answers with no error, and the answers can be encoded. -/
def allowed (kind : ServerKind) (event : Connection.Event) : Bool :=
  match event.input with
  | .feed submit =>
    (event.before.owed.isEmpty ||
        (!event.before.exchange.session.stopped && decide (submit = .accepted))) &&
      (decide (kind ≠ .webAppServer) ||
        !overflows event.before.exchange.session (nextSegment event.before.handler))
  | .round submit =>
    (event.before.owed.isEmpty || decide (submit = .accepted)) &&
      (decide (kind ≠ .webAppServer) || !malformed event.before.exchange.session)
  | .runTask encoded => encoded
  | .receive _ | .leave | .close => true

/-- The handler calls `BeginClose`. -/
def BeginsClose (kind : ServerKind) (event : Connection.Event) : Prop :=
  event.input = .leave ∧ event.before.closes kind = true

theorem received (h : Safe kind c.exchange) :
    Safe kind (c.receive bytes).exchange ∧ (c.receive bytes).lost = c.lost := by
  have hi : ∀ segments, Safe kind (c.enterHandler segments).exchange :=
    fun _ => ⟨h.timer, (fun _ hp => by cases hp), fun _ hp => by cases hp⟩
  unfold Connection.receive
  split
  · split
    · exact ⟨hi _, rfl⟩
    · split
      · exact ⟨h, rfl⟩
      · exact ⟨hi _, rfl⟩
      · exact ⟨h, rfl⟩
    · exact ⟨h, rfl⟩
  · exact ⟨h, rfl⟩

theorem called (h : Safe kind c.exchange)
    (hfed : Safe kind (c.exchange.feed (nextSegment c.handler) submit)) :
    Safe kind (c.feed submit).exchange ∧ (c.feed submit).lost = c.lost := by
  unfold Connection.feed
  split
  · rename_i hh _
    rw [hh] at hfed
    exact ⟨hfed, rfl⟩
  · rename_i hh _
    rw [hh] at hfed
    exact ⟨hfed, rfl⟩
  · exact ⟨h, rfl⟩

theorem left : (c.leave kind).exchange = c.exchange ∧ (c.leave kind).lost = c.lost := by
  unfold Connection.leave
  split
  · exact ⟨rfl, rfl⟩
  · split <;> exact ⟨rfl, rfl⟩

structure Served (kind : ServerKind) (log : List Connection.Event) (c : Connection) : Prop where
  safe : Safe kind c.exchange
  delivered : c.lost = []
  kept : ∀ event ∈ log, BeginsClose kind event → event.before.owed = []

theorem Served.owed_nil (h : Served kind log c) (hc : c.closes kind = true) : c.owed = [] := by
  obtain ⟨status, hr, hs⟩ := (Option.any_eq_true ..).mp hc
  have hp : c.exchange.place = .returned status := by
    unfold Connection.result at hr
    split at hr
    · cases hr
      assumption
    · split at hr
      · cases hr
      · cases hr
        assumption
    · cases hr
  rw [Connection.owed, h.delivered, h.safe.closing status hp hs]
  rfl

theorem Served.step (h : Served kind log event.before) (ha : allowed kind event = true) :
    Served kind (log ++ [event]) (event.after (Connection.step kind router)) := by
  obtain ⟨c, input⟩ := event
  have howe : c.owed = c.exchange.tasks := by
    rw [Connection.owed, h.delivered, List.nil_append]
  have hk : ∀ event ∈ log ++ [⟨c, input⟩], BeginsClose kind event → event.before.owed = [] := by
    intro event he hc
    rcases List.mem_append.mp he with he | he
    · exact h.kept event he hc
    · cases List.mem_singleton.mp he
      exact h.owed_nil hc.2
  cases input with
  | receive bytes =>
    obtain ⟨hsa, hl⟩ := received h.safe
    exact ⟨hsa, hl.trans h.delivered, hk⟩
  | feed submit =>
    simp only [allowed, howe, Bool.and_eq_true, Bool.or_eq_true, List.isEmpty_iff,
      Bool.not_eq_true', decide_eq_true_eq] at ha
    obtain ⟨hq, hro⟩ := ha
    have hfed : Safe kind (c.exchange.feed (nextSegment c.handler) submit) := by
      refine h.safe.fed ?_ ?_ ?_
      · intro hs
        refine hq.resolve_right (fun hb => ?_)
        cases hb.1.symm.trans hs
      · exact fun hr => hq.resolve_right (fun hb => hr hb.2)
      · intro ho
        refine hro.resolve_right (fun hf => ?_)
        cases hf.symm.trans ho
    obtain ⟨hsa, hl⟩ := called h.safe hfed
    exact ⟨hsa, hl.trans h.delivered, hk⟩
  | round submit =>
    simp only [allowed, howe, Bool.and_eq_true, Bool.or_eq_true, List.isEmpty_iff,
      Bool.not_eq_true', decide_eq_true_eq] at ha
    refine ⟨h.safe.rounded ?_ ?_, h.delivered, hk⟩
    · exact fun hr => ha.1.resolve_right hr
    · intro hm
      refine ha.2.resolve_right (fun hv => ?_)
      cases hv.symm.trans hm
  | leave =>
    obtain ⟨hexc, hl⟩ := left
    have hsa := h.safe
    rw [← hexc] at hsa
    exact ⟨hsa, hl.trans h.delivered, hk⟩
  | runTask encoded =>
    cases ha
    exact ⟨h.safe.ran, h.delivered, hk⟩
  | close => exact ⟨h.safe, h.delivered, hk⟩

/-- If all events are allowed, the connection is closed only when every response owed was handed
over. -/
theorem responses_not_cut_off {connectionId : Nat} {options : HttpSessionOptions} {s : HttpSession}
    (hcreate : HttpSession.create connectionId options = .ok s) (kind : ServerKind)
    (router : HttpRouter) (actions : List Connection.Action)
    (hallowed : ∀ event ∈ Runs.history (Connection.step kind router) (Connection.create kind s) actions,
      allowed kind event = true) :
    ∀ event ∈ Runs.history (Connection.step kind router) (Connection.create kind s) actions,
      BeginsClose kind event → event.before.owed = [] := by
  have hstart : Served kind [] (Connection.create kind s) := by
    obtain ⟨ring, parser, -, -, -, rfl⟩ := HttpSession.create_eq hcreate
    refine ⟨⟨rfl, ?_, ?_⟩, rfl, ?_⟩
    · exact fun _ hplace => by cases hplace
    · exact fun _ hplace => by cases hplace
    · exact fun _ hevent => absurd hevent List.not_mem_nil
  have hrun : Served kind
      (Runs.history (Connection.step kind router) (Connection.create kind s) actions)
      (Runs.final (Connection.step kind router) (Connection.create kind s) actions) :=
    Runs.run_induction hstart (fun _ _ h hevent => h.step hevent) hallowed
  exact hrun.kept

def goodbye : Octets := octets "GET / HTTP/1.1\r\nHost:h\r\nConnection:close\r\n\r\n"

def small : HttpSessionOptions := { initialBufferBytes := 64, maximumBufferBytes := 64 }

def answered : List Connection.Action :=
  [.receive goodbye, .feed .accepted, .round .accepted, .feed .accepted, .round .accepted, .leave,
    .runTask true, .receive (octets "x"), .feed .accepted, .leave]

theorem responses_not_cut_off_answered : ∃ s, HttpSession.create 7 small = .ok s ∧
    (Runs.final (Connection.step (.httpServer true) {}) (Connection.create (.httpServer true) s)
      answered).closing = true ∧
    ∀ event ∈ Runs.history (Connection.step (.httpServer true) {})
        (Connection.create (.httpServer true) s) answered,
      BeginsClose (.httpServer true) event → event.before.owed = [] := by
  have hrun : ((HttpSession.create 7 small).toOption.map (fun s =>
      ((Runs.final (Connection.step (.httpServer true) {}) (Connection.create (.httpServer true) s)
          answered).closing,
        (Runs.history (Connection.step (.httpServer true) {})
          (Connection.create (.httpServer true) s) answered).all (allowed (.httpServer true))))) =
      some (true, true) := by
    decide +kernel
  obtain ⟨s, hcreate, hresult⟩ := HttpSession.exists_created hrun
  obtain ⟨hclosing, hall⟩ := Prod.mk.inj hresult
  exact ⟨s, hcreate, hclosing,
    responses_not_cut_off hcreate (.httpServer true) {} answered (List.all_eq_true.mp hall)⟩

def hurried : List Connection.Action :=
  [.receive goodbye, .feed .accepted, .round .accepted, .leave, .receive (octets "x"),
    .feed .accepted, .leave]

def garbled : List Connection.Action :=
  [.receive (octets "x\r\n"), .feed .accepted, .round .accepted, .leave]

def cutsOff (kind : ServerKind) (s : HttpSession) (actions : List Connection.Action) : Bool :=
  (Runs.history (Connection.step kind {}) (Connection.create kind s) actions).any
    (fun event => decide (event.input = .leave) && event.before.closes kind &&
      !event.before.owed.isEmpty)

theorem cutsOff_exists (h : cutsOff kind s actions = true) :
    ∃ event ∈ Runs.history (Connection.step kind {}) (Connection.create kind s) actions,
      BeginsClose kind event ∧ event.before.owed ≠ [] := by
  obtain ⟨event, he, hc⟩ := List.any_eq_true.mp h
  simp only [Bool.and_eq_true, decide_eq_true_eq, Bool.not_eq_true', List.isEmpty_eq_false_iff] at hc
  exact ⟨event, he, hc.1, hc.2⟩

/-- Both servers close the connection on a client that is owed a response. -/
theorem response_cut_off : ∃ s, HttpSession.create 7 small = .ok s ∧
    (∃ event ∈ Runs.history (Connection.step (.httpServer false) {})
        (Connection.create (.httpServer false) s) hurried,
      BeginsClose (.httpServer false) event ∧ event.before.owed ≠ []) ∧
    ∃ event ∈ Runs.history (Connection.step .webAppServer {})
        (Connection.create .webAppServer s) garbled,
      BeginsClose .webAppServer event ∧ event.before.owed ≠ [] := by
  have hrun : ((HttpSession.create 7 small).toOption.map (fun s =>
      (cutsOff (.httpServer false) s hurried, cutsOff .webAppServer s garbled))) =
      some (true, true) := by
    decide +kernel
  obtain ⟨s, hcreate, hresult⟩ := HttpSession.exists_created hrun
  obtain ⟨hserver, hwebApp⟩ := Prod.mk.inj hresult
  exact ⟨s, hcreate, cutsOff_exists hserver, cutsOff_exists hwebApp⟩

end Runs

end IocpRuntime.Proofs.OwedResponses
