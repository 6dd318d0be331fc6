import IocpRuntime.Lib.Once
import IocpRuntime.Lib.Slots
import IocpRuntime.Transport.TcpConnector

namespace IocpRuntime.Proofs.ConnectReports
open Lib Transport Transport.Connecting

variable {s : Connecting}

/-- The stage of a call in which an action of it does something. -/
def fits : Connecting.Action → ConnectStage → Bool
  | .setUp _ _, .preparing => true
  | .post _ _, .ready => true
  | .complete _ _ _, .pending => true
  | .callHandler _, .settled _ _ => true
  | .handlerReturns _, .handling _ _ => true
  | .finish _, .handled => true
  | _, _ => false

def subject : Connecting.Action → Option Nat
  | .setUp call _ | .post call _ | .complete call _ _ | .callHandler call | .handlerReturns call
  | .finish call => some call
  | .connect _ _ | .stop => none

def enabled (s : Connecting) (action : Connecting.Action) : Bool :=
  ((subject action).bind (s.calls[·]?)).any (fun c => fits action c.stage)

inductive Does (s : Connecting) : Connecting.Action → Connecting → Prop
  | connect (options : TcpConnectOptions) (handler : Bool) :
      Does s (.connect options handler) (s.connect options handler)
  | setUp {call : Nat} {c : ConnectCall} (found : s.calls[call]? = some c)
      (stage : c.stage = .preparing) (setup : SocketSetup) :
      Does s (.setUp call setup) (s.setUp call c setup)
  | post {call : Nat} {c : ConnectCall} (found : s.calls[call]? = some c) (stage : c.stage = .ready)
      (native : Option WinsockError) : Does s (.post call native) (s.post call c native)
  | complete {call : Nat} {c : ConnectCall} (found : s.calls[call]? = some c)
      (stage : c.stage = .pending) (error contextError : Option WinsockError) :
      Does s (.complete call error contextError) (s.complete call c error contextError)
  | callHandler {call : Nat} {c : ConnectCall} (found : s.calls[call]? = some c) {socket : Bool}
      {error : Option ConnectError} (stage : c.stage = .settled socket error) :
      Does s (.callHandler call) (s.move call { c with stage := .handling socket error })
  | handlerReturns {call : Nat} {c : ConnectCall} (found : s.calls[call]? = some c) {socket : Bool}
      {error : Option ConnectError} (stage : c.stage = .handling socket error) :
      Does s (.handlerReturns call) (s.move call { c with stage := .handled })
  | finish {call : Nat} {c : ConnectCall} (found : s.calls[call]? = some c)
      (stage : c.stage = .handled) : Does s (.finish call) (s.finish call c)
  | stop : Does s .stop s.stop
  | nothing {action : Connecting.Action} (idle : enabled s action = false) : Does s action s

theorem Does.atStage (hs : subject action = some call)
    (hfi : ∀ c, fits action c.stage = (next c).isSome)
    (does : ∀ c t, s.calls[call]? = some c → next c = some t → Does s action t) :
    Does s action (s.atStage call next) := by
  have hi : (s.calls[call]?).any (fun c => fits action c.stage) = false → Does s action s := by
    intro hno
    apply Does.nothing
    rw [enabled, hs]
    exact hno
  unfold Connecting.atStage
  cases hf : s.calls[call]? with
  | none => exact hi (by rw [hf]; rfl)
  | some c =>
    cases hn : next c with
    | none =>
      have hno : fits action c.stage = false := by rw [hfi, hn]; rfl
      rw [Option.bind_some, hn]
      exact hi (by rw [hf]; exact hno)
    | some t =>
      rw [Option.bind_some, hn]
      exact does c t hf hn

theorem step_does (s : Connecting) (action : Connecting.Action) : Does s action
    (s.step action) := by
  cases action with
  | connect options handler => exact .connect options handler
  | stop => exact .stop
  | _ =>
    refine .atStage rfl (fun c => by cases hs : c.stage <;> rfl) (fun c t hf hn => ?_)
    split at hn
    · rename_i hs
      cases hn
      first
        | exact .setUp hf hs _
        | exact .post hf hs _
        | exact .complete hf hs _ _
        | exact .callHandler hf hs
        | exact .handlerReturns hf hs
        | exact .finish hf hs
    · cases hn

/-- The connect is accepted and its handler has not returned to the connector. -/
def outstanding (c : ConnectCall) : Bool :=
  match c.stage with
  | .pending | .settled _ _ | .handling _ _ | .handled => true
  | _ => false

/-- An open socket is reported without an error, and no other. -/
def Consistent (c : ConnectCall) : Prop :=
  ∀ socket error, c.stage = .settled socket error ∨ c.stage = .handling socket error →
    (socket = true ↔ error = none)

structure Sound (s : Connecting) : Prop where
  counted : s.connector.outstandingConnects = s.calls.countP outstanding
  draining : s.connector.state = .stopping → 0 < s.connector.outstandingConnects
  drained : s.connector.state = .stopped → s.connector.outstandingConnects = 0
  entered : s.entered = if s.connector.state = .stopped then 1 else 0
  opened : s.connector.state = .running → ∀ c ∈ s.calls, c.stage = .ready ∨ c.stage = .pending →
    c.socket = true
  consistent : ∀ c ∈ s.calls, Consistent c

/-- The state of a connector against its counter, and how often it became stopped. -/
structure Settled (c : TcpConnector) (entered : Nat) : Prop where
  draining : c.state = .stopping → 0 < c.outstandingConnects
  drained : c.state = .stopped → c.outstandingConnects = 0
  entered : entered = if c.state = .stopped then 1 else 0

theorem Sound.settled (h : Sound s) : Settled s.connector s.entered :=
  ⟨h.draining, h.drained, h.entered⟩

variable {call : Nat} {connector : TcpConnector} {entered : Nat}

theorem Sound.move (h : Sound s) (hf : s.calls[call]? = some c)
    (hco : connector.outstandingConnects + (outstanding c).toNat =
      s.connector.outstandingConnects + (outstanding next).toNat)
    (hs : Settled connector entered)
    (hr : connector.state = .running → s.connector.state = .running ∧
      (next.stage = .ready ∨ next.stage = .pending → next.socket = true))
    (hc : Consistent next) :
    Sound (({ connector, calls := s.calls, entered } : Connecting).move call next) where
  counted := by
    have hset := Slots.countP_set outstanding hf next
    rw [← h.counted] at hset
    exact Nat.add_right_cancel (hco.trans hset.symm)
  draining := hs.draining
  drained := hs.drained
  entered := hs.entered
  opened := by
    intro hst other ho
    rcases List.mem_or_eq_of_mem_set ho with ho | rfl
    · exact h.opened (hr hst).1 other ho
    · exact (hr hst).2
  consistent := by
    intro other ho
    rcases List.mem_or_eq_of_mem_set ho with ho | rfl
    · exact h.consistent other ho
    · exact hc

theorem Sound.moveCall (h : Sound s) (hf : s.calls[call]? = some c)
    (hco : outstanding next = outstanding c)
    (ho : next.stage = .ready ∨ next.stage = .pending → next.socket = true)
    (hc : Consistent next) : Sound (s.move call next) :=
  h.move hf (by rw [hco]) h.settled (fun hr => ⟨hr, ho⟩) hc

theorem outstanding_eq (h : c.stage = stage) : outstanding c = outstanding { c with stage } := by
  subst h
  rfl

section

variable (h : Sound s) (hf : s.calls[call]? = some c)
include h hf

theorem Sound.returns (hb : outstanding c = false) :
    Sound (s.move call { c with stage := .returned result }) :=
  h.moveCall hf hb.symm (by simp) (by simp [Consistent])

theorem Sound.setUp (hs : c.stage = .preparing) : Sound (s.setUp call c setup) := by
  have hb : outstanding c = false := outstanding_eq hs
  cases setup with
  | associated =>
    exact h.moveCall hf hb.symm (fun _ => rfl) (by simp [Consistent])
  | invalidAddress => exact h.returns hf hb
  | failed error => exact h.returns hf hb
  | notAssociated error => exact h.returns hf hb

theorem Sound.post (hsta : c.stage = .ready) : Sound (s.post call c native) := by
  have hb : outstanding c = false := outstanding_eq hsta
  unfold Connecting.post
  split
  · exact h.returns hf hb
  · rename_i hr
    rw [not_not] at hr
    have he := h.entered
    rw [hr] at he
    have hs : ∀ connector : TcpConnector, connector.state = .running →
        Settled connector s.entered := by
      intro connector hst
      refine ⟨fun hsto => ?_, fun hstp => ?_, ?_⟩
      · cases hst.symm.trans hsto
      · cases hst.symm.trans hstp
      · rw [hst]
        exact he
    have ho := h.opened hr c (List.mem_of_getElem? hf) (.inl hsta)
    cases native with
    | some error =>
      refine h.move hf ?_ (hs _ hr) (fun _ => ⟨hr, fun _ => ho⟩) (by simp [Consistent])
      rw [hb]
      rfl
    | none =>
      refine h.move hf ?_ (hs _ hr) (fun _ => ⟨hr, fun _ => ho⟩) (by simp [Consistent])
      rw [hb]
      rfl

end

inductive Completes (c : TcpConnector) (operationId : Nat) (socket : Bool) :
    TcpConnector.Completion → Prop
  | cancelled (stopped : c.state ≠ .running) : Completes c operationId socket
      ⟨{ c with
        pendingSockets := c.pendingSockets.erase operationId
        cancelledConnects := c.cancelledConnects + 1 }, false, some .operationCanceled⟩
  | failed (running : c.state = .running) (error : WinsockError) : Completes c operationId socket
      ⟨{ c with
        pendingSockets := c.pendingSockets.erase operationId
        failedConnects := c.failedConnects + 1 }, false, some (.winsock error)⟩
  | connected (running : c.state = .running) : Completes c operationId socket
      ⟨{ c with
        pendingSockets := c.pendingSockets.erase operationId
        successfulConnects := c.successfulConnects + 1 }, socket, none⟩

theorem completeConnect_spec (c : TcpConnector) (operationId : Nat) (socket : Bool)
    (error contextError : Option WinsockError) :
    Completes c operationId socket (c.completeConnect operationId socket error contextError) := by
  unfold TcpConnector.completeConnect
  dsimp only
  split
  · rename_i hs
    exact .cancelled hs
  · rename_i hr
    rw [not_not] at hr
    cases error with
    | some error => exact .failed hr error
    | none =>
      cases contextError with
      | some error => exact .failed hr error
      | none => exact .connected hr

section

variable (h : Sound s) (hf : s.calls[call]? = some c)
include h hf

theorem Sound.complete (hsta : c.stage = .pending) (error contextError : Option WinsockError) :
    Sound (s.complete call c error contextError) := by
  have hb : outstanding c = true := outstanding_eq hsta
  have hsp := completeConnect_spec s.connector c.operationId c.socket error contextError
  unfold Connecting.complete
  generalize s.connector.completeConnect c.operationId c.socket error contextError = completion at hsp
  -- whatever is counted, the state and the number of outstanding connects stay
  have hm : ∀ (connector : TcpConnector) (taken : Bool) (reported : Option ConnectError),
      connector.state = s.connector.state →
      connector.outstandingConnects = s.connector.outstandingConnects →
      (taken = true ↔ reported = none) →
      Sound (({ s with connector } : Connecting).move call { c with
        stage := .settled taken reported
        socket := c.socket && !taken }) := by
    intro connector taken reported hst hc hre
    refine h.move hf ?_ ?_ (fun hr => ⟨hst ▸ hr, by simp⟩) ?_
    · rw [hc, hb]
      rfl
    · have hs := h.settled
      exact ⟨by rw [hst, hc]; exact hs.draining, by rw [hst, hc]; exact hs.drained,
        by rw [hst]; exact hs.entered⟩
    · rintro socket error (hsa | ho)
      · cases hsa
        exact hre
      · cases ho
  cases hsp with
  | cancelled hsto => exact hm _ _ _ rfl rfl (by simp)
  | failed hr error => exact hm _ _ _ rfl rfl (by simp)
  | connected hr =>
    have hop := h.opened hr c (List.mem_of_getElem? hf) (.inr hsta)
    exact hm _ _ _ rfl rfl (iff_of_true hop rfl)

theorem Sound.callHandler (hs : c.stage = .settled socket error) :
    Sound (s.move call { c with stage := .handling socket error }) := by
  have hb : outstanding c = true := outstanding_eq hs
  refine h.moveCall hf hb.symm (by simp) ?_
  rintro taken reported (ho | hsa)
  · cases ho
  · cases hsa
    exact h.consistent c (List.mem_of_getElem? hf) socket error (.inl hs)

theorem Sound.handlerReturns (hs : c.stage = .handling socket error) :
    Sound (s.move call { c with stage := .handled }) := by
  have hb : outstanding c = true := outstanding_eq hs
  exact h.moveCall hf hb.symm (by simp) (by simp [Consistent])

end

theorem moveToStopped_cases (c : TcpConnector) : (c.state = .stopping ∧ c.outstandingConnects = 0 ∧
        c.moveToStoppedIfDrainedLocked = (true, { c with state := .stopped })) ∨
      (¬ (c.state = .stopping ∧ c.outstandingConnects = 0) ∧
        c.moveToStoppedIfDrainedLocked = (false, c)) := by
  by_cases hd : c.state = .stopping ∧ c.outstandingConnects = 0
  · exact .inl ⟨hd.1, hd.2, if_pos hd⟩
  · exact .inr ⟨hd, if_neg hd⟩

theorem Sound.finish (h : Sound s) (hf : s.calls[call]? = some c) (hsta : c.stage = .handled) :
    Sound (s.finish call c) := by
  have hb : outstanding c = true := outstanding_eq hsta
  have ho : 0 < s.connector.outstandingConnects := by
    rw [h.counted]
    exact List.countP_pos_iff.mpr ⟨c, List.mem_of_getElem? hf, hb⟩
  have he := h.entered
  have hl : s.connector.state ≠ .stopped := fun hst => by
    have hz := h.drained hst
    omega
  rw [if_neg hl] at he
  unfold Connecting.finish TcpConnector.finishConnect
  rw [if_pos ho]
  have hco : s.connector.outstandingConnects - 1 + (outstanding c).toNat =
      s.connector.outstandingConnects + (outstanding { c with stage := .finished }).toNat := by
    rw [hb]
    exact Nat.sub_add_cancel ho
  have hc : Consistent { c with stage := .finished } := by simp [Consistent]
  rcases moveToStopped_cases { s.connector with
      outstandingConnects := s.connector.outstandingConnects - 1 } with
    ⟨hsto, hz, hm⟩ | ⟨hmo, hm⟩
  · rw [hm]
    exact h.move hf hco ⟨nofun, fun _ => hz, congrArg (· + 1) he⟩ nofun hc
  · rw [hm]
    refine h.move hf hco ⟨fun hs => ?_, fun hs => absurd hs hl, ?_⟩ (fun hr => ⟨hr, by simp⟩) hc
    · exact Nat.pos_of_ne_zero (fun hz => hmo ⟨hs, hz⟩)
    · exact he.trans (if_neg hl).symm

theorem Sound.connect (h : Sound s) : Sound (s.connect options handler) := by
  have hnew : ∀ stage, (stage = .preparing ∨ ∃ result, stage = .returned result) →
      Sound { s with calls := s.calls ++ [{ stage }] } := by
    intro stage hs
    have hf : outstanding { stage } = false ∧ Consistent { stage } ∧
        ¬ (stage = .ready ∨ stage = .pending) := by
      rcases hs with rfl | ⟨result, rfl⟩ <;> exact ⟨rfl, by simp [Consistent], by simp⟩
    refine ⟨?_, h.draining, h.drained, h.entered, fun hr c hc => ?_, fun c hc => ?_⟩
    · rw [List.countP_append, List.countP_singleton, hf.1]
      exact h.counted
    · rcases List.mem_append.mp hc with hc | hc
      · exact h.opened hr c hc
      · cases List.mem_singleton.mp hc
        exact fun hs => absurd hs hf.2.2
    · rcases List.mem_append.mp hc with hc | hc
      · exact h.consistent c hc
      · cases List.mem_singleton.mp hc
        exact hf.2.1
  unfold Connecting.connect
  dsimp only
  split
  · exact hnew _ (.inr ⟨_, rfl⟩)
  · split
    · exact hnew _ (.inr ⟨_, rfl⟩)
    · exact hnew _ (.inl rfl)

def closed (ids : List Nat) (c : ConnectCall) : ConnectCall :=
  if c.operationId ∈ ids then { c with socket := false } else c

theorem stage_closed (ids : List Nat) (c : ConnectCall) : (closed ids c).stage = c.stage := by
  unfold closed
  split <;> rfl

theorem stop_idle (h : s.connector.state ≠ .running) : s.stop = s := by
  have hst : s.connector.stop = (false, s.connector) := by
    apply if_pos
    cases hs : s.connector.state with
    | running => exact absurd hs h
    | stopping => exact .inr rfl
    | stopped => exact .inl rfl
  unfold Connecting.stop
  rw [hst, if_neg h]
  rfl

theorem Sound.stop (h : Sound s) : Sound s.stop := by
  by_cases hr : s.connector.state = .running
  · have he := h.entered
    rw [hr] at he
    have hsto : s.connector.stop =
        { s.connector with state := .stopping }.moveToStoppedIfDrainedLocked :=
      if_neg (by simp [hr])
    have hcn : (s.calls.map (closed s.connector.pendingSockets)).countP outstanding =
        s.connector.outstandingConnects := by
      rw [List.countP_map, h.counted]
      refine List.countP_congr (fun c _ => ?_)
      rw [Function.comp_apply, outstanding, stage_closed]
      rfl
    have hco : ∀ c ∈ s.calls.map (closed s.connector.pendingSockets), Consistent c := by
      intro c hc
      obtain ⟨before, hb, rfl⟩ := List.mem_map.mp hc
      intro socket error hst
      rw [stage_closed] at hst
      exact h.consistent before hb socket error hst
    unfold Connecting.stop
    rw [hsto, if_pos hr]
    rcases moveToStopped_cases { s.connector with state := .stopping } with
      ⟨-, hz, hm⟩ | ⟨hmo, hm⟩
    · rw [hm]
      exact ⟨hcn.symm, nofun, fun _ => hz, congrArg (· + 1) he, nofun, hco⟩
    · rw [hm]
      exact ⟨hcn.symm, fun _ => Nat.pos_of_ne_zero (fun hz => hmo ⟨rfl, hz⟩), nofun, he, nofun, hco⟩
  · rw [stop_idle hr]
    exact h

theorem Sound.step (h : Sound s) : Sound (s.step action) := by
  have hd := step_does s action
  generalize s.step action = t at hd
  cases hd with
  | connect options handler => exact h.connect
  | setUp hf hs setup => exact h.setUp hf hs
  | post hf hs native => exact h.post hf hs
  | complete hf hs error contextError => exact h.complete hf hs error contextError
  | callHandler hf hs => exact h.callHandler hf hs
  | handlerReturns hf hs => exact h.handlerReturns hf hs
  | finish hf hs => exact h.finish hf hs
  | stop => exact h.stop
  | nothing => exact h

theorem Sound.start : Sound {} where
  counted := rfl
  draining := nofun
  drained := nofun
  entered := rfl
  opened _ c hc := by cases hc
  consistent c hc := by cases hc

def stageRank : ConnectStage → Nat
  | .preparing => 0
  | .ready => 1
  | .returned _ => 2
  | .pending => 2
  | .settled _ _ => 3
  | .handling _ _ => 4
  | .handled => 5
  | .finished => 6

@[simp] def rank (c : ConnectCall) : Nat := stageRank c.stage

def reportedRank : Nat := 4

def acceptedResult : Except Buffer.Thrown ConnectStartResult := .ok { status := .accepted }

def Refused (c : ConnectCall) : Prop := ∃ r, c.stage = .returned r ∧ r ≠ acceptedResult

inductive Turns : ConnectStage → ConnectStage → Prop
  | ready : Turns .preparing .ready
  | refused {stage : ConnectStage} {r : Except Buffer.Thrown ConnectStartResult}
      (early : stage = .preparing ∨ stage = .ready) (other : r ≠ acceptedResult) :
      Turns stage (.returned r)
  | pending : Turns .ready .pending
  | settled (socket : Bool) (error : Option ConnectError) : Turns .pending (.settled socket error)
  | handling {socket : Bool} {error : Option ConnectError} :
      Turns (.settled socket error) (.handling socket error)
  | handled {socket : Bool} {error : Option ConnectError} :
      Turns (.handling socket error) .handled
  | finished : Turns .handled .finished

/-- What an action does to the calls: there is a new one, one of them moves on, or some lose
their sockets. -/
inductive Calls (s : Connecting) (action : Connecting.Action) : List ConnectCall → Prop
  | made {made : ConnectCall} (new : made.stage = .preparing ∨ Refused made) :
      Calls s action (s.calls ++ [made])
  | moved {call : Nat} {c next : ConnectCall} (found : s.calls[call]? = some c)
      (turns : Turns c.stage next.stage)
      (reports : ∀ socket error, c.stage = .settled socket error → action = .callHandler call) :
      Calls s action (s.calls.set call next)
  | same {f : ConnectCall → ConnectCall} (stage : ∀ c, (f c).stage = c.stage) :
      Calls s action (s.calls.map f)

theorem Calls.refl : Calls s action s.calls := by
  have hs : Calls s action (s.calls.map id) := .same (fun _ => rfl)
  rwa [List.map_id] at hs

theorem step_calls (s : Connecting) (action : Connecting.Action) :
    Calls s action (s.step action).calls := by
  have hd := step_does s action
  generalize s.step action = t at hd
  cases hd with
  | connect options handler =>
    unfold Connecting.connect
    split
    · exact .made (.inr ⟨_, rfl, by simp [acceptedResult]⟩)
    · split
      · exact .made (.inr ⟨_, rfl, by simp [acceptedResult]⟩)
      · exact .made (.inl rfl)
  | setUp hf hs setup =>
    cases setup with
    | associated => exact .moved hf (by rw [hs]; exact .ready) (by simp [hs])
    | _ =>
      refine .moved hf (.refused (.inl hs) ?_) (by simp [hs])
      simp [acceptedResult]
  | post hf hs native =>
    unfold Connecting.post
    split
    · exact .moved hf (.refused (.inr hs) (by simp [acceptedResult])) (by simp [hs])
    · cases native with
      | some error =>
        exact .moved hf (.refused (.inr hs) (by simp [acceptedResult])) (by simp [hs])
      | none => exact .moved hf (by rw [hs]; exact .pending) (by simp [hs])
  | complete hf hs => exact .moved hf (by rw [hs]; exact .settled _ _) (by simp [hs])
  | callHandler hf hs => exact .moved hf (by rw [hs]; exact .handling) (fun _ _ _ => rfl)
  | handlerReturns hf hs => exact .moved hf (by rw [hs]; exact .handled) (by simp [hs])
  | finish hf hs => exact .moved hf (by rw [hs]; exact .finished) (by simp [hs])
  | stop =>
    unfold Connecting.stop
    dsimp only
    split
    · exact .same (stage_closed _)
    · exact .refl
  | nothing => exact .refl

theorem Turns.rank_le (h : Turns stage next) :
    stageRank stage ≤ stageRank next := by
  cases h with
  | refused early => rcases early with rfl | rfl <;> simp [stageRank]
  | _ => simp [stageRank]

theorem step_later (s : Connecting) (action : Connecting.Action) :
    Once.Later rank s.calls (s.step action).calls := by
  have hc := step_calls s action
  generalize (s.step action).calls = calls at hc ⊢
  cases hc with
  | made => exact .append
  | moved found turns => exact .moved found rfl turns.rank_le
  | @same f stage =>
    have hr : ∀ c, rank (f c) = rank c := fun c => congrArg stageRank (stage c)
    exact .map hr

abbrev Event := Runs.Event Connecting Connecting.Action

structure Report where
  call : Nat
  socket : Bool
  error : Option ConnectError

def report (event : Event) : Option Report :=
  match event.input with
  | .callHandler call => (event.before.calls[call]?).bind (fun c =>
    match c.stage with
    | .settled socket error => some ⟨call, socket, error⟩
    | _ => none)
  | _ => none

def reported (event : Event) : Option Nat := (report event).map Report.call

theorem report_some (h : report event = some made) :
    event.input = .callHandler made.call ∧ ∃ c, event.before.calls[made.call]? = some c ∧
      c.stage = .settled made.socket made.error := by
  unfold report at h
  split at h
  · rename_i call hi
    obtain ⟨c, hf, hc⟩ := Option.bind_eq_some_iff.mp h
    split at hc
    · rename_i socket error hs
      cases hc
      exact ⟨hi, c, hf, hs⟩
    · cases hc
  · cases h

theorem reported_some (h : reported event = some call) :
    event.input = .callHandler call ∧ ∃ c, event.before.calls[call]? = some c ∧
      ∃ socket error, c.stage = .settled socket error := by
  obtain ⟨made, hm, rfl⟩ := Option.map_eq_some_iff.mp h
  obtain ⟨hi, c, hf, hs⟩ := report_some hm
  exact ⟨hi, c, hf, _, _, hs⟩

theorem reported_of_settled (hi : event.input = .callHandler call)
    (hf : event.before.calls[call]? = some c)
    (hs : c.stage = .settled socket error) : reported event = some call := by
  simp [reported, report, hi, hf, hs]

theorem reports_pass : Once.Passes Connecting.step Connecting.calls rank reportedRank reported where
  later := step_later
  fires := by
    intro event call hr
    obtain ⟨hi, c, hf, socket, error, hs⟩ := reported_some hr
    have hl := (List.getElem?_eq_some_iff.mp hf).1
    constructor
    · rintro ⟨other, ho, hre⟩
      rw [hf] at ho
      cases ho
      simp [hs, stageRank, reportedRank] at hre
    · have ha : event.after Connecting.step =
          event.before.move call { c with stage := .handling socket error } := by
        unfold Runs.Event.after
        simp [hi, Connecting.step, Connecting.atStage, hf, hs]
      rw [ha]
      exact ⟨_, List.getElem?_set_self hl, Nat.le_refl _⟩

theorem only_reports (event : Event) (slot : Nat)
    (hb : ¬ Once.Reached rank reportedRank event.before.calls slot)
    (ha : Once.Reached rank reportedRank (event.after Connecting.step).calls slot) :
    reported event = some slot := by
  unfold Runs.Event.after at ha
  have hc := step_calls event.before event.input
  generalize (event.before.step event.input).calls = calls at ha hc
  cases hc with
  | made new =>
    refine absurd (ha.of_append ?_) hb
    intro c hc
    cases List.mem_singleton.mp hc
    rcases new with hm | ⟨result, hm, -⟩ <;> simp [hm, stageRank, reportedRank]
  | @moved call c next found turns reports =>
    by_cases hsa : call = slot
    · subst hsa
      cases hs : c.stage with
      | settled socket error => exact reported_of_settled (reports _ _ hs) found hs
      | _ =>
        -- every other turn stays on its side of the report
        refine absurd (ha.of_set found ?_) hb
        intro hr
        unfold rank at hr ⊢
        rw [hs] at turns ⊢
        generalize next.stage = stage at turns hr
        cases turns <;> simp [stageRank, reportedRank] at hr ⊢
    · obtain ⟨value, hv, hr⟩ := ha
      exact absurd ⟨value, (List.getElem?_set_ne hsa).symm.trans hv, hr⟩ hb
  | @same f stage =>
    have hr : ∀ c, rank (f c) = rank c := fun c => congrArg stageRank (stage c)
    exact absurd (ha.of_map hr) hb

def total (c : TcpConnector) : Nat := c.successfulConnects + c.failedConnects + c.cancelledConnects

def completes (event : Event) : Bool :=
  match event.input with
  | .complete _ _ _ => enabled event.before event.input
  | _ => false

def failsAtOnce (event : Event) : Bool :=
  match event.input with
  | .post _ (some _) =>
    enabled event.before event.input && decide (event.before.connector.state = .running)
  | _ => false

theorem enabled_of_found (hs : subject action = some call)
    (hf : s.calls[call]? = some c) (hfi : fits action c.stage = true) :
    enabled s action = true := by
  rw [enabled, hs]
  simp [hf, hfi]

theorem total_moveToStopped (c : TcpConnector) :
    total c.moveToStoppedIfDrainedLocked.2 = total c := by
  rcases moveToStopped_cases c with ⟨-, -, hm⟩ | ⟨-, hm⟩
  · rw [hm]
    rfl
  · rw [hm]

theorem total_stop (c : TcpConnector) : total c.stop.2 = total c := by
  unfold TcpConnector.stop
  split
  · rfl
  · exact total_moveToStopped { c with state := .stopping }

theorem total_step : total (event.after Connecting.step).connector =
    total event.before.connector + (completes event).toNat + (failsAtOnce event).toNat := by
  obtain ⟨s, action⟩ := event
  have hd := step_does s action
  unfold Runs.Event.after
  dsimp only
  generalize s.step action = t at hd
  cases hd with
  | connect options handler => rfl
  | setUp hf hs setup => rfl
  | @post call c hf hs native =>
    have he : enabled s (.post call native) = true :=
      enabled_of_found rfl hf (by rw [hs]; rfl)
    unfold Connecting.post
    by_cases hr : s.connector.state = .running
    · rw [if_neg (not_not.mpr hr)]
      cases native with
      | some error =>
        simp only [completes, failsAtOnce, he, hr, total, Connecting.move, TcpConnector.postConnect]
        simp
        omega
      | none => rfl
    · rw [if_pos hr]
      cases native with
      | some error => simp [completes, failsAtOnce, hr, Connecting.move]
      | none => rfl
  | @complete call c hf hs error contextError =>
    have he : enabled s (.complete call error contextError) = true :=
      enabled_of_found rfl hf (by rw [hs]; rfl)
    have hsp := completeConnect_spec s.connector c.operationId c.socket error contextError
    simp only [completes, failsAtOnce, he, Connecting.complete, Connecting.move]
    generalize s.connector.completeConnect c.operationId c.socket error contextError = completion
      at hsp
    cases hsp <;> simp only [total, Bool.toNat_true, Bool.toNat_false] <;> omega
  | callHandler hf hs => rfl
  | handlerReturns hf hs => rfl
  | finish hf hs => exact total_moveToStopped _
  | stop => exact total_stop s.connector
  | nothing hi =>
    have hn : completes ⟨s, action⟩ = false ∧ failsAtOnce ⟨s, action⟩ = false := by
      unfold completes failsAtOnce
      constructor
      · split
        · exact hi
        · rfl
      · split
        · simp only [hi, Bool.false_and]
        · rfl
    rw [hn.1, hn.2]
    rfl

theorem total_run :
    total (Runs.final Connecting.step {} actions).connector =
      (Runs.history Connecting.step {} actions).countP completes +
        (Runs.history Connecting.step {} actions).countP failsAtOnce := by
  refine Runs.run_induction (motive := fun log s => total s.connector =
    log.countP completes + log.countP failsAtOnce) rfl ?_ (fun _ _ => trivial)
  intro log event hlog (_ : True)
  have hc : [event].countP completes = (completes event).toNat := by
    cases h : completes event <;> simp [h]
  have hf : [event].countP failsAtOnce = (failsAtOnce event).toNat := by
    cases h : failsAtOnce event <;> simp [h]
  rw [total_step, hlog, List.countP_append, List.countP_append, hc, hf]
  omega

def result (c : ConnectCall) : Option (Except Buffer.Thrown ConnectStartResult) :=
  match c.stage with
  | .preparing | .ready => none
  | .returned result => some result
  | _ => some acceptedResult

/-- The handler of an accepted connect has not been called yet. -/
def Awaiting (c : ConnectCall) : Prop :=
  c.stage = .pending ∨ ∃ socket error, c.stage = .settled socket error

def Keeps (before after : List ConnectCall) : Prop :=
  ∀ (slot : Nat) c r, before[slot]? = some c → result c = some r →
    ∃ d, after[slot]? = some d ∧ result d = some r

theorem Keeps.set {calls : List ConnectCall} (hf : calls[call]? = some c)
    (hk : ∀ r, result c = some r → result next = some r) : Keeps calls (calls.set call next) := by
  intro slot other r ho hr
  by_cases hs : call = slot
  · subst hs
    cases hf.symm.trans ho
    exact ⟨next, List.getElem?_set_self (List.getElem?_eq_some_iff.mp hf).1, hk r hr⟩
  · exact ⟨other, (List.getElem?_set_ne hs).trans ho, hr⟩

theorem Keeps.refl (calls : List ConnectCall) : Keeps calls calls :=
  fun _ c _ hf hr => ⟨c, hf, hr⟩

theorem Turns.result_eq (h : Turns c.stage next.stage) (hr : result c = some r) :
    result next = some r := by
  unfold result at hr ⊢
  generalize c.stage = stage at h hr
  generalize next.stage = stage' at h
  cases h with
  | refused early => rcases early with rfl | rfl <;> cases hr
  | ready => cases hr
  | pending => cases hr
  | _ => exact hr

theorem step_keeps : Keeps s.calls (s.step action).calls := by
  have hc := step_calls s action
  generalize (s.step action).calls = calls at hc ⊢
  cases hc with
  | made =>
    intro slot c r hf hr
    exact ⟨c, (List.getElem?_append_left (List.getElem?_eq_some_iff.mp hf).1).trans hf, hr⟩
  | moved found turns => exact .set found (fun r hr => turns.result_eq hr)
  | @same f stage =>
    intro slot c r hf hr
    rw [List.getElem?_map, hf]
    refine ⟨f c, rfl, ?_⟩
    unfold result
    rw [stage]
    exact hr

theorem keeps_final : Keeps s.calls (Runs.final Connecting.step s actions).calls := by
  induction actions generalizing s with
  | nil => exact .refl _
  | cons action rest ih =>
    intro slot c r hf hr
    obtain ⟨d, hd, hk⟩ := step_keeps slot c r hf hr
    exact ih slot d r hd hk

theorem sound_final : Sound (Runs.final Connecting.step {} actions) :=
  Runs.final_invariant Sound.start (fun _ _ h => h.step) actions

theorem reported_iff :
    slot ∈ (Runs.history Connecting.step {} actions).filterMap reported ↔
      Once.Reached rank reportedRank (Runs.final Connecting.step {} actions).calls slot :=
  reports_pass.fired_iff only_reports (fun _ ⟨_, hv, _⟩ => by cases hv)

/-- A call that has returned by itself was refused. -/
def Told (c : ConnectCall) : Prop := ∀ r, c.stage = .returned r → r ≠ acceptedResult

theorem Refused.told (h : Refused c) : Told c := by
  obtain ⟨r, hs, ho⟩ := h
  intro r' hs'
  cases hs.symm.trans hs'
  exact ho

theorem Told.of_stage (h : ∀ r, c.stage ≠ .returned r) : Told c :=
  fun r hs => absurd hs (h r)

theorem Turns.told (h : Turns stage c.stage) : Told c := by
  intro r hs
  rw [hs] at h
  cases h with
  | refused early other => exact other

theorem step_told (h : ∀ c ∈ s.calls, Told c) : ∀ c ∈ (s.step action).calls, Told c := by
  have hc := step_calls s action
  generalize (s.step action).calls = calls at hc ⊢
  cases hc with
  | made new =>
    intro c hc
    rcases List.mem_append.mp hc with hc | hc
    · exact h c hc
    · cases List.mem_singleton.mp hc
      rcases new with hm | hm
      · exact .of_stage (by simp [hm])
      · exact hm.told
  | moved found turns =>
    intro c hc
    rcases List.mem_or_eq_of_mem_set hc with hc | rfl
    · exact h c hc
    · exact turns.told
  | same stage =>
    intro c hc
    obtain ⟨before, hb, rfl⟩ := List.mem_map.mp hc
    unfold Told
    rw [stage]
    exact h before hb

theorem told_final : ∀ c ∈ (Runs.final Connecting.step {} actions).calls, Told c :=
  Runs.final_invariant (motive := fun s : Connecting => ∀ c ∈ s.calls, Told c)
    (fun c hc => by cases hc) (fun _ _ h => step_told h) actions

theorem reached_iff (ht : Told c) (hr : result c = some acceptedResult) :
    reportedRank ≤ rank c ↔ ¬ Awaiting c := by
  unfold result at hr
  unfold Awaiting
  cases hs : c.stage with
  | returned r =>
    rw [hs] at hr
    exact absurd (Option.some.inj hr) (ht r hs)
  | _ => simp [hs, stageRank, reportedRank] at hr ⊢

theorem not_reached (hr : result c = some r) (ho : r ≠ acceptedResult) : ¬ reportedRank ≤ rank c := by
  unfold result at hr
  cases hs : c.stage <;> simp [hs, stageRank, reportedRank] at hr ⊢
  all_goals exact ho hr.symm

theorem Sound.drained_calls (h : Sound s) (hs : s.connector.state = .stopped)
    (hf : s.calls[call]? = some c) : outstanding c = false := by
  have hc := h.counted.symm.trans (h.drained hs)
  exact Bool.eq_false_iff.mpr (List.countP_eq_zero.mp hc c (List.mem_of_getElem? hf))

/-- A stopped connector has finished with every connect it accepted. -/
theorem Sound.finished (h : Sound s) (hst : s.connector.state = .stopped)
    (hf : s.calls[call]? = some c) (ht : Told c) (hr : result c = some acceptedResult) :
    c.stage = .finished := by
  have hd := h.drained_calls hst hf
  unfold outstanding at hd
  unfold result at hr
  cases hs : c.stage with
  | finished => rfl
  | returned r =>
    rw [hs] at hr
    exact absurd (Option.some.inj hr) (ht r hs)
  | _ => simp [hs] at hd hr

theorem Sound.not_reported (h : Sound s) (hs : s.connector.state = .stopped) : reported ⟨s, action⟩ = none := by
  cases hr : reported ⟨s, action⟩ with
  | none => rfl
  | some call =>
    obtain ⟨-, c, hf, socket, error, hst⟩ := reported_some hr
    have hd := h.drained_calls hs hf
    simp [outstanding, hst] at hd

theorem Sound.stays_stopped (h : Sound s) (hs : s.connector.state = .stopped) : (s.step action).connector.state = .stopped := by
  have hdo := step_does s action
  generalize s.step action = t at hdo
  cases hdo with
  | connect options handler => exact hs
  | setUp hf hst setup => exact hs
  | post hf hst native =>
    have hnot : s.connector.state ≠ .running := by simp [hs]
    unfold Connecting.post
    rw [if_pos hnot]
    exact hs
  | complete hf hst error contextError =>
    have hd := h.drained_calls hs hf
    simp [outstanding, hst] at hd
  | callHandler hf hst => exact hs
  | handlerReturns hf hst => exact hs
  | finish hf hst =>
    have hd := h.drained_calls hs hf
    simp [outstanding, hst] at hd
  | stop =>
    rw [stop_idle (by simp [hs])]
    exact hs
  | nothing => exact hs

/-- Nothing more is reported by a connector that has stopped. -/
theorem Sound.stopped_run (h : Sound s) (hs : s.connector.state = .stopped)
    (more : List Connecting.Action) :
    (Runs.final Connecting.step s more).connector.state = .stopped ∧
      (Runs.history Connecting.step s more).filterMap reported = [] := by
  induction more generalizing s with
  | nil => exact ⟨hs, rfl⟩
  | cons action more ih =>
    obtain ⟨hst, hn⟩ := ih h.step (h.stays_stopped hs)
    refine ⟨hst, ?_⟩
    rw [Runs.history, List.filterMap_cons_none (h.not_reported hs)]
    exact hn

theorem Awaiting.reportable (h : Awaiting c) (hf : s.calls[call]? = some c) :
    ∃ more, call ∈ (Runs.history Connecting.step s more).filterMap reported := by
  have hl := (List.getElem?_eq_some_iff.mp hf).1
  rcases h with hs | ⟨socket, error, hs⟩
  · refine ⟨[.complete call none none, .callHandler call], ?_⟩
    have hc : s.step (.complete call none none) = s.complete call c none none := by
      simp [Connecting.step, Connecting.atStage, hf, hs]
    have hr : reported ⟨s.complete call c none none, .callHandler call⟩ = some call :=
      reported_of_settled rfl (List.getElem?_set_self hl) rfl
    simp only [Runs.history, hc]
    exact List.mem_filterMap.mpr ⟨_, List.mem_cons_of_mem _ List.mem_cons_self, hr⟩
  · refine ⟨[.callHandler call], ?_⟩
    exact List.mem_filterMap.mpr ⟨_, List.mem_cons_self, reported_of_settled rfl hf hs⟩

/-- A report comes with a socket unless it comes with an error. -/
theorem report_consistent (he : event ∈ Runs.history Connecting.step {} actions)
    (hm : report event = some made) : made.socket = true ↔ made.error = none := by
  obtain ⟨first, rest, -, hb⟩ := Runs.history_split he
  obtain ⟨-, c, hf, hs⟩ := report_some hm
  have hso : Sound event.before := hb ▸ sound_final
  exact hso.consistent c (List.mem_of_getElem? hf) _ _ (.inl hs)

theorem post_accepted (hf : s.calls[call]? = some c) (hs : c.stage = .ready)
    (hr : s.connector.state = .running) :
    ((s.step (.post call none)).calls[call]?).bind result = some acceptedResult := by
  have hst : s.step (.post call none) = s.post call c none := by
    simp [Connecting.step, Connecting.atStage, hf, hs]
  have hl := (List.getElem?_eq_some_iff.mp hf).1
  simp [hst, Connecting.post, hr, Connecting.move, hl, result]

/-- Over every interleaving: each accepted connect is reported once, with a socket or an error, the
statistics add up, and the connector stops once, when nothing is outstanding. -/
theorem connector_reports_once (actions : List Connecting.Action) :
    let log := Runs.history Connecting.step {} actions
    let s := Runs.final Connecting.step {} actions
    (log.filterMap reported).Nodup ∧
      (∀ (call : Nat) c, s.calls[call]? = some c → c.stage = .ready →
        s.connector.state = .running →
        ((s.step (.post call none)).calls[call]?).bind result = some acceptedResult) ∧
      (∀ (call : Nat) c, s.calls[call]? = some c → result c = some acceptedResult →
        (call ∈ log.filterMap reported ↔ ¬ Awaiting c) ∧
          (Awaiting c →
            ∃ more, call ∈ (Runs.history Connecting.step s more).filterMap reported)) ∧
      (∀ (call : Nat) c r, s.calls[call]? = some c → result c = some r → r ≠ acceptedResult →
        ∀ more, call ∉ (Runs.history Connecting.step {} (actions ++ more)).filterMap reported) ∧
      (∀ event ∈ log, ∀ made, report event = some made →
        (made.socket = true ↔ made.error = none)) ∧
      total s.connector = log.countP completes + log.countP failsAtOnce ∧
      s.entered = (if s.connector.state = .stopped then 1 else 0) ∧
      (s.connector.state = .stopping → ∃ c ∈ s.calls, outstanding c = true) ∧
      (s.connector.state = .stopped →
        (∀ (call : Nat) c, s.calls[call]? = some c → result c = some acceptedResult →
          c.stage = .finished ∧ call ∈ log.filterMap reported) ∧
        ∀ more, (Runs.final Connecting.step s more).connector.state = .stopped ∧
          (Runs.history Connecting.step s more).filterMap reported = []) := by
  intro log s
  have hsound : Sound s := sound_final
  have hreported : ∀ (call : Nat) c, s.calls[call]? = some c → result c = some acceptedResult →
      (call ∈ log.filterMap reported ↔ ¬ Awaiting c) := by
    intro call c hfound hresult
    have htold := told_final c (List.mem_of_getElem? hfound)
    rw [reported_iff, ← reached_iff htold hresult]
    constructor
    · rintro ⟨other, hother, hreached⟩
      cases hfound.symm.trans hother
      exact hreached
    · exact fun hreached => ⟨c, hfound, hreached⟩
  refine ⟨reports_pass.nodup.1, fun _ _ => post_accepted, ?_, ?_, ?_, total_run, hsound.entered,
    ?_, ?_⟩
  · intro call c hfound hresult
    exact ⟨hreported call c hfound hresult, fun hawaiting => hawaiting.reportable hfound⟩
  · intro call c r hfound hresult hother more hmem
    rw [reported_iff, Runs.final_append] at hmem
    obtain ⟨d, hd, hreached⟩ := hmem
    obtain ⟨d', hd', hkept⟩ := keeps_final call c r hfound hresult
    cases hd.symm.trans hd'
    exact not_reached hkept hother hreached
  · exact fun event hevent made hmade => report_consistent hevent hmade
  · intro hstopping
    have hpos := hsound.draining hstopping
    rw [hsound.counted] at hpos
    exact List.countP_pos_iff.mp hpos
  · intro hstopped
    refine ⟨?_, hsound.stopped_run hstopped⟩
    intro call c hfound hresult
    have htold := told_final c (List.mem_of_getElem? hfound)
    have hfinished := hsound.finished hstopped hfound htold hresult
    refine ⟨hfinished, (hreported call c hfound hresult).mpr ?_⟩
    simp [Awaiting, hfinished]

end IocpRuntime.Proofs.ConnectReports
