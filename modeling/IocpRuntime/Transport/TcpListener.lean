import IocpRuntime.Transport.TcpConnection

/-! The listener and its overlapped accepts. Each function of `TcpListener` is what the source
does while it holds the listener's mutex; `Listening` adds the posted accepts and how far the
handling of each has come. -/

namespace IocpRuntime.Transport

inductive ListenerState where
  | running
  | stopping
  | stopped
  deriving DecidableEq, Repr

structure TcpListener where
  state : ListenerState := .running
  listenSocket : Bool := true
  outstandingAccepts : Nat := 0
  acceptedConnections : UInt64 := 0
  acceptErrors : UInt64 := 0
  deriving DecidableEq, Repr

/-- The errors of `WSASocketW` and of `AcceptEx`, if they fail at once. -/
structure AcceptCalls where
  socket : Option WinsockError := none
  acceptEx : Option WinsockError := none

namespace TcpListener

/-- The code returned, which is 0 when the system has taken the accept. -/
def postAcceptLocked (l : TcpListener) (calls : AcceptCalls) : Nat × TcpListener :=
  if l.state ≠ .running then (wsaEShutdown, l)
  else
    match calls.socket with
    | some error => (error, l)
    | none =>
      let l := { l with outstandingAccepts := l.outstandingAccepts + 1 }
      match calls.acceptEx with
      | some error => (error, { l with outstandingAccepts := l.outstandingAccepts - 1 })
      | none => (0, l)

/-- With whether the listener became stopped. -/
def moveToStoppedIfDrainedLocked (l : TcpListener) : Bool × TcpListener :=
  if l.state = .stopping ∧ l.outstandingAccepts = 0 then (true, { l with state := .stopped })
  else (false, l)

/-- With whether an accept was posted. -/
def start (l : TcpListener) (calls : AcceptCalls) : Bool × Bool × TcpListener :=
  let (postError, l) := l.postAcceptLocked calls
  if postError ≠ 0 then
    (false, { l with state := .stopping, listenSocket := false }.moveToStoppedIfDrainedLocked)
  else (true, false, l)

/-- What the first section of a completion found and did. -/
structure Completion where
  listener : TcpListener
  wasRunning : Bool
  posted : Bool

/-- The next accept is posted before the completed one is handled. -/
def completeAccept (l : TcpListener) (calls : AcceptCalls) : Completion :=
  if l.state = .running then
    let (nextAcceptError, l) := l.postAcceptLocked calls
    if nextAcceptError ≠ 0 then
      { listener := { l with
          acceptErrors := l.acceptErrors + 1
          state := .stopping
          listenSocket := false }
        wasRunning := true, posted := false }
    else { listener := l, wasRunning := true, posted := true }
  else { listener := l, wasRunning := false, posted := false }

def countAcceptError (l : TcpListener) : TcpListener :=
    { l with acceptErrors := l.acceptErrors + 1 }

/-- With whether the accepted socket goes to the handler. -/
def deliverAccepted (l : TcpListener) : Bool × TcpListener :=
  if l.state = .running then (true, { l with acceptedConnections := l.acceptedConnections + 1 })
  else (false, l)

def finishAcceptCompletion (l : TcpListener) : Bool × TcpListener :=
  { l with outstandingAccepts :=
      if l.outstandingAccepts > 0 then l.outstandingAccepts - 1
      else l.outstandingAccepts }.moveToStoppedIfDrainedLocked

def stop (l : TcpListener) : Bool × TcpListener :=
  if l.state = .stopped ∨ l.state = .stopping then (false, l)
  else { l with state := .stopping, listenSocket := false }.moveToStoppedIfDrainedLocked

end TcpListener

/-- How far the handling of a posted accept has come. -/
inductive AcceptStage where
  /-- The system has it, or its completion has not reached the step that posts the next one. -/
  | pending
  /-- It failed while the listener was running, which is still to be counted. -/
  | failed
  /-- The accepted socket is being prepared. -/
  | preparing
  | prepared
  /-- The accept handler runs. -/
  | handling
  /-- `OnAcceptCompleteImpl` is about to return. -/
  | leaving
  /-- An exception has left `OnAcceptCompleteImpl`. -/
  | raised
  /-- `FinishAcceptCompletion` is next. -/
  | finishing
  | finished
  deriving DecidableEq, Repr

/-- A listener with the accepts it has posted, and how often it became stopped. -/
structure Listening where
  listener : TcpListener
  accepts : List AcceptStage := []
  entered : Nat := 0

namespace Listening

inductive Action where
  /-- The first section of a completion. -/
  | complete (accept : Nat) (error : Bool) (calls : AcceptCalls)
  | countError (accept : Nat)
  /-- `setsockopt` and `Associate` succeed, or one of them fails. -/
  | prepare (accept : Nat) (succeeds : Bool)
  | deliver (accept : Nat)
  /-- The accept handler returns or throws. -/
  | handled (accept : Nat)
  /-- Outside the handler, something else than a call of the system throws. -/
  | raise (accept : Nat)
  | leave (accept : Nat)
  /-- The `Stop` behind an exception. -/
  | stopRaised (accept : Nat)
  | finish (accept : Nat)
  /-- `Stop`, by the accept handler or by any other thread. -/
  | stop

def start (calls : AcceptCalls) : Listening :=
  let (posted, becameStopped, listener) := ({} : TcpListener).start calls
  { listener
    accepts := if posted then [.pending] else []
    entered := becameStopped.toNat }

variable (s : Listening)

def move (accept : Nat) (stage : AcceptStage) : Listening :=
  { s with accepts := s.accepts.set accept stage }

/-- What a section that may end the listener leaves. -/
def settled (outcome : Bool × TcpListener) : Listening :=
  { s with listener := outcome.2, entered := s.entered + outcome.1.toNat }

def complete (accept : Nat) (error : Bool) (calls : AcceptCalls) : Listening :=
  let completion := s.listener.completeAccept calls
  let stage := if completion.wasRunning then if error then .failed else .preparing else .leaving
  { s with
    listener := completion.listener
    accepts := s.accepts.set accept stage ++ if completion.posted then [.pending] else [] }

/-- Calls the handler, if the listener is still running. -/
def deliver (accept : Nat) : Listening :=
  let (deliver, listener) := s.listener.deliverAccepted
  { s with listener }.move accept (if deliver then .handling else .leaving)

/-- An action that does not fit the stage of its accept does nothing. -/
def step : Action → Listening
  | .complete accept error calls =>
    if s.accepts[accept]? = some .pending then s.complete accept error calls else s
  | .countError accept =>
    if s.accepts[accept]? = some .failed then
      { s with listener := s.listener.countAcceptError }.move accept .leaving
    else s
  | .prepare accept succeeds =>
    if s.accepts[accept]? = some .preparing then
      s.move accept (if succeeds then .prepared else .leaving)
    else s
  | .deliver accept => if s.accepts[accept]? = some .prepared then s.deliver accept else s
  | .handled accept => if s.accepts[accept]? = some .handling then s.move accept .leaving else s
  | .raise accept =>
    if s.accepts[accept]? = some .failed ∨ s.accepts[accept]? = some .preparing ∨
        s.accepts[accept]? = some .leaving then s.move accept .raised
    else s
  | .leave accept => if s.accepts[accept]? = some .leaving then s.move accept .finishing else s
  | .stopRaised accept =>
    if s.accepts[accept]? = some .raised then
      (s.settled s.listener.stop).move accept .finishing
    else s
  | .finish accept =>
    if s.accepts[accept]? = some .finishing then
      (s.settled s.listener.finishAcceptCompletion).move accept .finished
    else s
  | .stop => s.settled s.listener.stop

/-- The accept whose handler an action calls: it enters that stage. -/
def calledBy : Action → Option Nat
  | .deliver accept =>
    if s.accepts[accept]? ≠ some .handling ∧
        (s.step (.deliver accept)).accepts[accept]? = some .handling then some accept
    else none
  | _ => none

end Listening

end IocpRuntime.Transport
