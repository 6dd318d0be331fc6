import IocpRuntime.Transport.TcpConnection

/-! The connector of outbound connections. Each function of `TcpConnector` is what the source
does while it holds the connector's mutex; `Connecting` adds the calls of `Connect` and how far
each of them, or the completion it has posted, has come. -/

namespace IocpRuntime.Transport
open Buffer

structure TcpConnectOptions where
  address : String := "127.0.0.1"
  port : UInt16 := 0
  deriving DecidableEq, Repr

inductive TcpConnectorState where
  | running
  | stopping
  | stopped
  deriving DecidableEq, Repr

inductive ConnectStartStatus where
  | accepted
  | stopped
  | startFailed
  deriving DecidableEq, Repr

/-- The error codes a connect can be reported with. -/
inductive ConnectError where
  | operationCanceled
  | winsock (error : WinsockError)
  deriving DecidableEq

structure ConnectStartResult where
  status : ConnectStartStatus := .startFailed
  error : Option WinsockError := none
  deriving DecidableEq

/-- The ids and the statistics, 64 bits wide in the source, are added up and compared: they are
unbounded here, which leaves out runs of 2^64 connects. -/
structure TcpConnector where
  state : TcpConnectorState := .running
  nextOperationId : Nat := 1
  pendingSockets : List Nat := []
  outstandingConnects : Nat := 0
  successfulConnects : Nat := 0
  failedConnects : Nat := 0
  cancelledConnects : Nat := 0
  deriving DecidableEq, Repr

namespace TcpConnector

/-- The checks of `Connect` before it takes the mutex. -/
def checkArguments (options : TcpConnectOptions) (handler : Bool) : Except Thrown Unit :=
  if !handler then .error (.invalidArgument "TcpConnector에는 connect handler가 필요합니다")
  else if options.address.isEmpty then
    .error (.invalidArgument "connect IPv4 address는 비어 있을 수 없습니다")
  else if options.port = 0 then .error (.invalidArgument "connect port는 1 이상이어야 합니다")
  else .ok ()

/-- With whether the connector became stopped. -/
def moveToStoppedIfDrainedLocked (c : TcpConnector) : Bool × TcpConnector :=
  if c.state = .stopping ∧ c.outstandingConnects = 0 then (true, { c with state := .stopped })
  else (false, c)

/-- The second section of `Connect`, for a running connector; `native` is the error of
`ConnectEx` if the call failed at once. -/
def postConnect (c : TcpConnector) (native : Option WinsockError) : TcpConnector :=
  let operationId := c.nextOperationId
  let c := { c with
    nextOperationId := operationId + 1
    pendingSockets := c.pendingSockets ++ [operationId]
    outstandingConnects := c.outstandingConnects + 1 }
  match native with
  | some _ => { c with
      outstandingConnects := c.outstandingConnects - 1
      pendingSockets := c.pendingSockets.erase operationId
      failedConnects := c.failedConnects + 1 }
  | none => c

/-- What a completion found: the socket it takes over, and the error it reports. -/
structure Completion where
  connector : TcpConnector
  socket : Bool := false
  error : Option ConnectError := none

/-- `socket`: it is open; `contextError`: the error of `setsockopt`. -/
def completeConnect (c : TcpConnector) (operationId : Nat) (socket : Bool)
    (error contextError : Option WinsockError) : Completion :=
  let c := { c with pendingSockets := c.pendingSockets.erase operationId }
  if c.state ≠ .running then
    { connector := { c with cancelledConnects := c.cancelledConnects + 1 }
      error := some .operationCanceled }
  else
    match error with
    | none =>
      match contextError with
      | some error =>
        { connector := { c with failedConnects := c.failedConnects + 1 }
          error := some (.winsock error) }
      | none =>
        { connector := { c with successfulConnects := c.successfulConnects + 1 }, socket }
    | some error =>
      { connector := { c with failedConnects := c.failedConnects + 1 }
        error := some (.winsock error) }

/-- The last section of `OnConnectComplete`. -/
def finishConnect (c : TcpConnector) : Bool × TcpConnector :=
  { c with outstandingConnects :=
      if c.outstandingConnects > 0 then c.outstandingConnects - 1
      else c.outstandingConnects }.moveToStoppedIfDrainedLocked

/-- `Stop`, but for the sockets. -/
def stop (c : TcpConnector) : Bool × TcpConnector :=
  if c.state = .stopped ∨ c.state = .stopping then (false, c)
  else { c with state := .stopping }.moveToStoppedIfDrainedLocked

end TcpConnector

/-- What becomes of the socket before the second section of `Connect`. -/
inductive SocketSetup where
  | invalidAddress
  | failed (error : WinsockError)
  | notAssociated (error : Thrown)
  | associated

/-- How far a call of `Connect` has come. -/
inductive ConnectStage where
  /-- The connector was running, and the socket is being set up. -/
  | preparing
  | ready
  /-- `Connect` returned something else than `Accepted`, or threw. -/
  | returned (result : Except Thrown ConnectStartResult)
  /-- `Connect` returns `Accepted`; the completion has not reached its first section. -/
  | pending
  /-- The completion is about to call the handler. -/
  | settled (socket : Bool) (error : Option ConnectError)
  | handling (socket : Bool) (error : Option ConnectError)
  /-- The handler has returned or thrown. -/
  | handled
  | finished

/-- A call of `Connect`, with the socket it shares with its completion. -/
structure ConnectCall where
  stage : ConnectStage
  operationId : Nat := 0
  socket : Bool := false

structure Connecting where
  connector : TcpConnector := {}
  calls : List ConnectCall := []
  entered : Nat := 0

namespace Connecting

inductive Action where
  | connect (options : TcpConnectOptions) (handler : Bool)
  | setUp (call : Nat) (setup : SocketSetup)
  | post (call : Nat) (native : Option WinsockError)
  | complete (call : Nat) (error contextError : Option WinsockError)
  | callHandler (call : Nat)
  | handlerReturns (call : Nat)
  | finish (call : Nat)
  | stop

variable (s : Connecting)

/-- The argument checks and the first section of `Connect`. -/
def connect (options : TcpConnectOptions) (handler : Bool) : Connecting :=
  let stage := match TcpConnector.checkArguments options handler with
    | .error e => .returned (.error e)
    | .ok () =>
      if s.connector.state ≠ .running then .returned (.ok { status := .stopped }) else .preparing
  { s with calls := s.calls ++ [{ stage }] }

def move (call : Nat) (value : ConnectCall) : Connecting :=
  { s with calls := s.calls.set call value }

def setUp (call : Nat) (c : ConnectCall) (setup : SocketSetup) : Connecting :=
  s.move call <| match setup with
    | .invalidAddress =>
      { c with stage := .returned (.error (.invalidArgument "connect IPv4 address가 유효하지 않습니다")) }
    | .failed error => { c with stage := .returned (.ok { error := some error }) }
    | .notAssociated error => { c with stage := .returned (.error error) }
    | .associated => { c with stage := .ready, socket := true }

def post (call : Nat) (c : ConnectCall) (native : Option WinsockError) : Connecting :=
  if s.connector.state ≠ .running then
    s.move call { c with stage := .returned (.ok { status := .stopped }) }
  else
    let stage := match native with
      | some error => .returned (.ok { error := some error })
      | none => .pending
    { s with connector := s.connector.postConnect native }.move call
      { c with stage, operationId := s.connector.nextOperationId }

def complete (call : Nat) (c : ConnectCall) (error contextError : Option WinsockError) :
    Connecting :=
  let completion := s.connector.completeConnect c.operationId c.socket error contextError
  { s with connector := completion.connector }.move call
    { c with
      stage := .settled completion.socket completion.error
      socket := c.socket && !completion.socket }

def finish (call : Nat) (c : ConnectCall) : Connecting :=
  let (becameStopped, connector) := s.connector.finishConnect
  { s with connector, entered := s.entered + becameStopped.toNat }.move call
    { c with stage := .finished }

/-- `Stop` closes the sockets of the connects that are pending. -/
def stop : Connecting :=
  let (becameStopped, connector) := s.connector.stop
  { s with
    connector
    entered := s.entered + becameStopped.toNat
    calls := if s.connector.state = .running then
        s.calls.map (fun c =>
          if c.operationId ∈ s.connector.pendingSockets then { c with socket := false } else c)
      else s.calls }

/-- An action that does not fit the stage of its call does nothing. -/
def atStage (call : Nat) (next : ConnectCall → Option Connecting) : Connecting :=
  ((s.calls[call]?).bind next).getD s

def step : Action → Connecting
  | .connect options handler => s.connect options handler
  | .setUp call setup => s.atStage call (fun c => match c.stage with
    | .preparing => some (s.setUp call c setup)
    | _ => none)
  | .post call native => s.atStage call (fun c => match c.stage with
    | .ready => some (s.post call c native)
    | _ => none)
  | .complete call error contextError => s.atStage call (fun c => match c.stage with
    | .pending => some (s.complete call c error contextError)
    | _ => none)
  | .callHandler call => s.atStage call (fun c => match c.stage with
    | .settled socket error => some (s.move call { c with stage := .handling socket error })
    | _ => none)
  | .handlerReturns call => s.atStage call (fun c => match c.stage with
    | .handling _ _ => some (s.move call { c with stage := .handled })
    | _ => none)
  | .finish call => s.atStage call (fun c => match c.stage with
    | .handled => some (s.finish call c)
    | _ => none)
  | .stop => s.stop

end Connecting

end IocpRuntime.Transport
