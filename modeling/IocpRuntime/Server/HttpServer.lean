import IocpRuntime.Execution.SerialExecutor
import IocpRuntime.Execution.ThreadPoolExecutor
import IocpRuntime.Runtime.IoContext
import IocpRuntime.Server.Configuration
import IocpRuntime.Transport.ConnectionRegistry
import IocpRuntime.Transport.TcpListener

/-! The HTTP server: a listener, the connections it has accepted, each with a serial executor,
and the pool of application threads these executors run on. Every action is one section of one
thread, so a list of actions is an interleaving of accepts, completions, tasks and calls of
`Stop`. What a receive handler makes of its octets is left open: it may post any tasks. -/

namespace IocpRuntime.Server
open Buffer Http Transport Execution

inductive HttpServerState where
  | created
  | running
  | stopping
  | stopped
  deriving DecidableEq, Repr

/-- A `Drain` of the serial executor of a connection, or a task of an HTTP/2 session. -/
inductive AppJob (τ : Type) where
  | drain (connection : Nat)
  | task (posted : τ)
  deriving DecidableEq, Repr

/-- Whether a job is a call of `Drain` for a connection. -/
def AppJob.drains {τ : Type} (connection : Nat) : AppJob τ → Bool
  | .drain index => index == connection
  | .task _ => false

/-- A connection in the registry, its serial executor, and the calls of `Drain` that run. -/
structure Served (τ : Type) where
  running : Running
  serial : SerialExecutor τ
  drains : List (Option τ) := []
  deriving DecidableEq, Repr

/-- The next section of one call of `Drain`. -/
def Served.drainStep {τ : Type} (served : Served τ) (call : Nat) : Served τ :=
  match served.drains[call]? with
  | none => served
  | some (some _) =>
    { served with serial := served.serial.drained, drains := served.drains.set call none }
  | some none =>
    match served.serial.drain with
    | (some task, serial) => { served with serial, drains := served.drains.set call (some task) }
    | (none, serial) => { served with serial, drains := served.drains.eraseIdx call }

/-- Where `Start` is: it has returned, or it is stopping the server again because the listener
could not be created. -/
inductive StartStage where
  | started
  | failed
  | stopsPool
  | joinsPool
  | stopsIo
  | finishes
  | threw
  deriving DecidableEq, Repr

/-- Where a call of `Stop` is. -/
inductive StopStage where
  /-- Before it holds `stop_mutex_`. -/
  | called
  | stopsListener
  | waitsListener
  | snapshots
  /-- The connections of the snapshot that are still to be closed. -/
  | closes (left : List Nat)
  | waitsEmpty
  | stopsPool
  | waitsPool
  | joinsPool
  | stopsIo
  | finishes
  | returned (result : Bool)
  deriving DecidableEq, Repr

/-- Whether the call holds `stop_mutex_`. -/
def StopStage.holds : StopStage → Bool
  | .called => false
  | .returned _ => false
  | _ => true

structure Serving (τ : Type) where
  options : HttpServerOptions
  state : HttpServerState := .running
  start : StartStage := .started
  listening : Listening
  /-- Accepts whose handler has been called and has not entered `state_mutex_`. -/
  arrivals : List Nat := []
  /-- Holds the connections by their place in the next list. -/
  registry : ConnectionRegistry Nat := {}
  /-- Every connection that was added. -/
  connections : List (Served τ) := []
  pool : Pool (AppJob τ)
  stops : List StopStage := []

/-- What the system refuses while a server is created. -/
structure Startup where
  winsock : Option Thrown := none
  ioContext : Option Thrown := none
  workers : Option Thrown := none
  listener : Option Thrown := none
  accept : AcceptCalls := {}

/-- A call of the system that may fail. -/
def attempt (failure : Option Thrown) : Except Thrown Unit :=
  match failure with
  | some exception => .error exception
  | none => .ok ()

namespace Serving

variable {τ : Type}

/-- The constructor of the listener, which fails before an accept is posted. -/
def constructListener (options : ListenerOptions) (failure : Option Thrown) :
    Except Thrown Unit := do
  refuse (decide (options.backlog ≤ 0)) "listener backlog는 1 이상이어야 합니다"
  attempt failure

/-- Up to the creation of the listener; one that does not exist is as one that was stopped. -/
def startListener (options : ListenerOptions) (startup : Startup) : Listening :=
  match constructListener options startup.listener with
  | .error _ => { listener := { state := .stopped, listenSocket := false }, entered := 1 }
  | .ok () => Listening.start startup.accept

/-- `Create`. The constructor throws, or there is a server to start. -/
def create (logger : Bool) (options : HttpServerOptions) (startup : Startup) :
    Except Thrown (Serving τ) := do
  refuse (!logger) "WinsockRuntime에는 Logger가 필요합니다"
  attempt startup.winsock
  let _ ← (IoContext.create options.ioWorkerCount.toNat logger : Except Thrown (IoContext τ))
  attempt startup.ioContext
  let pool ← Pool.create options.applicationWorkerCount.toNat
    options.maximumApplicationTasks.toNat startup.workers
  refuse (!logger) "HttpServer requires a logger"
  refuse (options.maximumConnectionTasks == 0) "maximum connection tasks must be positive"
  refuse (decide (options.shutdownTimeout ≤ 0)) "HttpServer shutdown timeout must be positive"
  let listening := startListener options.listener startup
  return {
    options
    start := if listening.listener.state = .running then .started else .failed
    listening
    pool }

variable (s : Serving τ)

/-- The serial executor of a new connection; the encoder of its responses is made next. -/
def newSerial : Except Thrown (SerialExecutor τ) := do
  let serial ← SerialExecutor.create true s.options.maximumConnectionTasks.toNat
  let _ ← createEncoder s.options.encoder
  return serial

/-- A connection with the id it was given, in the registry and not started. -/
def register (id : UInt64) : Except Thrown (TcpConnection × ConnectionRegistry Nat) := do
  let connection ← TcpConnection.create id true true true s.options.connection
  let registry ← s.registry.add connection.id (some s.connections.length)
  return (connection, registry)

/-- `OnAccepted`, which holds `state_mutex_` throughout. An exception ends it; an id that was
taken is gone. -/
def onAccepted (native : Option WinsockError) : Serving τ :=
  if s.state ≠ .running then s
  else
    match s.newSerial with
    | .error _ => s
    | .ok serial =>
      let (id, registry) := s.registry.nextId
      let s := { s with registry }
      match s.register id with
      | .error _ => s
      | .ok (connection, registry) =>
        let running := ({ connection } : Running).step (.start native)
        { s with registry, connections := s.connections ++ [{ running := running, serial }] }

def listenerStep (action : Listening.Action) : Serving τ :=
  { s with
    listening := s.listening.step action
    arrivals := s.arrivals ++ (s.listening.calledBy action).toList }

def setServed (index : Nat) (served : Served τ) : Serving τ :=
  { s with connections := s.connections.set index served }

/-- A section of a connection; one that has closed removes itself from the registry. -/
def connectionStep (index : Nat) (action : Transport.Action) : Serving τ :=
  match s.connections[index]? with
  | none => s
  | some served =>
    let registry :=
      if action = .remove ∧ served.running.removals ≠ 0 then
        (s.registry.remove served.running.connection.id).2
      else s.registry
    { s with registry }.setServed index { served with running := served.running.step action }

def submit (job : AppJob τ) : Serving τ := { s with pool := s.pool.step (.submit (some job)) }

/-- A result of `Post` of a serial executor over the pool. -/
def posted (served : Served τ) (task : Option τ) : Posted τ :=
  served.serial.post task (.answers s.pool.context.admission)

def postSerial (index : Nat) (task : Option τ) : Serving τ :=
  match s.connections[index]? with
  | none => s
  | some served =>
    let posted := s.posted served task
    let s := s.setServed index { served with serial := posted.executor }
    if posted.drain.isSome then s.submit (.drain index) else s

/-- The job whose end a worker takes note of next. -/
def ends (worker : Nat) : Option (AppJob τ) := s.pool.workers[worker]?.bind Worker.task?

/-- The job that a worker takes next. -/
def takes (worker : Nat) : Option (AppJob τ) :=
  match s.pool.workers[worker]? with
  | some .waiting => s.pool.context.workerMain.1.task?
  | _ => none

/-- The calls of `Drain` of one connection that workers have taken. -/
def taken (index : Nat) : Nat :=
  (s.pool.workers.filterMap Worker.task?).countP (AppJob.drains index)

/-- The calls of `Drain` of one connection that have not returned. -/
def drainsOf (index : Nat) : List (Option τ) :=
  match s.connections[index]? with
  | some served => served.drains
  | none => []

/-- A job that is a call of `Drain` ends after the call has returned. -/
def returned (worker : Nat) : Bool :=
  match s.ends worker with
  | some (.drain index) => (s.drainsOf index).length < s.taken index
  | _ => true

/-- A call of `Drain` begins. -/
def beginDrain (index : Nat) : Serving τ :=
  match s.connections[index]? with
  | none => s
  | some served => s.setServed index { served with drains := served.drains ++ [none] }

def workerStep (worker : Nat) : Serving τ :=
  if s.returned worker then
    let next := { s with pool := s.pool.step (.worker worker) }
    match s.takes worker with
    | some (.drain index) => next.beginDrain index
    | _ => next
  else s

def drainStep (index call : Nat) : Serving τ :=
  match s.connections[index]? with
  | none => s
  | some served => s.setServed index (served.drainStep call)

/-- `Join` is a `Stop` that drains, and waits for the threads. -/
def joinPool : Bool × Serving τ :=
  let s := { s with pool := s.pool.step (.stop .drain) }
  (!s.pool.workers.any Worker.live, s)

/-- The next section of a `Start` that has failed. -/
def startSection : Serving τ :=
  match s.start with
  | .started => s
  | .failed => { s with state := .stopping, start := .stopsPool }
  | .stopsPool => { s with pool := s.pool.step (.stop .cancelPending), start := .joinsPool }
  | .joinsPool =>
    let (joined, s) := s.joinPool
    if joined then { s with start := .stopsIo } else s
  | .stopsIo => { s with start := .finishes }
  | .finishes => { s with state := .stopped, start := .threw }
  | .threw => s

/-- A wait whose condition does not hold goes on; `choice` is the connection closed next. -/
def stopSection (stage : StopStage) (choice : Nat) : StopStage × Serving τ :=
  match stage with
  | .called =>
    if s.stops.any StopStage.holds then (.called, s)
    else
      match s.state with
      | .stopped => (.returned true, s)
      | .created => (.returned true, { s with state := .stopped })
      | _ => (.stopsListener, { s with state := .stopping })
  | .stopsListener => (.waitsListener, s.listenerStep .stop)
  | .waitsListener =>
    (if s.listening.listener.state = .stopped then .snapshots else .waitsListener, s)
  | .snapshots => (.closes s.registry.connections, s)
  | .closes left =>
    match left[choice]? with
    | some index =>
      (.closes (left.eraseIdx choice), s.connectionStep index (.beginClose .localShutdown))
    | none => (if left.isEmpty then .waitsEmpty else .closes left, s)
  | .waitsEmpty => (if s.registry.empty then .stopsPool else .waitsEmpty, s)
  | .stopsPool => (.waitsPool, { s with pool := s.pool.step (.stop .drain) })
  | .waitsPool => (if s.pool.context.state = .stopped then .joinsPool else .waitsPool, s)
  | .joinsPool => (if s.joinPool.1 then .stopsIo else .joinsPool, s.joinPool.2)
  | .stopsIo => (.finishes, s)
  | .finishes => (.returned true, { s with state := .stopped })
  | .returned result => (.returned result, s)

/-- Whether a wait of `Stop` can end because its time is up. -/
def timesOut : StopStage → Bool
  | .waitsListener => s.listening.listener.state ≠ .stopped
  | .waitsEmpty => !s.registry.empty
  | .waitsPool => s.pool.context.state ≠ .stopped
  | _ => false

inductive Action (τ : Type) where
  /-- A section of the listener; the handler of an accept returns after `OnAccepted`. -/
  | listener (action : Listening.Action)
  | onAccepted (accept : Nat) (native : Option WinsockError)
  /-- A section of a connection, by a completion, a timer or a session. -/
  | connection (index : Nat) (action : Transport.Action)
  | postSerial (index : Nat) (task : Option τ)
  | postPool (task : τ)
  | drain (index call : Nat)
  | worker (worker : Nat)
  | start
  /-- Some thread calls `Stop`. -/
  | stop
  | stopStep (call choice : Nat)
  | giveUp (call : Nat)

def isStart : Transport.Action → Bool
  | .start _ => true
  | _ => false

/-- An action that is not possible does nothing. -/
def step (s : Serving τ) : Action τ → Serving τ
  | .listener (.handled accept) =>
    if accept ∈ s.arrivals then s else s.listenerStep (.handled accept)
  | .listener action => s.listenerStep action
  | .onAccepted accept native =>
    if accept ∈ s.arrivals then
      { s with arrivals := s.arrivals.filter (· ≠ accept) }.onAccepted native
    else s
  | .connection index action => if isStart action then s else s.connectionStep index action
  | .postSerial index task => s.postSerial index task
  | .postPool task => s.submit (.task task)
  | .drain index call => s.drainStep index call
  | .worker worker => s.workerStep worker
  | .start => s.startSection
  | .stop =>
    -- nobody has the server before `Create` has returned or its destructor runs
    if s.start = .started ∨ s.start = .threw then { s with stops := s.stops ++ [.called] } else s
  | .stopStep call choice =>
    match s.stops[call]? with
    | none => s
    | some stage =>
      let (stage, s) := s.stopSection stage choice
      { s with stops := s.stops.set call stage }
  | .giveUp call =>
    match s.stops[call]? with
    | none => s
    | some stage =>
      if s.timesOut stage then { s with stops := s.stops.set call (.returned false) } else s

end Serving

end IocpRuntime.Server
