import IocpRuntime.Execution.Executor
import IocpRuntime.Runtime.IoContext

/-! An executor whose tasks run on the workers of a completion port. It keeps counters only;
the tasks are in the packets. -/

namespace IocpRuntime.Execution
open Buffer

structure IocpExecutor where
  maximumPendingTasks : Nat
  state : ExecutionState := .running
  stopMode : StopMode := .drain
  pendingTasks : Nat := 0
  runningTasks : Nat := 0
  completedTasks : Nat := 0
  cancelledTasks : Nat := 0
  deriving DecidableEq, Repr

namespace IocpExecutor

variable (e : IocpExecutor)

def create (maximumPendingTasks : Nat) : Except Thrown IocpExecutor :=
  if maximumPendingTasks = 0 then
    .error (.invalidArgument "IOCP executor queue 상한은 1 이상이어야 합니다")
  else .ok { maximumPendingTasks }

/-- The first section of `Post`: the submission is counted before the packet is posted. -/
def admission : SubmitStatus :=
  if e.state ≠ .running then .stopped
  else if e.pendingTasks ≥ e.maximumPendingTasks then .saturated
  else .accepted

def admitted : IocpExecutor := { e with pendingTasks := e.pendingTasks + 1 }

def moveToStoppedIfDrainedLocked : IocpExecutor :=
  if e.state = .stopping ∧ e.pendingTasks = 0 ∧ e.runningTasks = 0 then { e with state := .stopped }
  else e

/-- The context has refused the packet. -/
def rollBackSubmission : IocpExecutor :=
  let e := { e with pendingTasks := e.pendingTasks - 1 }
  let e := if e.state = .running then { e with state := .stopping } else e
  e.moveToStoppedIfDrainedLocked

def stop (mode : StopMode) : IocpExecutor :=
  if e.state = .stopped then e
  else
    let e :=
      if e.state = .running then { e with state := .stopping, stopMode := mode }
      else if mode = .cancelPending then { e with stopMode := .cancelPending }
      else e
    e.moveToStoppedIfDrainedLocked

def cancelling : Bool := e.state ≠ .running && e.stopMode = .cancelPending

def executePacket : IocpExecutor :=
  let e := { e with pendingTasks := e.pendingTasks - 1 }
  if e.cancelling then { e with cancelledTasks := e.cancelledTasks + 1 }
  else { e with runningTasks := e.runningTasks + 1 }

def packetDone (cancelled : Bool) : IocpExecutor :=
  let e :=
    if cancelled then e
    else { e with runningTasks := e.runningTasks - 1, completedTasks := e.completedTasks + 1 }
  e.moveToStoppedIfDrainedLocked

end IocpExecutor

/-- A call of `Post` that has been admitted and has not returned. -/
inductive PostCall (τ : Type) where
  | admitted (task : τ)
  /-- The context has refused its packet. -/
  | refused
  deriving DecidableEq, Repr

/-- Where a thread is in `RunWorker`. -/
inductive IoWorker (τ : Type) where
  | waiting
  | dequeued (task : τ)
  | executing (task : τ)
  | cancelled
  | completing
  | exited
  deriving DecidableEq, Repr

/-- An executor, its context and their threads between two sections. -/
structure IocpThreads (τ : Type) where
  executor : IocpExecutor
  context : IoContext τ
  posts : List (PostCall τ) := []
  workers : List (IoWorker τ)
  deriving DecidableEq, Repr

inductive IocpAction (τ : Type) where
  | post (task : Option τ)
  /-- `PostTask` for one of the calls of `Post`. -/
  | postTask (index : Nat)
  | rollBack (index : Nat)
  | stop (mode : StopMode)
  | contextStop
  /-- An I/O operation of the context completes. -/
  | native
  | worker (index : Nat)
  deriving DecidableEq, Repr

namespace IocpThreads

variable {τ : Type} (s : IocpThreads τ)

def dequeue (index : Nat) : IocpThreads τ :=
  match s.context.port with
  | [] => s
  | packet :: rest =>
    { s with
      context := { s.context with port := rest }
      workers := s.workers.set index
        (match packet with
          | .task task => .dequeued task
          | .stop => .exited
          | .native => .completing) }

def workerStep (index : Nat) : IocpThreads τ :=
  match s.workers[index]? with
  | some .waiting => s.dequeue index
  | some (.dequeued task) =>
    { s with
      executor := s.executor.executePacket
      workers := s.workers.set index (if s.executor.cancelling then .cancelled else .executing task) }
  | some (.executing _) =>
    { s with executor := s.executor.packetDone false, workers := s.workers.set index .waiting }
  | some .cancelled =>
    { s with executor := s.executor.packetDone true, workers := s.workers.set index .waiting }
  | some .completing => { s with workers := s.workers.set index .waiting }
  | _ => s

def step (action : IocpAction τ) : IocpThreads τ :=
  match action with
  | .post none => s
  | .post (some task) =>
    if s.executor.admission = .accepted then
      { s with executor := s.executor.admitted, posts := s.posts ++ [.admitted task] }
    else s
  | .postTask index =>
    match s.posts[index]? with
    | some (.admitted task) =>
      { s with
        context := (s.context.postTask task).2
        posts := if (s.context.postTask task).1 then s.posts.eraseIdx index
          else s.posts.set index .refused }
    | _ => s
  | .rollBack index =>
    match s.posts[index]? with
    | some .refused =>
      { s with executor := s.executor.rollBackSubmission, posts := s.posts.eraseIdx index }
    | _ => s
  | .stop mode => { s with executor := s.executor.stop mode }
  | .contextStop => { s with context := s.context.stop }
  | .native => { s with context := { s.context with port := s.context.port ++ [.native] } }
  | .worker index => s.workerStep index

end IocpThreads

end IocpRuntime.Execution
