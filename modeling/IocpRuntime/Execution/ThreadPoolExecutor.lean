import IocpRuntime.Execution.Executor

/-! A pool of worker threads over one queue. -/

namespace IocpRuntime.Execution
open Buffer

structure ThreadPoolContext (τ : Type) extends TaskQueue τ where
  liveWorkers : Nat := 0
  deriving DecidableEq, Repr

/-- Where a thread is in `WorkerMain`. -/
inductive Worker (τ : Type) where
  | waiting
  | executing (task : τ)
  | exited
  deriving DecidableEq, Repr

namespace Worker

variable {τ : Type}

def task? : Worker τ → Option τ
  | .executing task => some task
  | _ => none

def live : Worker τ → Bool
  | .exited => false
  | _ => true

end Worker

namespace ThreadPoolContext

variable {τ : Type} (c : ThreadPoolContext τ)

def submit (task : Option τ) : Except Thrown SubmitStatus × ThreadPoolContext τ :=
  match task with
  | none => (.error emptyTask, c)
  | some task =>
    (.ok c.admission,
      if c.admission = .accepted then { c with toTaskQueue := c.toTaskQueue.pushBack task } else c)

def stop (mode : StopMode) : ThreadPoolContext τ :=
  if c.state = .stopped then c
  else
    let c := { c with toTaskQueue := c.toTaskQueue.requestStop mode }
    if c.liveWorkers = 0 then { c with state := .stopped } else c

/-- A worker leaves its loop; the last one stops the pool. -/
def workerExit : ThreadPoolContext τ :=
  let c := { c with liveWorkers := c.liveWorkers - 1 }
  if c.liveWorkers = 0 then { c with state := .stopped } else c

/-- The section at the top of the loop of `WorkerMain`. In the last case the worker waits. -/
def workerMain : Worker τ × ThreadPoolContext τ :=
  match (if c.state = .running ∨ c.stopMode = .drain then c.popFront else none) with
  | some (task, q) => (.executing task, { c with toTaskQueue := q })
  | none => if c.state ≠ .running then (.exited, c.workerExit) else (.waiting, c)

/-- The section of `WorkerMain` after a task has returned. -/
def workerDone : ThreadPoolContext τ := { c with toTaskQueue := c.toTaskQueue.complete }

end ThreadPoolContext

/-- A pool with its threads between two sections. -/
structure Pool (τ : Type) where
  context : ThreadPoolContext τ
  workers : List (Worker τ) := []
  deriving DecidableEq, Repr

inductive PoolAction (τ : Type) where
  | submit (task : Option τ)
  | stop (mode : StopMode)
  | worker (index : Nat)
  deriving DecidableEq, Repr

namespace Pool

variable {τ : Type} (s : Pool τ)

/-- The constructor starts one more thread, and counts it. -/
def startWorker : Pool τ :=
  { context := { s.context with liveWorkers := s.context.liveWorkers + 1 }
    workers := s.workers ++ [.waiting] }

/-- `failure` is the exception of a thread that could not be started; those that were are joined. -/
def create (workerCount maximumPendingTasks : Nat) (failure : Option Thrown) :
    Except Thrown (Pool τ) :=
  if workerCount = 0 then
    .error (.invalidArgument "thread pool worker 수는 1 이상이어야 합니다")
  else if maximumPendingTasks = 0 then
    .error (.invalidArgument "thread pool queue 상한은 1 이상이어야 합니다")
  else
    match failure with
    | some exception => .error exception
    | none => .ok (startWorker^[workerCount] { context := { maximumPendingTasks } })

def workerStep (index : Nat) : Pool τ :=
  match s.workers[index]? with
  | some .waiting =>
    { context := s.context.workerMain.2, workers := s.workers.set index s.context.workerMain.1 }
  | some (.executing _) =>
    { context := s.context.workerDone, workers := s.workers.set index .waiting }
  | _ => s

/-- A section some thread runs next. `Join` is a `Stop` that drains, the destructor one
that cancels. -/
def step (action : PoolAction τ) : Pool τ :=
  match action with
  | .submit task => { s with context := (s.context.submit task).2 }
  | .stop mode => { s with context := s.context.stop mode }
  | .worker index => s.workerStep index

end Pool

end IocpRuntime.Execution
