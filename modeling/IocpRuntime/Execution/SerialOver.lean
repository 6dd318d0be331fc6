import IocpRuntime.Execution.SerialExecutor
import IocpRuntime.Execution.ThreadPoolExecutor

/-! A serial executor over a manual executor or a thread pool that other code uses and
stops as well. -/

namespace IocpRuntime.Execution

/-- A task of the underlying executor: a call of the serial executor's `Drain`, or a task of
someone else. -/
inductive Job where
  | drain
  | other
  deriving DecidableEq, Repr

/-- A manual executor with the calls of `RunOne` that run a task. -/
structure ManualCalls (τ : Type) where
  executor : ManualExecutor τ
  running : List τ := []
  deriving DecidableEq, Repr

inductive UnderlyingExecutor where
  | manual (calls : ManualCalls Job)
  | threadPool (pool : Pool Job)
  deriving DecidableEq, Repr

/-- What others do with the underlying executor, and what its threads do. -/
inductive UnderlyingAction where
  | post
  | stop (mode : StopMode)
  /-- A thread calls `RunOne`; there is no such call for a pool. -/
  | runOne
  /-- The next section of one worker, or of one call of `RunOne` whose task has returned. -/
  | thread (index : Nat)
  deriving DecidableEq, Repr

namespace UnderlyingExecutor

variable (u : UnderlyingExecutor)

def state : ExecutionState :=
  match u with
  | .manual calls => calls.executor.state
  | .threadPool pool => pool.context.state

def queue : List Job :=
  match u with
  | .manual calls => calls.executor.tasks
  | .threadPool pool => pool.context.tasks

def running : List Job :=
  match u with
  | .manual calls => calls.running
  | .threadPool pool => pool.workers.filterMap Worker.task?

def admission : SubmitStatus :=
  match u with
  | .manual calls => calls.executor.admission
  | .threadPool pool => pool.context.admission

def submit (job : Job) : UnderlyingExecutor :=
  match u with
  | .manual calls => .manual { calls with executor := (ManualExecutor.post calls.executor (some job)).2 }
  | .threadPool pool => .threadPool (pool.step (.submit (some job)))

/-- The job that an action takes from the queue. -/
def takes (action : UnderlyingAction) : Option Job :=
  match u, action with
  | .manual calls, .runOne => (ManualExecutor.runOne calls.executor).1
  | .threadPool pool, .thread index =>
    match pool.workers[index]? with
    | some .waiting => pool.context.workerMain.1.task?
    | _ => none
  | _, _ => none

/-- The job whose end an action takes note of. -/
def ends (action : UnderlyingAction) : Option Job :=
  match u, action with
  | .manual calls, .thread index => calls.running[index]?
  | .threadPool pool, .thread index => pool.workers[index]?.bind Worker.task?
  | _, _ => none

def step (action : UnderlyingAction) : UnderlyingExecutor :=
  match action with
  | .post => u.submit .other
  | .stop mode =>
    match u with
    | .manual calls => .manual { calls with executor := ManualExecutor.stop calls.executor mode }
    | .threadPool pool => .threadPool (pool.step (.stop mode))
  | .runOne =>
    match u with
    | .manual calls =>
      .manual { executor := (ManualExecutor.runOne calls.executor).2
                running := calls.running ++ (ManualExecutor.runOne calls.executor).1.toList }
    | .threadPool _ => u
  | .thread index =>
    match u with
    | .manual calls =>
      if index < calls.running.length then
        .manual { executor := ManualExecutor.ranOne calls.executor
                  running := calls.running.eraseIdx index }
      else u
    | .threadPool pool => .threadPool (pool.step (.worker index))

end UnderlyingExecutor

/-- A serial executor, its underlying executor and the calls of `Drain` that run there, each
with the task it executes. -/
structure Stacked (τ : Type) where
  serial : SerialExecutor τ
  underlying : UnderlyingExecutor
  drains : List (Option τ) := []
  deriving DecidableEq, Repr

inductive StackedAction (τ : Type) where
  | post (task : Option τ)
  | stop (mode : StopMode)
  | drain (index : Nat)
  | underlying (action : UnderlyingAction)
  deriving DecidableEq, Repr

namespace Stacked

variable {τ : Type} (s : Stacked τ)

/-- The result of `Post`; the underlying executor answers as its state demands. -/
def posted (task : Option τ) : Posted τ :=
  s.serial.post task (.answers s.underlying.admission)

def drainStep (index : Nat) : Stacked τ :=
  match s.drains[index]? with
  | none => s
  | some (some _) => { s with serial := s.serial.drained, drains := s.drains.set index none }
  | some none =>
    match s.serial.drain with
    | (some task, serial) => { s with serial, drains := s.drains.set index (some task) }
    | (none, serial) => { s with serial, drains := s.drains.eraseIdx index }

/-- A job that is a call of `Drain` ends after the call has returned. -/
def returned (action : UnderlyingAction) : Bool :=
  s.underlying.ends action ≠ some .drain || s.drains.length < s.underlying.running.count .drain

def step (action : StackedAction τ) : Stacked τ :=
  match action with
  | .post task =>
    { s with
      serial := (s.posted task).executor
      underlying := if (s.posted task).drain.isSome then s.underlying.submit .drain else s.underlying }
  | .stop mode => { s with serial := s.serial.stop mode }
  | .drain index => s.drainStep index
  | .underlying action =>
    if s.returned action then
      { s with
        underlying := s.underlying.step action
        drains := s.drains ++ if s.underlying.takes action = some .drain then [none] else [] }
    else s

end Stacked

end IocpRuntime.Execution
